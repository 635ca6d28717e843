/-
Module: DiskQueue.Proofs.Recovery
Purpose: Work that is cut off anywhere leaves whole records, loses none that was
  confirmed, and gives none twice, also to queues that are opened later.
Trusted boundary: none
Main exports:
  Fleet.Recovered, Fleet.exists_opened, Fleet.size_opened, Fleet.recovered
-/
import DiskQueue.Proofs.Ledger

namespace DiskQueue

open FileTree (Fits)
open FileNames (asCommitted asTemporary)

/-!
Between two calls the files of a folder are temporary files, which may hold the beginning
of a record, and committed files, which hold a whole one. So a queue that is opened
afterwards needs no repair: it looks at committed files only, and counts their bytes. A
record that has lost its name is not found again, whether it was given or not.
-/

namespace Fleet

/-- What is left of the records, wherever work was cut off. The written ones are those
whose storing was confirmed, and those whose storing was cut off after its last change to
the folder. The lost ones have lost their names to attempts that gave nothing. -/
structure Recovered (folder : Key) (start : Host) (history : History) (tree : FileTree)
    (kept written : List (Name × Payload)) (taken : List (Name × Transmission))
    (lost : List Name) : Prop where
  stored : kept.map Prod.snd = history.stored
  confirmed : kept.Sublist written
  passed : ∀ entry ∈ written, entry.2 ∈ history.passed
  distinct : (written.map Prod.fst).Nodup
  whole : ∀ name ∈ Stored.listed tree folder FileNames.committed,
    ∃ entry ∈ written, name = asCommitted entry.1 ∧ ∃ record modified,
      entry.2.record = .ok record ∧ tree.lookup (folder ++ [name]) = some (.file record modified)
  survived : ∀ entry ∈ kept, entry.1 ∉ taken.map Prod.fst → entry.1 ∉ lost →
    ∃ record modified, entry.2.record = .ok record ∧
      tree.lookup (folder ++ [asCommitted entry.1]) = some (.file record modified)
  renamed : ∀ base, base ∈ taken.map Prod.fst ∨ base ∈ lost →
    Ledger.LostName folder ⟨start, []⟩ history base ∧
      tree.lookup (folder ++ [asCommitted base]) = none
  few : lost.length ≤ history.vain
  delivered : taken.map Prod.snd = history.delivered
  once : (taken.map Prod.fst).Nodup
  source : ∀ entry ∈ taken,
    ∃ payload, (entry.1, payload) ∈ written ∧ entry.2 = payload.transmission

variable {folder : Key} {start after : Host} {history : History} {fleet crashed : Fleet}
  {options : Queue.Options} {fallback : Path} {token : ProcessToken} {queue : Queue}

/-- A folder that was empty holds records only. -/
theorem exists_entry {ledger : Ledger} {tree : FileTree} (wellFormed : tree.WellFormed)
    (books : Ledger.Books folder start history tree ledger)
    (empty : ∀ name, start.tree.lookup (folder ++ [name]) = none) {name : Name}
    (listed : name ∈ Stored.listed tree folder FileNames.committed) :
    ∃ entry ∈ ledger.written, name = asCommitted entry.1 ∧ ∃ record modified,
      entry.2.record = .ok record ∧
        tree.lookup (folder ++ [name]) = some (.file record modified) := by
  obtain ⟨base, -, -, rfl, content, modified, there⟩ := Stored.exists_base wellFormed listed
  rcases (books.explains.record there).2 with ⟨payload, written, encoded⟩ | ⟨-, old⟩
  · exact ⟨(base, payload), written, rfl, content, modified, encoded, there⟩
  · rw [empty] at old
    cases old

theorem exists_recovered (offers : start.Offers folder)
    (empty : ∀ name, start.tree.lookup (folder ++ [name]) = none)
    (run : Run folder ⟨start, []⟩ history fleet)
    (allowed : history.Allowed folder start.tree) :
    ∃ kept written taken lost,
      Recovered folder start history fleet.host.tree kept written taken lost := by
  obtain ⟨crew, ledger, books, named⟩ := Ledger.exists_books offers run allowed
  have explains := books.explains
  have gone : ∀ base, base ∈ ledger.taken.map Prod.fst ∨ base ∈ ledger.lost →
      base ∈ ledger.gone :=
    fun base mem => List.mem_append.mpr mem
  refine ⟨ledger.kept, ledger.written, ledger.taken, ledger.lost, books.kept,
    List.sublist_append_left _ _, books.written_mem_passed, explains.distinct, ?_, ?_, ?_,
    books.vain, books.taken, ?_, ?_⟩
  · exact fun name listed => exists_entry crew.offers.wellFormed books empty listed
  · intro entry mem untaken here
    refine explains.present entry (List.mem_append_left _ mem) fun left => ?_
    exact (List.mem_append.mp left).elim untaken here
  · exact fun base mem => ⟨named base (gone base mem), explains.absent base (gone base mem)⟩
  · have once := explains.once
    rw [Ledger.gone, List.nodup_append] at once
    exact once.1
  · intro entry mem
    rcases explains.delivered entry mem with stored | ⟨content, modified, old, -⟩
    · exact stored
    · rw [empty] at old
      cases old

/-- What is left of work that was cut off does not keep a queue from being opened. -/
theorem exists_opened (offers : start.Offers folder)
    (empty : ∀ name, start.tree.lookup (folder ++ [name]) = none)
    (run : Run folder ⟨start, []⟩ history crashed)
    (allowed : History.Allowed folder start.tree
      (history ++ [.opened token (options.directory.getD fallback)]))
    (reaches : start.Reaches folder (options.directory.getD fallback))
    (faultless : start.Faultless)
    (accepted : FileTree.refusal? (options.directory.getD fallback) = none)
    (fits : Fits (options.directory.getD fallback) (Queue.checkName token)) :
    ∃ queue after, (Queue.openWith options fallback token).run crashed.host
      = (.ok queue, after) := by
  obtain ⟨crew, ledger, books, -⟩ := Ledger.exists_books offers run allowed.init
  have valid : token.IsValid := allowed.valid token (by simp [Happening.token?])
  have reaches := reaches.follow crew.later crew.follows (by simp [empty])
  have outcome := (Queue.meets_openWith (crew.offers.serves reaches) reaches valid
    (books.plain allowed rfl)).run
  cases opened : (Queue.openWith options fallback token).run crashed.host with
  | mk result after =>
    rw [opened] at outcome
    cases outcome with
    | refused e checked why => exact absurd fits (why (crew.later.faultless faultless) accepted)
    | opened => exact ⟨_, _, rfl⟩

/-- A queue that is opened anew has counted the bytes of all records. -/
theorem size_opened (offers : start.Offers folder)
    (empty : ∀ name, start.tree.lookup (folder ++ [name]) = none)
    (run : Run folder ⟨start, []⟩ history crashed)
    (allowed : History.Allowed folder start.tree
      (history ++ [.opened token (options.directory.getD fallback)]))
    (reaches : crashed.host.Reaches folder (options.directory.getD fallback))
    (opened : (Queue.openWith options fallback token).run crashed.host = (.ok queue, after))
    (faultless : start.Faultless)
    (room : ∀ earlier ∈ history.directories, ∀ name,
      Fits earlier name → Fits (options.directory.getD fallback) name) :
    queue.size.toNat
      = min (Stored.totalLength after.tree folder FileNames.committed) Saturating.greatest := by
  obtain ⟨crew, ledger, books, -⟩ := Ledger.exists_books offers run allowed.init
  obtain ⟨crew', ledger', books', -⟩ := Ledger.exists_books offers
    (run.step _ _ _ _ _ (.opened _ _ _ _ _ _ _ reaches opened)) allowed
  have valid : token.IsValid := allowed.valid token (by simp [Happening.token?])
  have outcome := (Queue.meets_openWith (crew.offers.serves reaches) reaches valid
    (books.plain allowed rfl)).run
  rw [opened] at outcome
  cases outcome with
  | opened size sets reached accepted most measured =>
    apply measured (Host.Faultless.answers (crew.later.faultless faultless) after)
    intro name listed
    obtain ⟨entry, written, rfl, record, modified, encoded, there⟩ :=
      exists_entry crew'.offers.wellFormed books' empty listed
    constructor
    · obtain ⟨earlier, mem, fits⟩ := (books'.issued entry written).fits
      rw [History.directories_append, List.mem_append] at mem
      rcases mem with before | now
      · exact room earlier before _ fits
      · have same : earlier = options.directory.getD fallback := by
          simpa [Happening.directory?] using now
        rwa [same] at fits
    · have short := allowed.lengths _ (books'.written_mem_passed entry written)
      have length := entry.2.length_record encoded
      rw [Stored.length, there]
      simp only [Record.maxHeaderLength] at length
      show record.length < 2 ^ 64
      omega

/-- However often work has been cut off, a queue can be opened afterwards. It finds the
whole records that are left, and has counted their bytes. Nothing of what goes on then
gives a record again that was given before. -/
theorem recovered (offers : start.Offers folder)
    (empty : ∀ name, start.tree.lookup (folder ++ [name]) = none)
    (run : Run folder ⟨start, []⟩ history crashed)
    (options : Queue.Options) (fallback : Path) (token : ProcessToken)
    (reaches : start.Reaches folder (options.directory.getD fallback))
    (allowed : History.Allowed folder start.tree
      (history ++ [.opened token (options.directory.getD fallback)])) :
    (start.Faultless → FileTree.refusal? (options.directory.getD fallback) = none →
      Fits (options.directory.getD fallback) (Queue.checkName token) →
      ∃ queue after, (Queue.openWith options fallback token).run crashed.host
        = (.ok queue, after)) ∧
    ∀ queue after,
      (Queue.openWith options fallback token).run crashed.host = (.ok queue, after) →
      (start.Faultless →
        (∀ earlier ∈ history.directories, ∀ name,
          Fits earlier name → Fits (options.directory.getD fallback) name) →
        queue.size.toNat = min (Stored.totalLength after.tree folder FileNames.committed)
          Saturating.greatest) ∧
      ∀ rest last, Run folder ⟨after, queue :: crashed.queues⟩ rest last →
        History.Allowed folder start.tree
          (history ++ [.opened token (options.directory.getD fallback)] ++ rest) →
        ∃ kept written taken lost, Recovered folder start
          (history ++ [.opened token (options.directory.getD fallback)] ++ rest)
          last.host.tree kept written taken lost := by
  obtain ⟨crew, -⟩ := Ledger.exists_books offers run allowed.init
  have reached := reaches.follow crew.later crew.follows (by simp [empty])
  refine ⟨exists_opened offers empty run allowed reaches, ?_⟩
  intro queue after opened
  refine ⟨size_opened offers empty run allowed reached opened, ?_⟩
  intro rest last later allowed
  have reopened := run.step _ _ _ _ _ (.opened _ _ _ _ _ _ _ reached opened)
  exact exists_recovered offers empty (reopened.trans later) allowed

theorem recovered_after_cut :
    let start := Host.quiet FileTree.empty [] 1700000000123 (.start 0)
    ∃ (history rest : History) (crashed last : Fleet) (queue : Queue) (after : Host),
      Run [] ⟨start, []⟩ history crashed ∧
      (∃ queue after, (Queue.openWith .default [Path.slash] ⟨"22222222"⟩).run crashed.host
        = (.ok queue, after)) ∧
      (Queue.openWith .default [Path.slash] ⟨"22222222"⟩).run crashed.host = (.ok queue, after) ∧
      Run [] ⟨after, queue :: crashed.queues⟩ rest last ∧
      history.stored = [.bare [1]] ∧ history.passed = [.bare [1], .bare [2]] ∧
      rest.delivered = [.ofBytes [1]] ∧
      queue.size.toNat = min (Stored.totalLength after.tree [] FileNames.committed)
        Saturating.greatest ∧
      ∃ kept written taken lost, Recovered [] start
        (history ++ [.opened ⟨"22222222"⟩ [Path.slash]] ++ rest) last.host.tree kept written taken
        lost := by
  intro start
  let queue (token : ProcessToken) (size : UInt64) : Queue :=
    ⟨[Path.slash], token, 0, Limits.storage.choose none, size,
      Candidates.start Queue.Options.default.cacheSize Queue.Options.default.refillOrder,
      Queue.Options.default.deleteRetry⟩
  let host := ((Queue.openWith .default [Path.slash] ⟨"abcdefgh"⟩).run start).2
  let served := (queue ⟨"abcdefgh"⟩ 0).session [.tryStore (.bare [1])] host
  -- Cut off when the second record has been written and has not got its name.
  let crashed : Fleet :=
    ⟨Program.runCalls 3 ((Request.tryStore (.bare [2])).program served.2.1) served.2.2, []⟩
  let after := ((Queue.openWith .default [Path.slash] ⟨"22222222"⟩).run crashed.host).2
  let ended := (queue ⟨"22222222"⟩ 37).session [.take] after
  have first : (Queue.openWith .default [Path.slash] ⟨"abcdefgh"⟩).run start
      = (.ok (queue ⟨"abcdefgh"⟩ 0), host) := Program.run_eq (by decide +kernel)
  have second : (Queue.openWith .default [Path.slash] ⟨"22222222"⟩).run crashed.host
      = (.ok (queue ⟨"22222222"⟩ 37), after) := Program.run_eq (by decide +kernel)
  have started : Run [] ⟨start, []⟩ (.opened ⟨"abcdefgh"⟩ [Path.slash] :: served.1)
      ⟨served.2.2, [served.2.1]⟩ :=
    run_session [] [] [.tryStore (.bare [1])] ((Run.start ⟨start, []⟩).step _ _ _ _ _
      (.opened _ _ _ .default [Path.slash] _ _ (by decide +kernel) first))
  have run : Run [] ⟨start, []⟩ (.opened ⟨"abcdefgh"⟩ [Path.slash] :: served.1
      ++ [.cut served.2.1.token (.tryStore (.bare [2]))]) crashed :=
    started.step _ _ _ _ _
      (.cut _ _ [] [] _ (.tryStore (.bare [2])) (Program.cutAt_runCalls 3 _ _))
  have later : Run [] ⟨after, [queue ⟨"22222222"⟩ 37]⟩ ended.1 ⟨ended.2.2, [ended.2.1]⟩ :=
    run_session [] [] [.take] (Run.start _)
  have allowed : History.Allowed [] start.tree (.opened ⟨"abcdefgh"⟩ [Path.slash] :: served.1
      ++ [.cut served.2.1.token (.tryStore (.bare [2]))]
      ++ [.opened ⟨"22222222"⟩ [Path.slash]] ++ ended.1) := by
    refine ⟨by decide +kernel, by decide +kernel, ?_, by decide +kernel, by decide +kernel⟩
    intro token _ name node there
    cases (FileTree.lookup_empty (List.cons_ne_nil name [])).symm.trans there
  have found := recovered (Host.offers_quiet _ _) (fun _ => FileTree.lookup_empty (by simp)) run
    .default [Path.slash] ⟨"22222222"⟩ (by decide +kernel) (History.Allowed.of_append allowed)
  have opens := found.1 (Host.faultless_quiet _ _ _ _) (by decide +kernel)
    ⟨by decide +kernel, by decide +kernel⟩
  have goesOn := found.2 _ _ second
  have measured := goesOn.1 (Host.faultless_quiet _ _ _ _) (by
    intro earlier mem name fits
    have own : ∀ path ∈ History.directories (.opened ⟨"abcdefgh"⟩ [Path.slash] :: served.1
        ++ [.cut served.2.1.token (.tryStore (.bare [2]))]), path = [Path.slash] := by
      decide +kernel
    exact own earlier mem ▸ fits)
  exact ⟨_, _, _, _, _, _, run, opens, second, later, by decide +kernel, by decide +kernel,
    by decide +kernel, measured, goesOn.2 _ _ later allowed⟩

end Fleet
end DiskQueue
