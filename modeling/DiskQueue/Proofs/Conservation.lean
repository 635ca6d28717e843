/-
Module: DiskQueue.Proofs.Conservation
Purpose: Queues that share a folder lose no record and give none twice.
Trusted boundary: none
Main exports:
  Fleet.Conserved, Fleet.conserved
-/
import DiskQueue.Proofs.Ledger

namespace DiskQueue

open FileNames (asCommitted asTemporary)

/-!
While nothing fails and no work is cut off, a record is in one place at every point: in
its file from the moment its storing is confirmed, and with whoever has taken it from
the moment its file has lost its name. This holds for any number of queues, since the
candidates of a queue may be old, but the file of a candidate loses its name only once.
-/

namespace Fleet

/-- Every payload that was said to be stored is either a file or delivered, once. The
names are those of the files, and both lists are in the order of the history. -/
structure Conserved (folder : Key) (start tree : FileTree) (history : History)
    (kept : List (Name × Payload)) (taken : List (Name × Transmission)) : Prop where
  stored : kept.map Prod.snd = history.stored
  delivered : taken.map Prod.snd = history.delivered
  distinct : (kept.map Prod.fst).Nodup
  once : (taken.map Prod.fst).Nodup
  placed : ∀ entry ∈ kept,
    (∃ record modified, entry.2.record = .ok record ∧
      tree.lookup (folder ++ [asCommitted entry.1]) = some (.file record modified) ∧
      entry.1 ∉ taken.map Prod.fst) ∨
    (tree.lookup (folder ++ [asCommitted entry.1]) = none ∧
      (entry.1, entry.2.transmission) ∈ taken)
  source : ∀ entry ∈ taken,
    (∃ payload, (entry.1, payload) ∈ kept ∧ entry.2 = payload.transmission) ∨
    ∃ content modified,
      start.lookup (folder ++ [asCommitted entry.1]) = some (.file content modified) ∧
      Record.decode content = .ok entry.2
  files : ∀ base content modified,
    tree.lookup (folder ++ [asCommitted base]) = some (.file content modified) →
    (∃ payload, (base, payload) ∈ kept ∧ payload.record = .ok content) ∨
    start.lookup (folder ++ [asCommitted base]) = some (.file content modified)

variable {folder : Key} {start : Host} {history : History} {fleet : Fleet}

theorem conserved (offers : start.Offers folder) (faultless : start.Faultless)
    (run : Run folder ⟨start, []⟩ history fleet) (whole : history.IsWhole)
    (allowed : history.Allowed folder start.tree) :
    ∃ kept taken, Conserved folder start.tree fleet.host.tree history kept taken := by
  obtain ⟨-, ledger, books, -⟩ := Ledger.exists_books offers run allowed
  obtain ⟨none, blameless⟩ := books.whole faultless whole
  have written : ledger.written = ledger.kept := by
    rw [Ledger.written, none, List.append_nil]
  have explains := books.explains
  refine ⟨ledger.kept, ledger.taken, books.kept, books.taken, ?_, ?_, ?_, ?_, ?_⟩
  · exact written ▸ explains.distinct
  · have once := explains.once
    rw [Ledger.gone, List.nodup_append] at once
    exact once.1
  · intro entry mem
    rw [← written] at mem
    by_cases here : entry.1 ∈ ledger.gone
    · right
      refine ⟨explains.absent _ here, explains.mem_taken mem ?_⟩
      rcases List.mem_append.mp here with taken | lost
      · exact taken
      · exact absurd (List.mem_map_of_mem mem) (blameless _ lost)
    · left
      obtain ⟨record, modified, encoded, there⟩ := explains.present entry mem here
      exact ⟨record, modified, encoded, there, fun taken => here (List.mem_append_left _ taken)⟩
  · exact written ▸ explains.delivered
  · intro base content modified there
    rcases (explains.record there).2 with stored | ⟨-, old⟩
    · exact .inl (written ▸ stored)
    · exact .inr old

/-- One queue stores a record, another one takes it and stores one of its own. -/
theorem conserved_of_two :
    let start := Host.quiet FileTree.empty [] 1700000000123 (.start 0)
    ∃ history fleet, Run [] ⟨start, []⟩ history fleet ∧ fleet.queues.length = 2 ∧
      history.stored = [.bare [1], .labelled ⟨[2], "text", ""⟩] ∧
      history.delivered = [.ofBytes [1]] ∧
      ∃ kept taken, Conserved [] start.tree fleet.host.tree history kept taken := by
  intro start
  let writer : Queue := .ofDefaults [Path.slash] ⟨"abcdefgh"⟩ 0
  let reader : Queue := .ofDefaults [Path.slash] ⟨"22222222"⟩ 0
  let ready := ((Queue.openWith .default [Path.slash] ⟨"abcdefgh"⟩).run start).2
  let both := ((Queue.openWith .default [Path.slash] ⟨"22222222"⟩).run ready).2
  let first := writer.session [.tryStore (.bare [1])] both
  let second := reader.session [.take, .store (.labelled ⟨[2], "text", ""⟩)] first.2.2
  have opened : (Queue.openWith .default [Path.slash] ⟨"abcdefgh"⟩).run start
      = (.ok writer, ready) := Program.run_eq (by decide +kernel)
  have joined : (Queue.openWith .default [Path.slash] ⟨"22222222"⟩).run ready
      = (.ok reader, both) := Program.run_eq (by decide +kernel)
  have alone : Run [] ⟨start, []⟩ _ ⟨ready, [writer]⟩ :=
    (Run.start _).step _ _ _ _ _ (.opened _ _ _ _ _ _ _ (by decide +kernel) opened)
  have together : Run [] ⟨start, []⟩ _ ⟨both, [reader, writer]⟩ :=
    alone.step _ _ _ _ _ (.opened _ _ _ _ _ _ _ (by decide +kernel) joined)
  have run : Run [] ⟨start, []⟩ _ ⟨second.2.2, [second.2.1, first.2.1]⟩ :=
    run_session [] [first.2.1] _ (run_session [reader] [] _ together)
  refine ⟨_, _, run, rfl, by decide +kernel, by decide +kernel, ?_⟩
  exact conserved (Host.offers_quiet _ _) (Host.faultless_quiet _ _ _ _) run
    (by decide +kernel) (History.allowed_of_empty (by decide +kernel) (by decide +kernel)
      (by decide +kernel) (by decide +kernel))

end Fleet
end DiskQueue
