/-
Module: DiskQueue.Proofs.Fleet
Purpose: Any number of queues on one folder, working in any order, and what is known of
  them at every point.
Trusted boundary: none
Main exports:
  Fleet, Happening, Fleet.Step, Fleet.Run, History.Allowed, Fleet.Crew, Fleet.Crew.step
-/
import DiskQueue.Proofs.Requests

namespace DiskQueue

open FileTree (Fits Sets Follows)
open FileNames (asCommitted asTemporary)

/-!
The queues on a folder know nothing of each other. They are opened, answer requests and
are closed, one whole piece of work after another. Work can be cut off at any of its
calls; then its queue is gone, whatever it has left in the folder, and the others go on.
What happens is written down as a history, the oldest first.
-/

/-- A host with the queues that are open on it. -/
structure Fleet where
  host : Host
  queues : List Queue

/-- What can happen. A queue is named by its token. -/
inductive Happening where
  | opened (token : ProcessToken) (directory : Path)
  | refused (token : ProcessToken)
  | answered (token : ProcessToken) (request : Request) (answer : Answer) (drawn : Nat)
  | closed (token : ProcessToken)
  | cutOpening (token : ProcessToken)
  | cut (token : ProcessToken) (request : Request)

namespace Happening

/-- The token that a queue is opened with. -/
def token? : Happening → Option ProcessToken
  | .opened token _ => some token
  | .refused token => some token
  | .cutOpening token => some token
  | _ => none

/-- The path that a queue is opened with. -/
def directory? : Happening → Option Path
  | .opened _ directory => some directory
  | _ => none

/-- The payload that is to be stored. -/
def payload? : Happening → Option Payload
  | .answered _ request _ _ => request.payload?
  | .cut _ request => request.payload?
  | _ => none

/-- The payload that is said to be stored. -/
def stored? : Happening → Option Payload
  | .answered _ request answer _ => request.stored? answer
  | _ => none

/-- The transmission that is given. -/
def delivered? : Happening → Option Transmission
  | .answered _ _ answer _ => answer.delivered?
  | _ => none

/-- Whether a record is to be taken. -/
def takes : Happening → Bool
  | .answered _ request _ _ => request.takes
  | .cut _ request => request.takes
  | _ => false

/-- Whether an attempt to take a record gives none. -/
def isVain (happening : Happening) : Bool := happening.takes && happening.delivered?.isNone

/-- Whether work is cut off. -/
def isCut : Happening → Bool
  | .cutOpening _ => true
  | .cut _ _ => true
  | _ => false

/-- How many numbers a queue has drawn. Work that is cut off counts with the most that it
can have drawn. -/
def drawn (token : ProcessToken) : Happening → Nat
  | .answered other _ _ count => if other = token then count else 0
  | .cut other _ => if other = token then Queue.maxStagingAttempts else 0
  | _ => 0

end Happening

/-- What has happened, the oldest first. -/
abbrev History := List Happening

namespace History

/-- The tokens that queues have been opened with. -/
def tokens (history : History) : List ProcessToken := history.filterMap Happening.token?

/-- The paths that queues have been opened with. -/
def directories (history : History) : List Path := history.filterMap Happening.directory?

/-- The payloads that were to be stored. -/
def passed (history : History) : List Payload := history.filterMap Happening.payload?

/-- The payloads that were said to be stored. -/
def stored (history : History) : List Payload := history.filterMap Happening.stored?

/-- The transmissions that were given. -/
def delivered (history : History) : List Transmission := history.filterMap Happening.delivered?

/-- How many attempts to take a record gave none. -/
def vain (history : History) : Nat := history.countP Happening.isVain

/-- How many numbers a queue has drawn. -/
def drawn (token : ProcessToken) (history : History) : Nat :=
  (history.map (Happening.drawn token)).sum

/-- Whether no work was cut off. -/
def IsWhole (history : History) : Prop := ∀ happening ∈ history, happening.isCut = false

instance (history : History) : Decidable history.IsWhole :=
  inferInstanceAs (Decidable (∀ happening ∈ history, _ = _))

/-- Tokens are distinct and occur in no name that was in the folder before; no queue
draws more numbers than there are, and no payload has more bytes than memory can hold. -/
structure Allowed (folder : Key) (start : FileTree) (history : History) : Prop where
  distinct : history.tokens.Nodup
  valid : ∀ token ∈ history.tokens, token.IsValid
  unused : ∀ token ∈ history.tokens, ∀ name node,
    start.lookup (folder ++ [name]) = some node → FileNames.contains token.bytes name = false
  numbers : ∀ token ∈ history.tokens, history.drawn token < 2 ^ 64
  lengths : ∀ payload ∈ history.passed, payload.transmission.content.length < 2 ^ 63

variable {history : History} {happening : Happening} {folder : Key} {start : FileTree}

@[simp] theorem tokens_append (history : History) (happening : Happening) :
    tokens (history ++ [happening]) = history.tokens ++ happening.token?.toList := by
  cases h : happening.token? <;> simp [tokens, h]

@[simp] theorem directories_append (history : History) (happening : Happening) :
    directories (history ++ [happening]) = history.directories ++ happening.directory?.toList := by
  cases h : happening.directory? <;> simp [directories, h]

@[simp] theorem passed_append (history : History) (happening : Happening) :
    passed (history ++ [happening]) = history.passed ++ happening.payload?.toList := by
  cases h : happening.payload? <;> simp [passed, h]

@[simp] theorem stored_append (history : History) (happening : Happening) :
    stored (history ++ [happening]) = history.stored ++ happening.stored?.toList := by
  cases h : happening.stored? <;> simp [stored, h]

@[simp] theorem delivered_append (history : History) (happening : Happening) :
    delivered (history ++ [happening]) = history.delivered ++ happening.delivered?.toList := by
  cases h : happening.delivered? <;> simp [delivered, h]

@[simp] theorem vain_append (history : History) (happening : Happening) :
    vain (history ++ [happening]) = history.vain + if happening.isVain then 1 else 0 := by
  cases h : happening.isVain <;> simp [vain, h]

@[simp] theorem drawn_append (token : ProcessToken) (history : History) (happening : Happening) :
    drawn token (history ++ [happening]) = history.drawn token + happening.drawn token := by
  simp [drawn]

@[simp] theorem passed_cons (happening : Happening) (history : History) :
    passed (happening :: history) = happening.payload?.toList ++ history.passed := by
  cases h : happening.payload? <;> simp [passed, h]

@[simp] theorem stored_cons (happening : Happening) (history : History) :
    stored (happening :: history) = happening.stored?.toList ++ history.stored := by
  cases h : happening.stored? <;> simp [stored, h]

@[simp] theorem delivered_cons (happening : Happening) (history : History) :
    delivered (happening :: history) = happening.delivered?.toList ++ history.delivered := by
  cases h : happening.delivered? <;> simp [delivered, h]

@[simp] theorem tokens_cons (happening : Happening) (history : History) :
    tokens (happening :: history) = happening.token?.toList ++ history.tokens := by
  cases h : happening.token? <;> simp [tokens, h]

@[simp] theorem drawn_cons (token : ProcessToken) (happening : Happening) (history : History) :
    drawn token (happening :: history) = happening.drawn token + history.drawn token := by
  simp [drawn]

theorem stored_subset_passed {history : History} : history.stored ⊆ history.passed := by
  intro payload mem
  obtain ⟨happening, there, stored⟩ := List.mem_filterMap.mp mem
  refine List.mem_filterMap.mpr ⟨happening, there, ?_⟩
  cases happening with
  | answered token request answer drawn =>
    simp only [Happening.stored?, Request.stored?] at stored
    split at stored
    · exact stored
    · exact stored
    · cases stored
  | _ => cases stored

theorem IsWhole.init (h : IsWhole (history ++ [happening])) : IsWhole history :=
  fun other mem => h other (List.mem_append_left _ mem)

/-- What is allowed has been allowed before. -/
theorem Allowed.init (h : Allowed folder start (history ++ [happening])) :
    Allowed folder start history := by
  constructor
  · have distinct := h.distinct
    rw [tokens_append, List.nodup_append] at distinct
    exact distinct.1
  · intro token mem
    exact h.valid token (by simp [mem])
  · intro token mem
    exact h.unused token (by simp [mem])
  · intro token mem
    have room := h.numbers token (by simp [mem])
    rw [drawn_append] at room
    omega
  · intro payload mem
    exact h.lengths payload (by simp [mem])

theorem Allowed.of_append {more : History} (h : Allowed folder start (history ++ more)) :
    Allowed folder start history := by
  induction more using List.reverseRecOn with
  | nil => simpa using h
  | append_singleton more happening ih =>
    rw [← List.append_assoc] at h
    exact ih h.init

end History

namespace Fleet

/-- One whole piece of work of one queue, or what is done of it when it is cut off. A queue
is only opened by a path that leads to the folder. -/
inductive Step (folder : Key) : Fleet → Happening → Fleet → Prop
  | opened (host after : Host) (queues : List Queue) (options : Queue.Options) (fallback : Path)
      (token : ProcessToken) (queue : Queue)
      (reaches : host.Reaches folder (options.directory.getD fallback))
      (run : (Queue.openWith options fallback token).run host = (.ok queue, after)) :
      Step folder ⟨host, queues⟩ (.opened token (options.directory.getD fallback))
        ⟨after, queue :: queues⟩
  | refused (host after : Host) (queues : List Queue) (options : Queue.Options) (fallback : Path)
      (token : ProcessToken) (e : QueueError)
      (reaches : host.Reaches folder (options.directory.getD fallback))
      (run : (Queue.openWith options fallback token).run host = (.error e, after)) :
      Step folder ⟨host, queues⟩ (.refused token) ⟨after, queues⟩
  | answered (host after : Host) (before behind : List Queue) (queue later : Queue)
      (request : Request) (answer : Answer)
      (run : (request.program queue).run host = ((answer, later), after)) :
      Step folder ⟨host, before ++ queue :: behind⟩
        (.answered queue.token request answer (later.sequence - queue.sequence).toNat)
        ⟨after, before ++ later :: behind⟩
  | closed (host : Host) (before behind : List Queue) (queue : Queue) :
      Step folder ⟨host, before ++ queue :: behind⟩ (.closed queue.token)
        ⟨host, before ++ behind⟩
  | cutOpening (host after : Host) (queues : List Queue) (options : Queue.Options)
      (fallback : Path) (token : ProcessToken)
      (reaches : host.Reaches folder (options.directory.getD fallback))
      (stopped : (Queue.openWith options fallback token).CutAt host after) :
      Step folder ⟨host, queues⟩ (.cutOpening token) ⟨after, queues⟩
  | cut (host after : Host) (before behind : List Queue) (queue : Queue) (request : Request)
      (stopped : (request.program queue).CutAt host after) :
      Step folder ⟨host, before ++ queue :: behind⟩ (.cut queue.token request)
        ⟨after, before ++ behind⟩

/-- One piece of work after another. -/
inductive Run (folder : Key) : Fleet → History → Fleet → Prop
  | start (fleet : Fleet) : Run folder fleet [] fleet
  | step (fleet mid after : Fleet) (history : History) (happening : Happening)
      (run : Run folder fleet history mid) (step : Step folder mid happening after) :
      Run folder fleet (history ++ [happening]) after

/-- A run goes on where another one has ended. -/
theorem Run.trans {folder : Key} {fleet mid after : Fleet} {history more : History}
    (first : Run folder fleet history mid) (second : Run folder mid more after) :
    Run folder fleet (history ++ more) after := by
  induction second with
  | start => rwa [List.append_nil]
  | step mid after more happening run step ih =>
    rw [← List.append_assoc]
    exact ih.step _ _ _ _ _ step

end Fleet

/-- A queue answers requests one after another. -/
def Queue.session : List Request → Queue → Host → History × Queue × Host
  | [], queue, host => ([], queue, host)
  | request :: rest, queue, host =>
    let outcome := (request.program queue).run host
    let ended := session rest outcome.1.2 outcome.2
    (.answered queue.token request outcome.1.1 (outcome.1.2.sequence - queue.sequence).toNat
      :: ended.1, ended.2)

theorem Queue.later_session (requests : List Request) (queue : Queue) (host : Host) :
    host.Later (queue.session requests host).2.2 := by
  induction requests generalizing queue host with
  | nil => exact Host.Later.refl host
  | cons request rest ih => exact (Program.later_run (request.program queue) host).trans (ih _ _)

/-- A session is a run of one queue among others. -/
theorem Fleet.run_session {folder : Key} {fleet : Fleet} (before behind : List Queue)
    (requests : List Request) {history : History} {queue : Queue} {host : Host}
    (run : Run folder fleet history ⟨host, before ++ queue :: behind⟩) :
    Run folder fleet (history ++ (queue.session requests host).1)
      ⟨(queue.session requests host).2.2,
        before ++ (queue.session requests host).2.1 :: behind⟩ := by
  induction requests generalizing history queue host with
  | nil => simpa [Queue.session] using run
  | cons request rest ih =>
    have answered := run.step _ _ _ _ _
      (.answered host _ before behind queue _ request _ rfl)
    have ended := ih answered
    rwa [List.append_assoc, List.singleton_append] at ended

/-- In a session no queue is opened, and no work is cut off. -/
theorem History.session (requests : List Request) (queue : Queue) (host : Host) :
    (queue.session requests host).1.tokens = [] ∧ (queue.session requests host).1.IsWhole := by
  induction requests generalizing queue host with
  | nil => exact ⟨rfl, fun _ mem => nomatch mem⟩
  | cons request rest ih =>
    obtain ⟨tokens, whole⟩ := ih ((request.program queue).run host).1.2
      ((request.program queue).run host).2
    refine ⟨?_, List.forall_mem_cons.mpr ⟨rfl, whole⟩⟩
    rw [Queue.session, tokens_cons, tokens]
    rfl

/-- No name in an empty tree carries a token. -/
theorem History.allowed_of_empty {folder : Key} {history : History}
    (distinct : history.tokens.Nodup) (valid : ∀ token ∈ history.tokens, token.IsValid)
    (numbers : ∀ token ∈ history.tokens, history.drawn token < 2 ^ 64)
    (lengths : ∀ payload ∈ history.passed, payload.transmission.content.length < 2 ^ 63) :
    Allowed folder FileTree.empty history where
  distinct := distinct
  valid := valid
  unused := by
    intro token _ name node there
    cases (FileTree.lookup_empty (by simp)).symm.trans there
  numbers := numbers
  lengths := lengths

/-- A tree with a folder that queues can be opened on. -/
structure Host.Offers (folder : Key) (host : Host) : Prop where
  wellFormed : host.tree.WellFormed
  current : host.tree.lookup host.directory = some .directory
  isFolder : host.tree.lookup folder = some .directory

/-- A tree that is empty offers its root. -/
theorem Host.offers_quiet (time : Int) (tally : FailureTally) :
    (Host.quiet FileTree.empty [] time tally).Offers [] where
  wellFormed := by
    constructor <;>
    · intro key name node there
      rw [Host.quiet, FileTree.lookup_empty (by simp)] at there
      cases there
  current := rfl
  isFolder := rfl

theorem Host.Offers.follow {folder : Key} {host after : Host} (h : host.Offers folder)
    (later : host.Later after) (follows : Follows folder host.tree after.tree) :
    after.Offers folder where
  wellFormed := follows.wellFormed h.wellFormed
  current := by
    rw [later.directory]
    exact (follows.directories _).mpr h.current
  isFolder := (follows.directories _).mpr h.isFolder

theorem Host.Offers.serves {folder : Key} {host : Host} (h : host.Offers folder)
    {directory : Path} (reaches : host.Reaches folder directory) :
    host.Serves folder directory where
  wellFormed := h.wellFormed
  current := h.current
  isFolder := h.isFolder
  leads _ found := Option.some.inj (found.symm.trans reaches)

/-- Where a queue has been opened, another one could be. -/
theorem Host.Offers.of_opened {folder : Key} {start ready : Host} {options : Queue.Options}
    {fallback : Path} {token : ProcessToken} {queue : Queue} (offers : start.Offers folder)
    (opened : (Queue.openWith options fallback token).run start = (.ok queue, ready))
    (reaches : start.Reaches folder (options.directory.getD fallback)) (valid : token.IsValid)
    (plain : start.tree.IsPlain folder (Queue.checkName token)) :
    ready.Offers folder ∧ ready.Reaches folder queue.directory := by
  have outcome := (Queue.meets_openWith (offers.serves reaches) reaches valid plain).run
  have later := Program.later_run (Queue.openWith options fallback token) start
  rw [opened] at outcome later
  cases outcome with
  | opened size sets reached =>
    have follows := sets.follows (fun found => by simpa [Node.kind] using plain _ found)
      offers.isFolder (by simp)
    exact ⟨offers.follow later follows, reached⟩

namespace Fleet

variable {folder : Key} {start : Host} {history : History} {happening : Happening}
  {fleet after : Fleet}

/-- What is known of the queues that are open: their paths lead to the folder or nowhere,
their candidates are sound, their tokens are distinct, and each one's sequence is the
count of the numbers that it has drawn. -/
structure Crew (folder : Key) (start : Host) (history : History) (fleet : Fleet) : Prop where
  later : start.Later fleet.host
  follows : Follows folder start.tree fleet.host.tree
  offers : fleet.host.Offers folder
  serves : ∀ queue ∈ fleet.queues, fleet.host.Serves folder queue.directory
  sound : ∀ queue ∈ fleet.queues,
    queue.candidates.Sound folder queue.directory fleet.host.tree
  live : (fleet.queues.map Queue.token).Nodup
  known : ∀ queue ∈ fleet.queues,
    queue.token ∈ history.tokens ∧ queue.directory ∈ history.directories
  numbers : ∀ queue ∈ fleet.queues, queue.sequence.toNat = history.drawn queue.token
  silent : ∀ token, token ∉ history.tokens → history.drawn token = 0

theorem Crew.none (offers : start.Offers folder) : Crew folder start [] ⟨start, []⟩ where
  later := Host.Later.refl start
  follows := Follows.refl folder start.tree
  offers := offers
  serves := by simp
  sound := by simp
  live := List.nodup_nil
  known := by simp
  numbers := by simp
  silent _ _ := rfl

/-- The queues that are not at work see the folder change. -/
theorem Crew.watch {host last : Host} {queues rest : List Queue}
    (crew : Crew folder start history ⟨host, queues⟩) (later : host.Later last)
    (follows : Follows folder host.tree last.tree) (among : ∀ queue ∈ rest, queue ∈ queues)
    (live : (rest.map Queue.token).Nodup)
    (idle : ∀ queue ∈ rest, happening.drawn queue.token = 0)
    (counted : ∀ token, token ∉ history.tokens → happening.drawn token = 0) :
    Crew folder start (history ++ [happening]) ⟨last, rest⟩ where
  later := crew.later.trans later
  follows := crew.follows.trans follows
  offers := crew.offers.follow later follows
  serves queue mem := (crew.serves queue (among queue mem)).follow later follows
  sound queue mem := (crew.sound queue (among queue mem)).follow follows
  live := live
  known queue mem := by
    obtain ⟨token, directory⟩ := crew.known queue (among queue mem)
    exact ⟨by simp [token], by simp [directory]⟩
  numbers queue mem := by
    rw [History.drawn_append, idle queue mem]
    exact crew.numbers queue (among queue mem)
  silent token new := by
    rw [History.tokens_append, List.mem_append, not_or] at new
    rw [History.drawn_append, crew.silent token new.1, counted token new.1]

/-- A queue joins the others. -/
theorem Crew.join {host : Host} {queues : List Queue} {queue : Queue}
    (crew : Crew folder start history ⟨host, queues⟩)
    (serves : host.Serves folder queue.directory)
    (sound : queue.candidates.Sound folder queue.directory host.tree)
    (new : ∀ other ∈ queues, other.token ≠ queue.token)
    (known : queue.token ∈ history.tokens ∧ queue.directory ∈ history.directories)
    (numbers : queue.sequence.toNat = history.drawn queue.token) :
    Crew folder start history ⟨host, queue :: queues⟩ where
  later := crew.later
  follows := crew.follows
  offers := crew.offers
  serves := List.forall_mem_cons.mpr ⟨serves, crew.serves⟩
  sound := List.forall_mem_cons.mpr ⟨sound, crew.sound⟩
  live := by
    rw [List.map_cons, List.nodup_cons]
    refine ⟨?_, crew.live⟩
    intro mem
    obtain ⟨other, there, same⟩ := List.mem_map.mp mem
    exact new other there same
  known := List.forall_mem_cons.mpr ⟨known, crew.known⟩
  numbers := List.forall_mem_cons.mpr ⟨numbers, crew.numbers⟩
  silent := crew.silent

/-- The order of the queues does not matter. -/
theorem Crew.perm {host : Host} {queues others : List Queue}
    (crew : Crew folder start history ⟨host, queues⟩) (perm : others.Perm queues) :
    Crew folder start history ⟨host, others⟩ where
  later := crew.later
  follows := crew.follows
  offers := crew.offers
  serves queue mem := crew.serves queue (perm.mem_iff.mp mem)
  sound queue mem := crew.sound queue (perm.mem_iff.mp mem)
  live := ((perm.map Queue.token).nodup_iff).mpr crew.live
  known queue mem := crew.known queue (perm.mem_iff.mp mem)
  numbers queue mem := crew.numbers queue (perm.mem_iff.mp mem)
  silent := crew.silent

theorem mem_of_mem_others {before behind : List Queue} {queue other : Queue}
    (mem : other ∈ before ++ behind) : other ∈ before ++ queue :: behind :=
  List.perm_middle.symm.subset (List.mem_cons_of_mem _ mem)

/-- A queue among others, which all have other tokens. -/
theorem Crew.apart {host : Host} {before behind : List Queue} {queue : Queue}
    (crew : Crew folder start history ⟨host, before ++ queue :: behind⟩) :
    (∀ other ∈ before ++ behind, other.token ≠ queue.token) ∧
      ((before ++ behind).map Queue.token).Nodup := by
  have live := (crew.perm List.perm_middle.symm).live
  rw [List.map_cons, List.nodup_cons] at live
  refine ⟨?_, live.2⟩
  intro other mem same
  exact live.1 (same ▸ List.mem_map_of_mem mem)

theorem Crew.member {host : Host} {before behind : List Queue} {queue : Queue}
    (crew : Crew folder start history ⟨host, before ++ queue :: behind⟩)
    (valid : ∀ token ∈ history.tokens, token.IsValid) :
    host.Serves folder queue.directory ∧
      queue.candidates.Sound folder queue.directory host.tree ∧ queue.token.IsValid ∧
      queue.token ∈ history.tokens ∧ queue.directory ∈ history.directories ∧
      queue.sequence.toNat = history.drawn queue.token := by
  have mem : queue ∈ before ++ queue :: behind := by simp
  obtain ⟨token, directory⟩ := crew.known queue mem
  exact ⟨crew.serves queue mem, crew.sound queue mem, valid _ token, token, directory,
    crew.numbers queue mem⟩

/-- Opening changes nothing for the queues that are open. -/
theorem Crew.watchOpening {host last : Host} {queues : List Queue}
    (crew : Crew folder start history ⟨host, queues⟩) (later : host.Later last)
    (follows : Follows folder host.tree last.tree)
    (none : ∀ token, happening.drawn token = 0) :
    Crew folder start (history ++ [happening]) ⟨last, queues⟩ :=
  crew.watch later follows (fun _ mem => mem) crew.live (fun queue _ => none queue.token)
    fun token _ => none token

/-- Numbers that are not used up are counted on. -/
theorem toNat_add_ofNat {number : UInt64} {count : Nat} (h : number.toNat + count < 2 ^ 64) :
    (number + UInt64.ofNat count).toNat = number.toNat + count := by
  rw [UInt64.toNat_add, UInt64.toNat_ofNat_of_lt' (Nat.lt_of_le_of_lt (Nat.le_add_left _ _) h)]
  exact Nat.mod_eq_of_lt h

theorem drawn_answered {queue later : Queue} (request : Request) (answer : Answer) {count : Nat}
    (bound : count ≤ Queue.maxStagingAttempts)
    (sequence : later.sequence = queue.sequence + UInt64.ofNat count) :
    Happening.drawn queue.token
      (.answered queue.token request answer (later.sequence - queue.sequence).toNat) = count := by
  have small : count < 2 ^ 64 := Nat.lt_of_le_of_lt bound (by decide)
  have difference : later.sequence - queue.sequence = UInt64.ofNat count := by
    rw [sequence, UInt64.add_comm, UInt64.add_sub_cancel]
  rw [Happening.drawn, if_pos rfl, difference, UInt64.toNat_ofNat_of_lt' small]

theorem Crew.step (crew : Crew folder start history fleet)
    (allowed : History.Allowed folder start.tree (history ++ [happening]))
    (plain : ∀ token, happening.token? = some token →
      fleet.host.tree.IsPlain folder (Queue.checkName token))
    (step : Step folder fleet happening after) :
    Crew folder start (history ++ [happening]) after := by
  have before := allowed.init
  cases step with
  | opened host last queues options fallback token queue reaches run =>
    have valid : token.IsValid := allowed.valid token (by simp [Happening.token?])
    have new : token ∉ history.tokens := by
      have distinct := allowed.distinct
      rw [History.tokens_append, List.nodup_append] at distinct
      intro mem
      exact distinct.2.2 token mem token (by simp [Happening.token?]) rfl
    have serves := crew.offers.serves reaches
    have outcome := (Queue.meets_openWith serves reaches valid (plain token rfl)).run
    have later := Program.later_run (Queue.openWith options fallback token) host
    rw [run] at outcome later
    cases outcome with
    | opened size sets =>
      have follows := sets.follows
        (fun found => by simpa [Node.kind] using plain token rfl _ found) crew.offers.isFolder
        (by simp)
      refine (crew.watchOpening later follows fun _ => rfl).join (serves.follow later follows)
        (Candidates.sound_start _ _ _ _ _) ?_ ?_ ?_
      · intro other mem same
        have known := (crew.known other mem).1
        rw [same] at known
        exact new known
      · exact ⟨by simp [Happening.token?], by simp [Happening.directory?]⟩
      · rw [History.drawn_append, crew.silent token new]
        rfl
  | refused host last queues options fallback token e reaches run =>
    have valid : token.IsValid := allowed.valid token (by simp [Happening.token?])
    have serves := crew.offers.serves reaches
    have outcome := (Queue.meets_openWith serves reaches valid (plain token rfl)).run
    have later := Program.later_run (Queue.openWith options fallback token) host
    rw [run] at outcome later
    cases outcome with
    | refused _ checked =>
      exact crew.watchOpening later (checked.follows valid (plain token rfl) crew.offers.isFolder)
        fun _ => rfl
  | answered host last front behind queue left request answer run =>
    obtain ⟨serves, sound, valid, known, path, number⟩ := crew.member before.valid
    obtain ⟨apart, live⟩ := crew.apart
    have served := (Queue.meets_request request serves sound valid).run
    have later := Program.later_run (request.program queue) host
    rw [run] at served later
    have follows := served.follows serves valid
    obtain ⟨token, directory, kept, count, bound, sequence⟩ := served.queue_eq serves valid sound
    have drawn := drawn_answered request answer bound sequence
    have idle : ∀ other, other ≠ queue.token → Happening.drawn other
        (.answered queue.token request answer (left.sequence - queue.sequence).toNat) = 0 :=
      fun other different => if_neg different.symm
    have rest : Crew folder start (history ++ [.answered queue.token request answer
        (left.sequence - queue.sequence).toNat]) ⟨last, front ++ behind⟩ :=
      crew.watch later follows (fun _ => mem_of_mem_others) live
      (fun other mem => idle _ (apart other mem))
      (fun other new => idle other fun same => new (same ▸ known))
    suffices joined : Crew folder start (history ++ [.answered queue.token request answer
        (left.sequence - queue.sequence).toNat]) ⟨last, left :: (front ++ behind)⟩ from
      joined.perm List.perm_middle
    apply rest.join
    · rw [directory]
      exact serves.follow later follows
    · rwa [directory]
    · rw [token]
      exact apart
    · rw [token, directory]
      exact ⟨by simp [known], by simp [path]⟩
    · have room := allowed.numbers queue.token (by simp [known])
      rw [History.drawn_append, drawn, ← number] at room
      rw [token, History.drawn_append, drawn, sequence, toNat_add_ofNat room, number]
  | closed host before behind queue =>
    obtain ⟨apart, live⟩ := crew.apart
    exact crew.watch (Host.Later.refl host) (Follows.refl _ _) (fun _ => mem_of_mem_others) live
      (fun _ _ => rfl) fun _ _ => rfl
  | cutOpening host last queues options fallback token reaches stopped =>
    have valid : token.IsValid := allowed.valid token (by simp [Happening.token?])
    have serves := crew.offers.serves reaches
    have checked := (Queue.meets_openWith serves reaches valid (plain token rfl)).cut stopped
    exact crew.watchOpening stopped.later_host
      (checked.follows valid (plain token rfl) crew.offers.isFolder) fun _ => rfl
  | cut host last front behind queue request stopped =>
    obtain ⟨serves, sound, valid, known, -⟩ := crew.member before.valid
    obtain ⟨apart, live⟩ := crew.apart
    have left := (Queue.meets_request request serves sound valid).cut stopped
    have idle : ∀ other, other ≠ queue.token →
        Happening.drawn other (.cut queue.token request) = 0 :=
      fun other different => if_neg different.symm
    exact crew.watch stopped.later_host (left.follows serves valid) (fun _ => mem_of_mem_others)
      live (fun other mem => idle _ (apart other mem))
      (fun other new => idle other fun same => new (same ▸ known))

end Fleet
end DiskQueue
