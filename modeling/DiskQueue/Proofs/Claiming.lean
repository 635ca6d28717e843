/-
Module: DiskQueue.Proofs.Claiming
Purpose: The claimed names are those of the live claims, however records are claimed and
  claims dropped.
Trusted boundary: none
Main exports:
  Candidates.Claims, Candidates.claims_take, Lending, Lending.Move, Lending.run,
  Lending.Matched, Lending.Exclusive, Lending.exclusive_run
-/
import DiskQueue.Proofs.Taking
import Mathlib.Data.List.InsertIdx
import Mathlib.Data.List.Nodup

namespace DiskQueue

/-!
A claim lives until it is dropped, and its file stays where it is in the meantime: the
next list of the directory has it again, and so may the list of another directory. What
keeps a record from being claimed twice is only the list of claimed names, which grows
with every claim and shrinks with every claim that is dropped.
-/

namespace Candidates

variable {candidates : Candidates} {base : Name}

/-- What a call for the next claim does to the names that are claimed. -/
inductive Claims (candidates : Candidates) : Except IoError (Option Claim) × Candidates → Prop
  | failed (e : IoError) : Claims candidates (.error e, candidates)
  | nothing (after : Candidates) (same : after.claimed = candidates.claimed) :
      Claims candidates (.ok none, after)
  | claimed (claim : Claim) (after : Candidates) (free : claim.base ∉ candidates.claimed)
      (more : after.claimed = claim.base :: candidates.claimed) :
      Claims candidates (.ok (some claim), after)

theorem Claims.of_eq {refilled : Candidates} {outcome : Except IoError (Option Claim) × Candidates}
    (same : refilled.claimed = candidates.claimed)
    (notFailed : ∀ e, outcome.1 ≠ .error e) (h : refilled.Claims outcome) :
    candidates.Claims outcome := by
  cases h with
  | failed e => exact absurd rfl (notFailed e)
  | nothing after unchanged => exact .nothing after (unchanged.trans same)
  | claimed claim after free more =>
    rw [same] at free more
    exact .claimed claim after free more

/-- A name becomes a claim only if it is not claimed. -/
theorem claims_next (candidates : Candidates) :
    candidates.Claims (.ok candidates.next.1, candidates.next.2) := by
  have tried := candidates.tried_next
  generalize candidates.next = outcome at tried ⊢
  cases tried with
  | nothing empty => exact .nothing _ rfl
  | dropped path rest batch why => exact .nothing _ rfl
  | claimed path rest base batch name free =>
    exact .claimed _ _ (by simpa [isClaimed] using free) rfl

/-- The first name is claimed without a look at the files. -/
theorem run_pop (candidates : Candidates) (host : Host) :
    (candidates.pop.run host).1 = candidates.next := by
  have popped : Program.Meets (fun _ => True) _ candidates.pop host := meets_pop candidates trivial
  exact popped.run.2

/-- A new batch is made of the paths that are found. -/
theorem refill_eq_ok {directory : Path} {host : Host} {refilled : Candidates}
    (h : ((candidates.refill directory).run host).1 = .ok refilled) :
    ∃ paths, ((Stored.paths directory FileNames.committed).run host).1 = .ok paths ∧
      refilled = { candidates with
        batch := batchOf candidates.limit candidates.order paths } := by
  cases found : ((Stored.paths directory FileNames.committed).run host).1 with
  | error e =>
    rw [refill, Program.run_andThen, found] at h
    cases h
  | ok paths =>
    rw [run_refill candidates found] at h
    cases h
    exact ⟨paths, rfl, rfl⟩

/-- The first name is claimed, of a new batch if there is none left of the old one. -/
theorem run_take (candidates : Candidates) (directory : Path) (host : Host) :
    ((candidates.take directory).run host).1 =
      if candidates.batch = [] then
        match ((candidates.refill directory).run host).1 with
        | .error e => (.error e, candidates)
        | .ok refilled => (.ok refilled.next.1, refilled.next.2)
      else (.ok candidates.next.1, candidates.next.2) := by
  have popped : ∀ (candidates : Candidates) (host : Host),
      ((candidates.pop >>= fun outcome => pure (.ok outcome.1, outcome.2) :
        Program (Except IoError (Option Claim) × Candidates)).run host).1
        = (.ok candidates.next.1, candidates.next.2) := by
    intro candidates host
    rw [Program.run_andThen, run_pop]
    rfl
  unfold take
  split
  · rw [Program.run_andThen]
    cases ((candidates.refill directory).run host).1 with
    | error e => rfl
    | ok refilled => exact popped refilled _
  · exact popped candidates host

/-- A new batch claims nothing, whatever directory it is listed from. -/
theorem claimed_refill {directory : Path} {host : Host} {refilled : Candidates}
    (h : ((candidates.refill directory).run host).1 = .ok refilled) :
    refilled.claimed = candidates.claimed := by
  obtain ⟨paths, -, rfl⟩ := refill_eq_ok h
  rfl

/-- Claiming is mutually exclusive on every host and for every directory. -/
theorem claims_take (candidates : Candidates) (directory : Path) (host : Host) :
    candidates.Claims ((candidates.take directory).run host).1 := by
  rw [run_take]
  split
  · cases refilling : ((candidates.refill directory).run host).1 with
    | error e => exact .failed e
    | ok refilled => exact (claims_next refilled).of_eq (claimed_refill refilling) (by simp)
  · exact claims_next candidates

end Candidates

/-! ### Claims that are live -/

/-- Candidates and the claims on them that are live, the newest first. -/
structure Lending where
  candidates : Candidates
  live : List Claim

namespace Lending

/-- A record is claimed, from whatever host and directory, or the claim at a position is
dropped. -/
inductive Move where
  | take (host : Host) (directory : Path)
  | drop (position : Nat)

/-- Nothing is claimed. -/
def start (size : UInt64) (order : RefillOrder) : Lending := ⟨Candidates.start size order, []⟩

/-- A claim that is taken is live, and one that is dropped gives its name back. -/
def step (lending : Lending) : Move → Lending
  | .take host directory =>
    match ((lending.candidates.take directory).run host).1 with
    | (.ok (some claim), after) => ⟨after, claim :: lending.live⟩
    | (_, after) => ⟨after, lending.live⟩
  | .drop position =>
    match lending.live[position]? with
    | some claim => ⟨lending.candidates.release claim.base, lending.live.eraseIdx position⟩
    | none => lending

/-- One move after another. -/
def run (lending : Lending) (moves : List Move) : Lending := moves.foldl step lending

/-- Each live claim has a claimed name of its own. -/
structure Matched (lending : Lending) : Prop where
  claimed : lending.candidates.claimed = lending.live.map Claim.base
  apart : lending.candidates.claimed.Nodup

variable {lending : Lending} {claim : Claim} {position : Nat}

theorem step_drop (found : lending.live[position]? = some claim) :
    lending.step (.drop position)
      = ⟨lending.candidates.release claim.base, lending.live.eraseIdx position⟩ := by
  simp only [step, found]

theorem matched_start (size : UInt64) (order : RefillOrder) : (start size order).Matched :=
  ⟨rfl, List.nodup_nil⟩

theorem Matched.take (h : lending.Matched) (host : Host) (directory : Path) :
    (lending.step (.take host directory)).Matched := by
  have claims := Candidates.claims_take lending.candidates directory host
  rw [step]
  generalize ((lending.candidates.take directory).run host).1 = outcome at claims ⊢
  cases claims with
  | failed e => exact h
  | nothing after same => exact ⟨same.trans h.claimed, same ▸ h.apart⟩
  | claimed claim after free more =>
    constructor
    · rw [more, h.claimed, List.map_cons]
    · rw [more]
      exact List.nodup_cons.mpr ⟨free, h.apart⟩

/-- The name of a claim is given back by its own drop, since no other claim has it. -/
theorem Matched.drop (h : lending.Matched) (position : Nat) :
    (lending.step (.drop position)).Matched := by
  cases found : lending.live[position]? with
  | none =>
    simp only [step, found]
    exact h
  | some claim =>
    obtain ⟨bound, rfl⟩ := List.getElem?_eq_some_iff.mp found
    have inside : position < (lending.live.map Claim.base).length := by rwa [List.length_map]
    have names := h.apart
    rw [h.claimed] at names
    rw [step_drop found]
    constructor
    · calc lending.candidates.claimed.filter (fun other => other ≠ lending.live[position].base)
          = lending.candidates.claimed.erase lending.live[position].base := by
            rw [h.apart.erase_eq_filter]
            exact List.filter_congr fun other _ => by rw [Bool.eq_iff_iff]; simp
        _ = (lending.live.map Claim.base).erase (lending.live.map Claim.base)[position] := by
            rw [h.claimed, List.getElem_map]
        _ = (lending.live.eraseIdx position).map Claim.base := by
            rw [List.Nodup.erase_getElem names position inside, List.eraseIdx_map]
    · exact h.apart.filter _

theorem Matched.step (h : lending.Matched) (move : Move) : (lending.step move).Matched := by
  cases move with
  | take host directory => exact h.take host directory
  | drop position => exact h.drop position

theorem Matched.run (h : lending.Matched) (moves : List Move) : (lending.run moves).Matched := by
  induction moves generalizing lending with
  | nil => exact h
  | cons move moves ih => exact ih (h.step move)

/-- What mutual exclusion comes to: the claimed names are those of the live claims, each
is claimed once, and a claim that is dropped frees its own name and nothing else. -/
structure Exclusive (lending : Lending) : Prop where
  claimed : ∀ base, base ∈ lending.candidates.claimed ↔ ∃ claim ∈ lending.live, claim.base = base
  apart : (lending.live.map Claim.base).Nodup
  count : lending.candidates.claimed.length = lending.live.length
  held : ∀ base,
    lending.candidates.isClaimed base = true ↔ ∃ claim ∈ lending.live, claim.base = base
  freed : ∀ position claim, lending.live[position]? = some claim →
    (lending.step (.drop position)).candidates.isClaimed claim.base = false
  kept : ∀ position other claim, other ≠ position → lending.live[other]? = some claim →
    claim ∈ (lending.step (.drop position)).live ∧
      (lending.step (.drop position)).candidates.isClaimed claim.base = true

theorem Matched.mem_claimed (h : lending.Matched) (base : Name) :
    base ∈ lending.candidates.claimed ↔ ∃ claim ∈ lending.live, claim.base = base := by
  rw [h.claimed, List.mem_map]

theorem Matched.isClaimed_iff (h : lending.Matched) (base : Name) :
    lending.candidates.isClaimed base = true ↔ ∃ claim ∈ lending.live, claim.base = base := by
  rw [← h.mem_claimed, Candidates.isClaimed, List.contains_iff_mem]

/-- A claim that is not dropped is still there. -/
theorem mem_live_drop {other : Nat} (different : other ≠ position)
    (there : lending.live[other]? = some claim) :
    claim ∈ (lending.step (.drop position)).live := by
  cases found : lending.live[position]? with
  | none =>
    simp only [step, found]
    exact List.mem_of_getElem? there
  | some dropped =>
    rw [step_drop found]
    exact List.mem_eraseIdx_iff_getElem?.mpr ⟨other, different, there⟩

theorem Matched.exclusive (h : lending.Matched) : lending.Exclusive where
  claimed := h.mem_claimed
  apart := by
    rw [← h.claimed]
    exact h.apart
  count := by rw [h.claimed, List.length_map]
  held := h.isClaimed_iff
  freed := by
    intro position claim found
    rw [step_drop found, Candidates.isClaimed_release]
    simp
  kept := by
    intro position other claim different there
    have live := mem_live_drop different there
    exact ⟨live, ((h.drop position).isClaimed_iff claim.base).mpr ⟨claim, live, rfl⟩⟩

/-- Claims are mutually exclusive in every run of claims, failures and drops. -/
theorem exclusive_run (size : UInt64) (order : RefillOrder) (moves : List Move) :
    ((start size order).run moves).Exclusive :=
  ((matched_start size order).run moves).exclusive

end Lending
end DiskQueue
