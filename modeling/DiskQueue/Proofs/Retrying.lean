/-
Module: DiskQueue.Proofs.Retrying
Purpose: Under a policy an operation is called until it succeeds, and never more often than the
  policy allows.
Trusted boundary: none
Main exports:
  RetryPolicy.onFrom_eq, RetryPolicy.Act, RetryPolicy.rehearse, RetryPolicy.MadeFor,
  RetryPolicy.called_in_turn
-/
import DiskQueue.RetryPolicy
import Mathlib.Order.Bounds.Basic

namespace DiskQueue.RetryPolicy

/-!
A policy learns nothing of an operation but how each of its calls ends. So an operation is told
by the outcomes of its calls, in order, and a rehearsal of a run keeps account of the calls with
their numbers and of the waits between them.

The number of an attempt is a word that is counted up. It is compared with the greatest number
that is allowed before it is counted up, so it never goes beyond that one and never wraps around.
-/

/-! ### The loop -/

section Loop

variable {m : Type → Type} [Monad m] {ε α : Type} (policy : RetryPolicy)
  (between : UInt32 → ε → m Unit) (operation : UInt32 → m (Except ε α))

/-- The attempts from a number on, up to the greatest one that the policy allows. -/
def onFrom (number : UInt32) : m (Except (Exhausted ε) α) :=
  runFrom between operation (policy.limit - number.toNat) number

/-- A run starts with the first attempt. -/
theorem run_eq_onFrom : policy.run between operation = policy.onFrom between operation 1 := rfl

theorem toNat_max_one (attempts : UInt32) : (max attempts 1).toNat = max attempts.toNat 1 := by
  show (if attempts ≤ 1 then 1 else attempts).toNat = _
  split <;> rename_i h <;> simp only [UInt32.le_iff_toNat_le, UInt32.toNat_one] at h ⊢ <;> omega

theorem limit_lt (policy : RetryPolicy) : policy.limit < UInt32.size := by
  have word := policy.attempts.toNat_lt
  unfold limit UInt32.size
  omega

variable {policy} in
/-- A number below the greatest one can be counted up. -/
theorem toNat_succ {number : UInt32} (below : number.toNat < policy.limit) :
    (number + 1).toNat = number.toNat + 1 := by
  have fits := policy.limit_lt
  unfold UInt32.size at fits
  rw [UInt32.toNat_add, UInt32.toNat_one]
  omega

/-- The greatest number as a word. -/
theorem max_one_le_iff (policy : RetryPolicy) (number : UInt32) :
    max policy.attempts 1 ≤ number ↔ policy.limit ≤ number.toNat := by
  rw [UInt32.le_iff_toNat_le, toNat_max_one]
  exact Iff.rfl

variable {policy} in
/-- The attempts are a loop that compares their number with the greatest one, and counts it up if
it is smaller. -/
theorem onFrom_eq {number : UInt32} (within : number.toNat ≤ policy.limit) :
    policy.onFrom between operation number = (do
      match ← operation number with
      | .ok value => pure (.ok value)
      | .error e =>
        if max policy.attempts 1 ≤ number then pure (.error ⟨number, e⟩)
        else do
          between number e
          policy.onFrom between operation (number + 1)) := by
  simp only [max_one_le_iff]
  unfold onFrom
  cases left : policy.limit - number.toNat with
  | zero =>
    have reached : policy.limit ≤ number.toNat := by omega
    simp only [if_pos reached]
    rfl
  | succ more =>
    have below : number.toNat < policy.limit := by omega
    have rest : policy.limit - (number.toNat + 1) = more := by omega
    simp only [if_neg (Nat.not_le.mpr below), toNat_succ below, rest]
    rfl

end Loop

/-! ### Rehearsals -/

variable {ε α : Type}

/-- What happens under a policy: the operation is called with a number, or there is a wait, as the
call with a number has failed. -/
inductive Act (ε : Type) where
  | call (number : UInt32)
  | wait (number : UInt32) (failure : ε)
deriving Repr, DecidableEq

/-- The number of a call. -/
def Act.number? : Act ε → Option UInt32
  | .call number => some number
  | .wait _ _ => none

/-- The numbers with which an operation has been called. -/
def numbers (acts : List (Act ε)) : List UInt32 := acts.filterMap Act.number?

/-- The operation whose calls end as they are told to, counted from one. It counts its calls by
itself and does not go by their numbers. -/
def scripted (outcomes : Nat → Except ε α) (number : UInt32) :
    StateM (List (Act ε)) (Except ε α) :=
  fun acts => (outcomes ((numbers acts).length + 1), acts ++ [.call number])

/-- A wait, kept account of. -/
def waiting (number : UInt32) (failure : ε) : StateM (List (Act ε)) Unit :=
  fun acts => ((), acts ++ [.wait number failure])

/-- The result of a run whose calls end as they are told to, and what has happened. -/
def rehearse (policy : RetryPolicy) (outcomes : Nat → Except ε α) :
    Except (Exhausted ε) α × List (Act ε) :=
  policy.run waiting (scripted outcomes) []

/-- What happens at an attempt that is followed by another one. -/
def retried (outcomes : Nat → Except ε α) (n : Nat) : List (Act ε) :=
  match outcomes n with
  | .ok _ => []
  | .error e => [.call (.ofNat n), .wait (.ofNat n) e]

/-- What happens from an attempt on, if there are so many more. -/
def course (outcomes : Nat → Except ε α) (first more : Nat) : List (Act ε) :=
  (List.range' first more).flatMap (retried outcomes) ++ [.call (.ofNat (first + more))]

theorem course_succ {outcomes : Nat → Except ε α} {first : Nat} {e : ε}
    (failed : outcomes first = .error e) (more : Nat) :
    course outcomes first (more + 1)
      = .call (.ofNat first) :: .wait (.ofNat first) e :: course outcomes (first + 1) more := by
  have next : first + (more + 1) = first + 1 + more := by omega
  simp [course, List.range'_succ, retried, failed, next]

/-- If all attempts but the last one fail, the calls are those with all numbers up to its own. -/
theorem numbers_course {outcomes : Nat → Except ε α} {first more : Nat}
    (failed : ∀ n, first ≤ n → n < first + more → ∃ e, outcomes n = .error e) :
    numbers (course outcomes first more)
      = (List.range' first (more + 1)).map UInt32.ofNat := by
  induction more generalizing first with
  | zero => rfl
  | succ more ih =>
    obtain ⟨e, here⟩ := failed first (Nat.le_refl _) (by omega)
    have rest : numbers (course outcomes (first + 1) more) = _ :=
      ih fun n low high => failed n (by omega) (by omega)
    rw [course_succ here, List.range'_succ, List.map_cons, ← rest]
    rfl

/-! ### Runs -/

variable {policy : RetryPolicy} {outcomes : Nat → Except ε α} {number : UInt32}
  {acts : List (Act ε)}

/-- Whether no attempt follows an attempt: it is the last one, or it succeeds. -/
def IsFinal (policy : RetryPolicy) (outcomes : Nat → Except ε α) (n : Nat) : Prop :=
  n = policy.limit ∨ ∃ value, outcomes n = .ok value

theorem IsFinal.eq_limit {n : Nat} {e : ε} (final : IsFinal policy outcomes n)
    (failed : outcomes n = .error e) : n = policy.limit := by
  rcases final with last | ⟨value, success⟩
  · exact last
  · cases failed.symm.trans success

/-- A run ends with an attempt that is final, and with what that one comes to. -/
theorem onFrom_of_isFinal (within : number.toNat ≤ policy.limit)
    (counted : (numbers acts).length + 1 = number.toNat)
    (final : IsFinal policy outcomes number.toNat) :
    policy.onFrom waiting (scripted outcomes) number acts
      = ((outcomes number.toNat).mapError fun e => ⟨number, e⟩, acts ++ [.call number]) := by
  rw [onFrom_eq waiting (scripted outcomes) within]
  simp only [bind, StateT.bind, scripted, counted]
  cases ended : outcomes number.toNat with
  | ok value => rfl
  | error e =>
    have reached := (max_one_le_iff policy number).mpr (final.eq_limit ended).ge
    simp only [if_pos reached]
    rfl

/-- A run goes on after an attempt that is not final. -/
theorem onFrom_of_error {e : ε} (below : number.toNat < policy.limit)
    (counted : (numbers acts).length + 1 = number.toNat)
    (failed : outcomes number.toNat = .error e) :
    policy.onFrom waiting (scripted outcomes) number acts
      = policy.onFrom waiting (scripted outcomes) (number + 1)
          (acts ++ [.call number] ++ [.wait number e]) := by
  rw [onFrom_eq waiting (scripted outcomes) below.le]
  have early : ¬ max policy.attempts 1 ≤ number :=
    fun reached => Nat.not_le.mpr below ((max_one_le_iff policy number).mp reached)
  simp only [bind, StateT.bind, scripted, counted, failed, if_neg early]
  rfl

/-- What a run from an attempt on comes to: the last attempt is the first one that is final, all
before it fail and are followed by a wait, and the result is that of the last one. -/
def EndsFrom (policy : RetryPolicy) (outcomes : Nat → Except ε α) (first : Nat)
    (acts : List (Act ε)) (ended : Except (Exhausted ε) α × List (Act ε)) : Prop :=
  ∃ more, IsLeast {n | first ≤ n ∧ IsFinal policy outcomes n} (first + more) ∧
    ended = ((outcomes (first + more)).mapError fun e => ⟨.ofNat (first + more), e⟩,
      acts ++ course outcomes first more)

theorem endsFrom_of_isFinal (within : number.toNat ≤ policy.limit)
    (counted : (numbers acts).length + 1 = number.toNat)
    (final : IsFinal policy outcomes number.toNat) :
    EndsFrom policy outcomes number.toNat acts
      (policy.onFrom waiting (scripted outcomes) number acts) := by
  refine ⟨0, ⟨⟨Nat.le_refl _, final⟩, fun _ later => later.1⟩, ?_⟩
  rw [onFrom_of_isFinal within counted final]
  simp [course]

/-- An attempt that fails comes before the rest of a run. -/
theorem EndsFrom.of_error {first : Nat} {e : ε} {ended : Except (Exhausted ε) α × List (Act ε)}
    (below : first < policy.limit) (failed : outcomes first = .error e)
    (rest : EndsFrom policy outcomes (first + 1)
      (acts ++ [.call (.ofNat first)] ++ [.wait (.ofNat first) e]) ended) :
    EndsFrom policy outcomes first acts ended := by
  obtain ⟨more, ⟨⟨low, final⟩, least⟩, rfl⟩ := rest
  have next : first + (more + 1) = first + 1 + more := by omega
  refine ⟨more + 1, ⟨⟨by omega, next ▸ final⟩, ?_⟩, ?_⟩
  · rintro n ⟨later, last⟩
    rcases Nat.eq_or_lt_of_le later with rfl | later
    · exact absurd (last.eq_limit failed) below.ne
    · exact next ▸ least ⟨later, last⟩
  · rw [course_succ failed, next]
    simp

/-- The induction is on the attempts that are left; the calls made so far tell the number. -/
theorem endsFrom_onFrom (policy : RetryPolicy) (outcomes : Nat → Except ε α) {more : Nat}
    (left : number.toNat + more = policy.limit)
    (counted : (numbers acts).length + 1 = number.toNat) :
    EndsFrom policy outcomes number.toNat acts
      (policy.onFrom waiting (scripted outcomes) number acts) := by
  induction more generalizing number acts with
  | zero => exact endsFrom_of_isFinal (by omega) counted (.inl left)
  | succ more ih =>
    have below : number.toNat < policy.limit := by omega
    cases ended : outcomes number.toNat with
    | ok value => exact endsFrom_of_isFinal below.le counted (.inr ⟨value, ended⟩)
    | error e =>
      rw [onFrom_of_error below counted ended]
      have next := toNat_succ below
      have rest : EndsFrom policy outcomes (number + 1).toNat
          (acts ++ [.call number] ++ [.wait number e]) _ :=
        ih (by omega) (by simp [numbers, Act.number?, ← counted, next])
      rw [next] at rest
      exact .of_error below ended (by rwa [UInt32.ofNat_toNat])

/-- The ways to make a policy for a number of attempts. -/
inductive MadeFor (attempts : UInt32) : RetryPolicy → Prop
  | fields (pauseMs : UInt64) : MadeFor attempts ⟨attempts, pauseMs⟩
  | limited (pauseMs : UInt64) : MadeFor attempts (limited attempts pauseMs)
  | immediate : MadeFor attempts (immediate attempts)

theorem MadeFor.limit_eq {attempts : UInt32} (made : MadeFor attempts policy) :
    policy.limit = (max attempts 1).toNat := by
  have again : (max (max attempts 1) 1).toNat = (max attempts 1).toNat := by
    simp only [toNat_max_one]
    omega
  cases made with
  | fields => exact (toNat_max_one attempts).symm
  | limited | immediate => exact (toNat_max_one _).symm.trans again

/-- An operation is called with the numbers from one on, and the last call is the first one that
succeeds, or the last one that is allowed. The result is the success, or else the last failure with
the number of all calls that are allowed, which is never zero. There is one wait between two calls
and none behind the last one. -/
theorem called_in_turn {attempts : UInt32} (made : MadeFor attempts policy)
    (outcomes : Nat → Except ε α) :
    ∃ count,
      IsLeast {n | 1 ≤ n ∧ (n = (max attempts 1).toNat ∨ ∃ value, outcomes n = .ok value)} count ∧
      (numbers (policy.rehearse outcomes).2).map UInt32.toNat = List.range' 1 count ∧
      (policy.rehearse outcomes).1 = (outcomes count).mapError (fun e => ⟨max attempts 1, e⟩) ∧
      (policy.rehearse outcomes).2 = course outcomes 1 (count - 1) := by
  have positive : 1 ≤ policy.limit := Nat.le_max_right _ _
  have left : (1 : UInt32).toNat + (policy.limit - 1) = policy.limit :=
    Nat.add_sub_cancel' positive
  have ends : EndsFrom policy outcomes 1 [] (policy.rehearse outcomes) := by
    rw [rehearse, run_eq_onFrom]
    exact endsFrom_onFrom policy outcomes left rfl
  obtain ⟨more, ⟨⟨first, final⟩, least⟩, ended⟩ := ends
  have within : 1 + more ≤ policy.limit := least ⟨positive, .inl rfl⟩
  have failed : ∀ n, 1 ≤ n → n < 1 + more → ∃ e, outcomes n = .error e := by
    intro n low high
    cases ended : outcomes n with
    | ok value => exact absurd (least ⟨low, .inr ⟨value, ended⟩⟩) (Nat.not_le.mpr high)
    | error e => exact ⟨e, rfl⟩
  rw [ended, List.nil_append]
  refine ⟨1 + more, ?_, ?_, ?_, ?_⟩
  · rw [← made.limit_eq]
    exact ⟨⟨first, final⟩, least⟩
  · rw [numbers_course failed, List.map_map, Nat.add_comm more 1]
    -- No number is too large for a word.
    have small : ∀ n ∈ List.range' 1 (1 + more), (UInt32.ofNat n).toNat = n := by
      intro n mem
      rw [List.mem_range'_1] at mem
      have allowed : n ≤ policy.limit := by omega
      exact UInt32.toNat_ofNat_of_lt (Nat.lt_of_le_of_lt allowed policy.limit_lt)
    exact (List.map_congr_left small).trans (List.map_id _)
  · cases result : outcomes (1 + more) with
    | ok value => rfl
    | error e =>
      have last : 1 + more = policy.limit := final.eq_limit result
      rw [last, made.limit_eq, UInt32.ofNat_toNat]
  · rw [Nat.add_sub_cancel_left]

/-- The greatest number of attempts is no obstacle, and the third one succeeds. -/
theorem called_in_turn_of_greatest :
    let outcomes : Nat → Except String Nat := fun n => if n = 3 then .ok 7 else .error "busy"
    let policy := immediate 0xFFFFFFFF
    MadeFor 0xFFFFFFFF policy ∧
      (numbers (policy.rehearse outcomes).2).map UInt32.toNat = [1, 2, 3] ∧
      (policy.rehearse outcomes).1 = .ok 7 ∧
      (policy.rehearse outcomes).2
        = [.call 1, .wait 1 "busy", .call 2, .wait 2 "busy", .call 3] := by
  intro outcomes policy
  have made : MadeFor 0xFFFFFFFF policy := .immediate
  obtain ⟨count, least, counted, result, happened⟩ := called_in_turn made outcomes
  have third : count = 3 := by
    apply least.unique
    refine ⟨⟨by decide, .inr ⟨7, rfl⟩⟩, ?_⟩
    rintro n ⟨-, last | ⟨value, success⟩⟩
    · rw [last]
      decide
    · by_contra below
      have other : n ≠ 3 := by omega
      simp [outcomes, other] at success
  subst third
  exact ⟨made, counted, result, happened⟩

/-- A policy that asks for no attempt still makes one. -/
example : (rehearse ⟨0, 0⟩ fun _ => (.error "gone" : Except String Unit))
    = (.error ⟨1, "gone"⟩, [.call 1]) := rfl

end DiskQueue.RetryPolicy
