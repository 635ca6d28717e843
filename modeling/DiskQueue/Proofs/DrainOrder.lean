/-
Module: DiskQueue.Proofs.DrainOrder
Purpose: The order in which the names of a folder are claimed, batch after batch.
Trusted boundary: none
Main exports:
  Candidates.retained, Candidates.deferred, Candidates.arranged, Candidates.arranged_eq,
  Candidates.perm_arranged, Candidates.holding, Candidates.refreshed_holding_nil,
  Candidates.next_holding
-/
import DiskQueue.Proofs.Taking
import Mathlib.Data.List.Nodup

namespace DiskQueue

open FileNames (asCommitted)

/-!
Both kinds of batches are taken from the least name to the greatest. Where the lowest names
are retained the batches simply follow one another. Where the highest names are retained the
first batch is the end of the ascending names, the second what stands before it, and so on:
the descending names are cut into pieces, and each piece is turned round.
-/

/-! ### Pieces of one size -/

theorem toChunks_cons {α : Type} {limit : Nat} (positive : 0 < limit) (a : α) (rest : List α) :
    (a :: rest).toChunks limit = List.toChunks.go limit rest #[a] #[] := by
  obtain ⟨size, rfl⟩ := Nat.exists_eq_succ_of_ne_zero (Nat.pos_iff_ne_zero.mp positive)
  rw [List.toChunks]
  simp

/-- The loop that cuts a list fills up its piece and goes on with the next one. -/
theorem toChunks_go_eq {α : Type} {limit : Nat} (positive : 0 < limit) (rest : List α)
    (piece : Array α) (done : Array (List α)) (size : piece.size ≤ limit) :
    List.toChunks.go limit rest piece done
      = done.toList ++ (piece.toList ++ rest.take (limit - piece.size))
        :: (rest.drop (limit - piece.size)).toChunks limit := by
  induction rest generalizing piece done with
  | nil => simp [List.toChunks.go, List.toChunks]
  | cons a rest ih =>
    rw [List.toChunks.go]
    by_cases full : piece.size = limit
    · have next := fun done => ih #[a] done positive
      rw [if_pos (beq_iff_eq.mpr full), full, Nat.sub_self, List.take_zero, List.drop_zero,
        toChunks_cons positive]
      simp [next]
    · have room : limit - piece.size = (limit - (piece.push a).size) + 1 := by
        rw [Array.size_push]
        omega
      rw [if_neg (by simpa using full), ih _ _ (by rw [Array.size_push]; omega), room,
        List.take_succ_cons, List.drop_succ_cons, Array.toList_push, List.append_assoc]
      rfl

/-- A list is cut into its first piece and the pieces of the rest. -/
theorem toChunks_eq {α : Type} {limit : Nat} (positive : 0 < limit) {whole : List α}
    (nonempty : whole ≠ []) :
    whole.toChunks limit = whole.take limit :: (whole.drop limit).toChunks limit := by
  obtain ⟨a, rest, rfl⟩ := List.exists_cons_of_ne_nil nonempty
  obtain ⟨size, rfl⟩ := Nat.exists_eq_succ_of_ne_zero (Nat.pos_iff_ne_zero.mp positive)
  have cut := toChunks_go_eq positive rest #[a] #[] (by simp)
  rw [toChunks_cons positive, cut]
  simp

namespace Candidates

variable {folder : Key} {directory : Path} {tree : FileTree} {size : UInt64} {limit : Nat}
  {order : RefillOrder} {base : Name} {names : List Name}

/-! ### Batch after batch -/

/-- The names that a batch is made of, where ascending names are found. -/
def retained (limit : Nat) (order : RefillOrder) (names : List Name) : List Name :=
  match order with
  | .highestNames => names.drop (names.length - limit)
  | .lowestNames => names.take limit

/-- The names that are left for later batches. -/
def deferred (limit : Nat) (order : RefillOrder) (names : List Name) : List Name :=
  match order with
  | .highestNames => names.take (names.length - limit)
  | .lowestNames => names.drop limit

/-- The order in which ascending names are claimed. With the highest names retained, the
descending names are cut into pieces of a batch each, and each piece is claimed in ascending
order. -/
def arranged (limit : Nat) (order : RefillOrder) (names : List Name) : List Name :=
  match order with
  | .highestNames => ((names.reverse.toChunks limit).map List.reverse).flatten
  | .lowestNames => names

@[simp] theorem arranged_nil (limit : Nat) (order : RefillOrder) :
    arranged limit order [] = [] := by
  cases order <;> simp [arranged, List.toChunks]

theorem perm_retained_deferred (limit : Nat) (order : RefillOrder) (names : List Name) :
    (retained limit order names ++ deferred limit order names).Perm names := by
  cases order with
  | highestNames =>
    have whole := List.take_append_drop (names.length - limit) names
    exact List.perm_append_comm.trans (.of_eq whole)
  | lowestNames => exact .of_eq (List.take_append_drop limit names)

theorem retained_sublist (limit : Nat) (order : RefillOrder) (names : List Name) :
    (retained limit order names).Sublist names := by
  cases order with
  | highestNames => exact List.drop_sublist _ _
  | lowestNames => exact List.take_sublist _ _

theorem deferred_sublist (limit : Nat) (order : RefillOrder) (names : List Name) :
    (deferred limit order names).Sublist names := by
  cases order with
  | highestNames => exact List.take_sublist _ _
  | lowestNames => exact List.drop_sublist _ _

/-- A batch is empty only if there is nothing to be taken. -/
theorem retained_ne_nil (positive : 0 < limit) (nonempty : names ≠ []) :
    retained limit order names ≠ [] := by
  cases order with
  | highestNames =>
    have some := List.length_pos_iff.mpr nonempty
    rw [retained, ne_eq, List.drop_eq_nil_iff]
    omega
  | lowestNames =>
    rw [retained, ne_eq, List.take_eq_nil_iff]
    exact not_or.mpr ⟨Nat.pos_iff_ne_zero.mp positive, nonempty⟩

theorem retained_singleton (positive : 0 < limit) (order : RefillOrder) (name : Name) :
    retained limit order [name] = [name] := by
  obtain ⟨more, rfl⟩ := Nat.exists_eq_succ_of_ne_zero (Nat.pos_iff_ne_zero.mp positive)
  cases order <;> simp [retained]

/-- A batch is claimed first, and then what it has left. -/
theorem arranged_eq (positive : 0 < limit) (names : List Name) :
    arranged limit order names
      = retained limit order names ++ arranged limit order (deferred limit order names) := by
  cases order with
  | highestNames =>
    by_cases empty : names = []
    · subst empty
      simp [retained, deferred]
    · have nonempty : names.reverse ≠ [] := by simpa using empty
      simp only [arranged, retained, deferred]
      rw [toChunks_eq positive nonempty, List.take_reverse, List.drop_reverse, List.map_cons,
        List.reverse_reverse, List.flatten_cons]
  | lowestNames => exact (List.take_append_drop limit names).symm

/-- Every name is claimed, and none twice. -/
theorem perm_arranged (positive : 0 < limit) (names : List Name) :
    (arranged limit order names).Perm names := by
  induction length : names.length using Nat.strong_induction_on generalizing names with
  | _ count ih =>
    by_cases empty : names = []
    · rw [empty, arranged_nil]
    · have whole := perm_retained_deferred limit order names
      have shorter : (deferred limit order names).length < count := by
        have some : 0 < (retained limit order names).length :=
          List.length_pos_iff.mpr (retained_ne_nil positive empty)
        have total := whole.length_eq
        rw [List.length_append] at total
        omega
      rw [arranged_eq positive]
      exact ((ih _ shorter _ rfl).append_left _).trans whole

/-- Five names, two of them a batch. -/
example : arranged 2 .highestNames [[1], [2], [3], [4], [5]] = [[4], [5], [2], [3], [1]] := by
  decide

/-! ### Candidates that hold names -/

/-- Candidates with the paths of names as their batch and no claims. -/
def holding (size : UInt64) (order : RefillOrder) (directory : Path) (names : List Name) :
    Candidates :=
  { start size order with batch := names.map directory.join }

/-- The batch of paths is that of their names. -/
theorem batchOf_eq {paths : List Path}
    (inOrder : Candidates.sorted paths = names.map directory.join) :
    batchOf limit order paths = (retained limit order names).map directory.join := by
  have length : paths.length = names.length := by
    have same := congrArg List.length inOrder
    rwa [Candidates.sorted, List.length_mergeSort, List.length_map] at same
  cases order with
  | highestNames => rw [batchOf, inOrder, length, retained, List.map_drop]
  | lowestNames => rw [batchOf, inOrder, retained, List.map_take]

/-- A batch is made of the names that it keeps, whatever order the files were found in. -/
theorem run_refill_of_perm (candidates : Candidates) {host : Host} {paths : List Path}
    (found : ((Stored.paths directory FileNames.committed).run host).1 = .ok paths)
    (perm : paths.Perm (names.map directory.join))
    (ascending : (names.map directory.join).Pairwise (· < ·)) :
    (candidates.refill directory).run host
      = (.ok { candidates with
          batch := (retained candidates.limit candidates.order names).map directory.join },
        ((candidates.refill directory).run host).2) := by
  rw [← batchOf_eq (sorted_eq perm ascending)]
  exact run_refill candidates found

/-- Names that are distinct can be put in order. -/
theorem exists_ascending (distinct : names.Nodup) :
    ∃ ordered : List Name, ordered.Perm names ∧ ordered.Pairwise (· < ·) := by
  refine ⟨Candidates.sorted names, List.mergeSort_perm _ _, ?_⟩
  have apart : (Candidates.sorted names).Nodup := (List.mergeSort_perm _ _).nodup_iff.mpr distinct
  refine ((pairwise_sorted names).and apart).imp ?_
  rintro a b ⟨atMost, different⟩
  by_contra notLower
  exact different (List.le_antisymm atMost (List.not_lt.mp notLower))

/-- A batch that is empty is made of the names that are there. -/
theorem refreshed_holding_nil (wf : tree.WellFormed)
    (perm : names.Perm (Stored.listed tree folder FileNames.committed))
    (ascending : names.Pairwise (· < ·)) :
    (holding size order directory []).refreshed tree folder directory
      = holding size order directory (retained (max size.toNat 1) order names) := by
  rw [refreshed, if_pos (by rfl), batchOf_eq (sorted_listed wf perm ascending)]
  rfl

/-- A batch with names in it is kept. -/
theorem refreshed_holding_of_ne_nil (nonempty : names ≠ []) :
    (holding size order directory names).refreshed tree folder directory
      = holding size order directory names := by
  rw [refreshed, if_neg (by simpa [holding] using nonempty)]

/-- The first name of a batch is claimed, unless it is no text. -/
theorem next_holding (nonempty : base ≠ []) (slash : Path.slash ∉ base) :
    (holding size order directory (asCommitted base :: names)).next
      = if Utf8.isText base then
          (some ⟨FileNames.committedPath directory base, base⟩,
            { holding size order directory names with claimed := [base] })
        else (none, holding size order directory names) := by
  have name := FileNames.baseName?_join_eq directory nonempty slash
    FileNames.committed_mem_extensions
  by_cases text : Utf8.isText base
  · rw [if_pos text] at name
    simp only [next, holding, List.map_cons, name, if_pos text]
    rfl
  · rw [if_neg text] at name
    simp only [next, holding, List.map_cons, name, if_neg text]

/-- A claim that is given back leaves the other names. -/
theorem release_holding (base : Name) :
    { holding size order directory names with claimed := [base] }.release base
      = holding size order directory names := by
  simp [release, holding, start]

end Candidates
end DiskQueue
