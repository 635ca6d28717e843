/-
Module: DiskQueue.Proofs.RecordBytes
Purpose: How many bytes the records of a folder have together, and what storing and
  taking do to that number.
Trusted boundary: none
Main exports:
  FileTree.recordBytes, Stored.totalLength_exchange, FileTree.Quiet.recordBytes_eq,
  FileTree.Committed.recordBytes_add, FileTree.Took.recordBytes_add
-/
import DiskQueue.Proofs.Requests
import Mathlib.Algebra.BigOperators.Group.Finset.Basic
import Mathlib.Algebra.Order.BigOperators.Group.List

namespace DiskQueue

open FileNames (asCommitted asTemporary)

/-!
The number of bytes is a sum over the names that are listed, and those are others before
and after a change. So both sums are first taken over the names of both lists, where a
name that is not listed counts as empty. Then a change of one name changes one summand.
-/

namespace Stored

variable {tree before after : FileTree} {folder : Key} {extension name : Name}

theorem length_of_not_listed (has : FileNames.hasExtension name extension = true)
    (absent : name ∉ listed tree folder extension) : length tree folder name = 0 := by
  unfold length
  split
  · rename_i content modified there
    exact absurd (mem_listed.mpr ⟨has, content, modified, there⟩) absent
  · rfl

theorem length_congr
    (same : after.lookup (folder ++ [name]) = before.lookup (folder ++ [name])) :
    length after folder name = length before folder name := by
  unfold length
  rw [same]

/-- Further names with the extension add nothing. -/
theorem totalLength_eq_sum {names : Finset Name}
    (among : ∀ name ∈ listed tree folder extension, name ∈ names)
    (has : ∀ name ∈ names, FileNames.hasExtension name extension = true) :
    totalLength tree folder extension = ∑ name ∈ names, length tree folder name := by
  rw [totalLength, ← List.sum_toFinset _ (nodup_listed tree folder extension)]
  refine Finset.sum_subset (fun name mem => among name (List.mem_toFinset.mp mem)) ?_
  intro name mem absent
  exact length_of_not_listed (has name mem) fun listed => absent (List.mem_toFinset.mpr listed)

/-- A file that is listed is part of the sum. -/
theorem length_le_totalLength (mem : name ∈ listed tree folder extension) :
    length tree folder name ≤ totalLength tree folder extension :=
  List.le_sum_of_mem (List.mem_map_of_mem mem)

/-- The names that are listed before a change or after it. -/
def either (before after : FileTree) (folder : Key) (extension : Name) : Finset Name :=
  (listed before folder extension ++ listed after folder extension).toFinset

theorem mem_either : name ∈ either before after folder extension ↔
    name ∈ listed before folder extension ∨ name ∈ listed after folder extension := by
  rw [either, List.mem_toFinset, List.mem_append]

theorem hasExtension_of_mem_either (mem : name ∈ either before after folder extension) :
    FileNames.hasExtension name extension = true := by
  rcases mem_either.mp mem with listed | listed <;> exact (mem_listed.mp listed).1

/-- If no name that is listed changes, the sum is the same. -/
theorem totalLength_congr
    (same : ∀ name ∈ either before after folder extension,
      after.lookup (folder ++ [name]) = before.lookup (folder ++ [name])) :
    totalLength after folder extension = totalLength before folder extension := by
  rw [totalLength_eq_sum (fun name mem => mem_either.mpr (.inr mem))
      (fun _ => hasExtension_of_mem_either),
    totalLength_eq_sum (fun name mem => mem_either.mpr (.inl mem))
      (fun _ => hasExtension_of_mem_either)]
  exact Finset.sum_congr rfl fun name mem => length_congr (same name mem)

/-- If only one name changes, the sum changes by what that name has more or less. -/
theorem totalLength_exchange (has : FileNames.hasExtension name extension = true)
    (same : ∀ other ∈ either before after folder extension, other ≠ name →
      after.lookup (folder ++ [other]) = before.lookup (folder ++ [other])) :
    totalLength after folder extension + length before folder name
      = totalLength before folder extension + length after folder name := by
  have own := Finset.mem_insert_self name (either before after folder extension)
  have all : ∀ other ∈ insert name (either before after folder extension),
      FileNames.hasExtension other extension = true := by
    intro other mem
    rcases Finset.mem_insert.mp mem with rfl | mem
    · exact has
    · exact hasExtension_of_mem_either mem
  have rest : ∑ other ∈ (insert name (either before after folder extension)).erase name,
        length after folder other
      = ∑ other ∈ (insert name (either before after folder extension)).erase name,
        length before folder other := by
    refine Finset.sum_congr rfl fun other mem => length_congr ?_
    obtain ⟨different, mem⟩ := Finset.mem_erase.mp mem
    exact same other ((Finset.mem_insert.mp mem).resolve_left different) different
  rw [totalLength_eq_sum (fun other mem => Finset.mem_insert_of_mem (mem_either.mpr (.inr mem)))
      all,
    totalLength_eq_sum (fun other mem => Finset.mem_insert_of_mem (mem_either.mpr (.inl mem)))
      all,
    ← Finset.add_sum_erase _ _ own, ← Finset.add_sum_erase _ _ own, rest]
  omega

end Stored

namespace FileTree

variable {before after : FileTree} {folder : Key} {base : Name} {record content : Bytes}

/-- The number of bytes of all records in a folder. -/
def recordBytes (tree : FileTree) (folder : Key) : Nat :=
  Stored.totalLength tree folder FileNames.committed

theorem exists_base_of_mem_either (wf : before.WellFormed) (wf' : after.WellFormed) {name : Name}
    (mem : name ∈ Stored.either before after folder FileNames.committed) :
    ∃ base, base ≠ [] ∧ name = asCommitted base := by
  rcases Stored.mem_either.mp mem with listed | listed
  · obtain ⟨base, nonempty, -, eq, -⟩ := Stored.exists_base wf listed
    exact ⟨base, nonempty, eq⟩
  · obtain ⟨base, nonempty, -, eq, -⟩ := Stored.exists_base wf' listed
    exact ⟨base, nonempty, eq⟩

theorem length_le_recordBytes {tree : FileTree} {modified : Int} (nonempty : base ≠ [])
    (slash : Path.slash ∉ base)
    (there : tree.lookup (folder ++ [asCommitted base]) = some (.file content modified)) :
    content.length ≤ tree.recordBytes folder := by
  have has := FileNames.hasExtension_withExtension nonempty slash
    FileNames.committed_mem_extensions
  have part := Stored.length_le_totalLength (Stored.mem_listed.mpr ⟨has, content, modified, there⟩)
  rwa [Stored.length, there] at part

/-- A record that is stored adds its bytes, less those of what it replaces. -/
theorem Committed.recordBytes_add (committed : Committed folder base record before after)
    (nonempty : base ≠ []) (slash : Path.slash ∉ base) :
    after.recordBytes folder + Stored.length before folder (asCommitted base)
      = before.recordBytes folder + record.length := by
  obtain ⟨modified, sets⟩ := committed.sets
  have has := FileNames.hasExtension_withExtension nonempty slash
    FileNames.committed_mem_extensions
  have exchange := Stored.totalLength_exchange has fun other _ different =>
    sets.lookup_sibling different
  have own : Stored.length after folder (asCommitted base) = record.length := by
    rw [Stored.length, sets.lookup_self]
  rwa [own] at exchange

section Changes

variable (wf : before.WellFormed) (wf' : after.WellFormed)
include wf wf'

theorem Quiet.recordBytes_eq (quiet : Quiet folder before after) :
    after.recordBytes folder = before.recordBytes folder := by
  refine Stored.totalLength_congr fun name mem => ?_
  obtain ⟨base, -, rfl⟩ := exists_base_of_mem_either wf wf' mem
  exact quiet.lookup_committed base

/-- A record that is taken takes its bytes away. -/
theorem Took.recordBytes_add (took : Took folder base content before after)
    (nonempty : base ≠ []) (slash : Path.slash ∉ base) :
    after.recordBytes folder + content.length = before.recordBytes folder := by
  obtain ⟨modified, there⟩ := took.there
  have has := FileNames.hasExtension_withExtension nonempty slash
    FileNames.committed_mem_extensions
  have others : ∀ other ∈ Stored.either before after folder FileNames.committed,
      other ≠ asCommitted base →
      after.lookup (folder ++ [other]) = before.lookup (folder ++ [other]) := by
    intro other mem different
    obtain ⟨name, -, rfl⟩ := exists_base_of_mem_either wf wf' mem
    exact took.lookup_committed_other fun same => different (congrArg asCommitted same)
  have exchange := Stored.totalLength_exchange has others
  have own : Stored.length before folder (asCommitted base) = content.length := by
    rw [Stored.length, there]
  have gone : Stored.length after folder (asCommitted base) = 0 := by
    rw [Stored.length, took.lookup_committed]
  rwa [own, gone, Nat.add_zero] at exchange

/-- Whatever has been taken, there are not more bytes than before. -/
theorem Took.recordBytes_le (took : Took folder base content before after)
    (slash : Path.slash ∉ base) : after.recordBytes folder ≤ before.recordBytes folder := by
  by_cases nonempty : base = []
  · -- A name that is nothing but the extension is not listed.
    refine Nat.le_of_eq (Stored.totalLength_congr fun name mem => ?_)
    obtain ⟨other, named, rfl⟩ := exists_base_of_mem_either wf wf' mem
    exact took.lookup_committed_other fun same => named (same.trans nonempty)
  · have bytes := took.recordBytes_add wf wf' nonempty slash
    omega

end Changes

end FileTree
end DiskQueue
