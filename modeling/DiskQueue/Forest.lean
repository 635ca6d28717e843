/-
Module: DiskQueue.Forest
Purpose: Values under sequences of names.
Trusted boundary: none
Main exports:
  Forest, Branch, Branch.descend, Branch.update, Branch.value_descend_update
-/
import DiskQueue.Path

namespace DiskQueue

/-!
A forest is a row of branches with names. A branch may have a value, and what is
below it is a forest again, so a sequence of names leads from a branch down to
another one. Where nothing stands the branch is empty, and empty branches are not
kept.

The main statements say what an update does. If it keeps what is below a branch, it
changes the value of that branch and no other (`value_descend_update`); in any case
it changes no value that is not below that branch
(`value_descend_update_of_not_within`).
-/

/-- A row of branches with names. -/
inductive Forest (α : Type) where
  | nil
  | cons (name : Name) (value : Option α) (below : Forest α) (next : Forest α)
deriving Repr, DecidableEq

/-- A value, if there is one, and what is below it. -/
structure Branch (α : Type) where
  value : Option α
  below : Forest α
deriving Repr, DecidableEq

/-- A branch without a value and with nothing below it. -/
def Branch.empty {α : Type} : Branch α := ⟨none, .nil⟩

/-- Whether a branch has no value and nothing below it. -/
def Branch.isEmpty {α : Type} : Branch α → Bool
  | ⟨none, .nil⟩ => true
  | _ => false

theorem Branch.eq_empty_of_isEmpty {α : Type} {b : Branch α} (h : b.isEmpty = true) :
    b = Branch.empty := by
  unfold Branch.isEmpty at h
  split at h
  · rfl
  · cases h

namespace Forest

variable {α : Type}

/-- The names in a row. -/
def names : Forest α → List Name
  | nil => []
  | cons name _ _ next => name :: next.names

/-- The branch with a name. -/
def branch (name : Name) : Forest α → Branch α
  | nil => Branch.empty
  | cons other value below next => if other == name then ⟨value, below⟩ else branch name next

/-- A row without the branches that have a name. -/
def without (name : Name) : Forest α → Forest α
  | nil => nil
  | cons other value below next =>
    if other == name then without name next else cons other value below (without name next)

/-- A row with a branch in the place of an older one. -/
def put (forest : Forest α) (name : Name) (branch : Branch α) : Forest α :=
  if branch.isEmpty then forest.without name
  else cons name branch.value branch.below (forest.without name)

/-- The values in a row with their names. -/
def entries : Forest α → List (Name × α)
  | nil => []
  | cons name (some value) _ next => (name, value) :: next.entries
  | cons _ none _ next => next.entries

/-- No row holds a name twice. -/
def Distinct : Forest α → Prop
  | nil => True
  | cons name _ below next => name ∉ next.names ∧ below.Distinct ∧ next.Distinct

theorem branch_cons (name other : Name) (value : Option α) (below next : Forest α) :
    (cons other value below next).branch name
      = if other = name then ⟨value, below⟩ else next.branch name := by
  simp [branch]

theorem without_cons (name other : Name) (value : Option α) (below next : Forest α) :
    (cons other value below next).without name
      = if other = name then next.without name
        else cons other value below (next.without name) := by
  simp [without]

theorem branch_without (forest : Forest α) (name other : Name) :
    (forest.without name).branch other
      = if other = name then Branch.empty else forest.branch other := by
  induction forest with
  | nil => simp [without, branch]
  | cons n value below next _ ih =>
    by_cases hn : n = name <;> by_cases ho : n = other
    · subst hn ho
      simp [without, ih]
    · have h : other ≠ name := fun h => ho (hn.trans h.symm)
      simp [without, branch, hn, ih, h, Ne.symm h]
    · subst ho
      simp [without, branch, hn]
    · simp [without, branch, hn, ho, ih]

/-- Putting a branch in place changes no branch with another name. -/
theorem branch_put (forest : Forest α) (name other : Name) (b : Branch α) :
    (forest.put name b).branch other = if other = name then b else forest.branch other := by
  unfold put
  split
  · rename_i h
    rw [branch_without, Branch.eq_empty_of_isEmpty h]
  · by_cases h : other = name
    · simp [branch, h]
    · simp [branch, branch_without, h, Ne.symm h]

theorem mem_names_without {forest : Forest α} {name other : Name} :
    other ∈ (forest.without name).names ↔ other ≠ name ∧ other ∈ forest.names := by
  induction forest with
  | nil => simp [without, names]
  | cons n value below next _ ih =>
    by_cases hn : n = name
    · subst hn
      simp only [without_cons, if_true, ih, names, List.mem_cons]
      exact ⟨fun h => ⟨h.1, .inr h.2⟩, fun h => ⟨h.1, h.2.resolve_left h.1⟩⟩
    · simp only [without_cons, hn, if_false, names, List.mem_cons, ih]
      constructor
      · rintro (rfl | h)
        · exact ⟨hn, .inl rfl⟩
        · exact ⟨h.1, .inr h.2⟩
      · rintro ⟨h, rfl | hm⟩
        · exact .inl rfl
        · exact .inr ⟨h, hm⟩

theorem Distinct.without {forest : Forest α} (h : forest.Distinct) (name : Name) :
    (forest.without name).Distinct := by
  induction forest with
  | nil => trivial
  | cons n value below next _ ih =>
    by_cases hn : n = name
    · simpa [Forest.without, hn] using ih h.2.2
    · simp only [without_cons, hn, if_false]
      exact ⟨fun hm => h.1 (mem_names_without.mp hm).2, h.2.1, ih h.2.2⟩

theorem Distinct.put {forest : Forest α} (h : forest.Distinct) {b : Branch α}
    (hb : b.below.Distinct) (name : Name) : (forest.put name b).Distinct := by
  unfold Forest.put
  split
  · exact h.without name
  · exact ⟨fun hm => (mem_names_without.mp hm).1 rfl, hb, h.without name⟩

theorem Distinct.branch {forest : Forest α} (h : forest.Distinct) (name : Name) :
    (forest.branch name).below.Distinct := by
  induction forest with
  | nil => trivial
  | cons n value below next _ ih =>
    by_cases hn : n = name
    · simpa [Forest.branch, hn] using h.2.1
    · simpa [Forest.branch, hn] using ih h.2.2

/-- Only names of the row stand at its values. -/
theorem mem_names_of_mem_entries {forest : Forest α} {name : Name} {value : α}
    (h : (name, value) ∈ forest.entries) : name ∈ forest.names := by
  induction forest with
  | nil => cases h
  | cons n v below next _ ih =>
    cases v with
    | none => exact List.mem_cons_of_mem _ (ih h)
    | some a =>
      rcases List.mem_cons.mp h with h | h
      · cases h
        exact List.mem_cons_self
      · exact List.mem_cons_of_mem _ (ih h)

/-- The values of a row are those of its branches. -/
theorem mem_entries_iff {forest : Forest α} (h : forest.Distinct) {name : Name} {value : α} :
    (name, value) ∈ forest.entries ↔ (forest.branch name).value = some value := by
  induction forest with
  | nil => simp [entries, branch, Branch.empty]
  | cons n v below next _ ih =>
    have hnext := ih h.2.2
    by_cases hn : n = name
    · subst hn
      have hm : (n, value) ∉ next.entries := fun hm => h.1 (mem_names_of_mem_entries hm)
      cases v with
      | none => simp [entries, branch, hm]
      | some a => simp [entries, branch, hm, eq_comm]
    · cases v with
      | none => simpa [entries, branch, hn] using hnext
      | some a => simpa [entries, branch, hn, Ne.symm hn] using hnext

end Forest

namespace Branch

variable {α : Type}

/-- The branch with a name below another one. -/
def child (b : Branch α) (name : Name) : Branch α := b.below.branch name

/-- The branch that names lead down to. -/
def descend (b : Branch α) (key : List Name) : Branch α := key.foldl child b

/-- A branch after the one that names lead down to has been changed. -/
def update (f : Branch α → Branch α) : List Name → Branch α → Branch α
  | [], b => f b
  | name :: rest, b => ⟨b.value, b.below.put name (update f rest (b.child name))⟩

@[simp] theorem descend_nil (b : Branch α) : b.descend [] = b := rfl

@[simp] theorem descend_cons (b : Branch α) (name : Name) (rest : List Name) :
    b.descend (name :: rest) = (b.child name).descend rest := rfl

theorem descend_append (b : Branch α) (key more : List Name) :
    b.descend (key ++ more) = (b.descend key).descend more :=
  List.foldl_append

/-- Nothing is below an empty branch. -/
@[simp] theorem descend_empty (key : List Name) :
    (Branch.empty : Branch α).descend key = Branch.empty := by
  induction key with
  | nil => rfl
  | cons name rest ih => exact ih

/-- What is below a branch does not depend on its value. -/
theorem descend_congr {b c : Branch α} (h : b.below = c.below) {key : List Name} (hk : key ≠ []) :
    b.descend key = c.descend key := by
  cases key with
  | nil => exact absurd rfl hk
  | cons name rest => simp [child, h]

theorem child_update (f : Branch α → Branch α) (name other : Name) (rest : List Name)
    (b : Branch α) :
    (update f (name :: rest) b).child other
      = if other = name then update f rest (b.child name) else b.child other :=
  Forest.branch_put b.below name other _

/-- An update that keeps what is below changes one value and no other. -/
theorem value_descend_update {f : Branch α → Branch α} (hf : ∀ b, (f b).below = b.below)
    (key other : List Name) (b : Branch α) :
    ((update f key b).descend other).value
      = if other = key then (f (b.descend key)).value else (b.descend other).value := by
  induction key generalizing other b with
  | nil =>
    cases other with
    | nil => rfl
    | cons n r => simp [update, child, hf]
  | cons name rest ih =>
    cases other with
    | nil => rfl
    | cons n r =>
      rw [descend_cons, child_update]
      by_cases h : n = name
      · subst h
        simp [ih]
      · simp [h]

/-- An update changes what is below a branch as it changes the branch. -/
theorem descend_update_append (f : Branch α → Branch α) (key more : List Name) (b : Branch α) :
    (update f key b).descend (key ++ more) = (f (b.descend key)).descend more := by
  induction key generalizing b with
  | nil => rfl
  | cons name rest ih => simp [child_update, ih]

/-- An update changes no value that is not below its branch. -/
theorem value_descend_update_of_not_within (f : Branch α → Branch α) {key other : List Name}
    (h : ¬ key <+: other) (b : Branch α) :
    ((update f key b).descend other).value = (b.descend other).value := by
  induction key generalizing other b with
  | nil => exact absurd List.nil_prefix h
  | cons name rest ih =>
    cases other with
    | nil => rfl
    | cons n r =>
      rw [descend_cons, child_update]
      by_cases hn : n = name
      · subst hn
        rw [if_pos rfl, descend_cons]
        exact ih (fun hp => h (List.cons_prefix_cons.mpr ⟨rfl, hp⟩)) (b.child n)
      · rw [if_neg hn, descend_cons]

theorem distinct_empty : (Branch.empty : Branch α).below.Distinct := trivial

theorem distinct_descend {b : Branch α} (h : b.below.Distinct) (key : List Name) :
    (b.descend key).below.Distinct := by
  induction key generalizing b with
  | nil => exact h
  | cons name rest ih => exact ih (h.branch name)

theorem distinct_update {f : Branch α → Branch α}
    (hf : ∀ b, b.below.Distinct → (f b).below.Distinct) (key : List Name) {b : Branch α}
    (h : b.below.Distinct) : (update f key b).below.Distinct := by
  induction key generalizing b with
  | nil => exact hf b h
  | cons name rest ih => exact h.put (ih (h.branch name)) name

end Branch
end DiskQueue
