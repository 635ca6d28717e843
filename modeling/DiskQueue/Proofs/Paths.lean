/-
Module: DiskQueue.Proofs.Paths
Purpose: The path of an entry of a directory leads through the names of the
  directory to the name of the entry.
Trusted boundary: none
Main exports:
  Name.IsProper, Path.steps_join, Path.fileName?_join, Path.refusal?_join_congr,
  Path.splitExtension_append
-/
import DiskQueue.FileTree.Walk
import Mathlib.Data.List.Basic

namespace DiskQueue

/-- A name that an entry of a directory can have. Slashes separate names, and the
two names made of dots stand for directories. -/
structure Name.IsProper (name : Name) : Prop where
  nonempty : name ≠ []
  slash : Path.slash ∉ name
  dot : name ≠ [Path.dot]
  dots : name ≠ [Path.dot, Path.dot]

instance (name : Name) : Decidable name.IsProper :=
  decidable_of_iff
    (name ≠ [] ∧ Path.slash ∉ name ∧ name ≠ [Path.dot] ∧ name ≠ [Path.dot, Path.dot])
    ⟨fun ⟨nonempty, slash, dot, dots⟩ => ⟨nonempty, slash, dot, dots⟩,
      fun ⟨nonempty, slash, dot, dots⟩ => ⟨nonempty, slash, dot, dots⟩⟩

namespace Path

/-! ### Pieces -/

theorem pieces_ne_nil (path : Path) : pieces path ≠ [] := by
  cases path with
  | nil => exact List.cons_ne_nil _ _
  | cons b rest =>
    rw [pieces]
    split
    · exact List.cons_ne_nil _ _
    · cases pieces rest <;> exact List.cons_ne_nil _ _

/-- A slash ends a piece. -/
theorem pieces_append_slash (a b : Path) : pieces (a ++ slash :: b) = pieces a ++ pieces b := by
  induction a with
  | nil => simp [pieces]
  | cons c a ih =>
    rw [List.cons_append, pieces, pieces, ih]
    split
    · rfl
    · cases h : pieces a with
      | nil => exact absurd h (pieces_ne_nil a)
      | cons piece more => rfl

theorem pieces_of_slash_notMem {name : Name} (h : slash ∉ name) : pieces name = [name] := by
  induction name with
  | nil => rfl
  | cons c name ih =>
    rw [List.mem_cons, not_or] at h
    rw [pieces, if_neg (Ne.symm h.1), ih h.2]

/-! ### Joining -/

theorem isAbsolute_of_slash_notMem {name : Name} (h : slash ∉ name) : isAbsolute name = false := by
  cases name with
  | nil => rfl
  | cons c name =>
    rw [List.mem_cons, not_or] at h
    simpa [isAbsolute] using Ne.symm h.1

/-- A path is empty, ends in a slash, or is joined by one. -/
theorem join_cases (directory : Path) {name : Name} (h : slash ∉ name) :
    (directory = [] ∧ directory.join name = name) ∨
    (∃ start, directory = start ++ [slash] ∧ directory.join name = start ++ slash :: name) ∨
    (directory ≠ [] ∧ directory.join name = directory ++ slash :: name) := by
  unfold join
  rw [isAbsolute_of_slash_notMem h]
  simp only [Bool.false_eq_true, if_false]
  split
  · rename_i end_
    rcases end_ with rfl | last
    · exact .inl ⟨rfl, rfl⟩
    · obtain ⟨start, rfl⟩ := List.getLast?_eq_some_iff.mp last
      exact .inr (.inl ⟨start, rfl, by simp⟩)
  · rename_i end_
    exact .inr (.inr ⟨fun empty => end_ (.inl empty), rfl⟩)

theorem filter_pieces_join (directory : Path) {name : Name} (hname : name.IsProper)
    {p : Name → Bool} (empty : p [] = false) (keep : p name = true) :
    (pieces (directory.join name)).filter p = (pieces directory).filter p ++ [name] := by
  have own : (pieces name).filter p = [name] := by
    simp [pieces_of_slash_notMem hname.slash, keep]
  rcases join_cases directory hname.slash with ⟨rfl, joined⟩ | ⟨start, rfl, joined⟩ | ⟨-, joined⟩
  · rw [joined, own]
    simp [pieces, empty]
  · rw [joined, pieces_append_slash, pieces_append_slash, List.filter_append, own]
    simp [pieces, empty]
  · rw [joined, pieces_append_slash, List.filter_append, own]

/-- The names on the way to an entry are those to its directory and its own. -/
theorem steps_join (directory : Path) {name : Name} (h : name.IsProper) :
    FileTree.steps (directory.join name) = FileTree.steps directory ++ [name] :=
  filter_pieces_join directory h (by simp) (by simpa using h.nonempty)

theorem names_join (directory : Path) {name : Name} (h : name.IsProper) :
    names (directory.join name) = names directory ++ [name] :=
  filter_pieces_join directory h (by simp) (by simpa using ⟨h.nonempty, h.dot⟩)

theorem fileName?_join (directory : Path) {name : Name} (h : name.IsProper) :
    fileName? (directory.join name) = some name := by
  rw [fileName?, names_join directory h, List.getLast?_concat]
  simpa using h.dots

/-- The name of an entry, as a path, has that name. -/
theorem fileName?_of_isProper {name : Name} (h : name.IsProper) : fileName? name = some name := by
  have joined := fileName?_join [] h
  rwa [join, isAbsolute_of_slash_notMem h.slash] at joined

/-- The path of an entry does not end in a slash. -/
theorem getLast?_join (directory : Path) {name : Name} (h : name.IsProper) :
    (directory.join name).getLast? ≠ some slash := by
  have last : name.getLast? ≠ some slash := fun mem => h.slash (List.mem_of_getLast? mem)
  obtain ⟨c, more, rfl⟩ := List.exists_cons_of_ne_nil h.nonempty
  rcases join_cases directory h.slash with ⟨-, joined⟩ | ⟨start, -, joined⟩ | ⟨-, joined⟩
  · rwa [joined]
  · rw [joined, List.getLast?_append, List.getLast?_cons_cons]
    simpa using last
  · rw [joined, List.getLast?_append, List.getLast?_cons_cons]
    simpa using last

theorem route_join (directory : Path) {name : Name} (h : name.IsProper) :
    FileTree.route (directory.join name) = ⟨FileTree.steps directory ++ [name], false⟩ := by
  rw [FileTree.route, steps_join directory h]
  simp [getLast?_join directory h]

theorem isAbsolute_join (directory : Path) {name : Name} (h : name.IsProper) :
    isAbsolute (directory.join name) = isAbsolute directory := by
  rcases join_cases directory h.slash with ⟨rfl, joined⟩ | ⟨start, rfl, joined⟩ | ⟨hd, joined⟩
  · rw [joined, isAbsolute_of_slash_notMem h.slash]
    rfl
  · rw [joined]
    cases start <;> simp [isAbsolute]
  · obtain ⟨c, rest, rfl⟩ := List.exists_cons_of_ne_nil hd
    rw [joined]
    simp [isAbsolute]

theorem origin_join (directory : Path) {name : Name} (h : name.IsProper) (current : Key) :
    FileTree.origin current (directory.join name) = FileTree.origin current directory := by
  rw [FileTree.origin, FileTree.origin, isAbsolute_join directory h]

/-- Different entries of a directory have different paths. -/
theorem join_injective {directory : Path} {a b : Name} (ha : a.IsProper) (hb : b.IsProper)
    (h : directory.join a = directory.join b) : a = b := by
  have names := fileName?_join directory ha
  rw [h, fileName?_join directory hb] at names
  exact (Option.some.inj names).symm

theorem mem_join {directory : Path} {name : Name} (h : slash ∉ name) (b : UInt8) (hb : b ≠ slash) :
    b ∈ directory.join name ↔ b ∈ directory ∨ b ∈ name := by
  rcases join_cases directory h with ⟨rfl, joined⟩ | ⟨start, rfl, joined⟩ | ⟨-, joined⟩ <;>
    rw [joined] <;> simp [hb]

theorem length_join_congr (directory : Path) {a b : Name} (ha : slash ∉ a) (hb : slash ∉ b)
    (h : a.length = b.length) : (directory.join a).length = (directory.join b).length := by
  unfold join
  rw [isAbsolute_of_slash_notMem ha, isAbsolute_of_slash_notMem hb]
  simp only [Bool.false_eq_true, if_false]
  split <;> simp [h]

/-- Whether a path is refused depends on the length of the name at its end and on
whether there is a byte zero in it. -/
theorem refusal?_join_congr (directory : Path) {a b : Name} (ha : a.IsProper) (hb : b.IsProper)
    (length : a.length = b.length) (zero : (0 : UInt8) ∈ a ↔ (0 : UInt8) ∈ b) :
    FileTree.refusal? (directory.join a) = FileTree.refusal? (directory.join b) := by
  have long := length_join_congr directory ha.slash hb.slash length
  have nul : (0 : UInt8) ∈ directory.join a ↔ (0 : UInt8) ∈ directory.join b := by
    rw [mem_join ha.slash 0 (by decide), mem_join hb.slash 0 (by decide), zero]
  have empty : directory.join a = [] ↔ directory.join b = [] := by
    rw [← List.length_eq_zero_iff, ← List.length_eq_zero_iff, long]
  simp only [FileTree.refusal?, nul, empty, long]

/-! ### Directories above -/

theorem slash_notMem_of_mem_pieces {path : Path} {piece : Name} (h : piece ∈ pieces path) :
    slash ∉ piece := by
  induction path generalizing piece with
  | nil =>
    rw [pieces, List.mem_singleton] at h
    simp [h]
  | cons b rest ih =>
    rw [pieces] at h
    split at h
    · rcases List.mem_cons.mp h with rfl | mem
      · simp
      · exact ih mem
    · rename_i other
      cases split : pieces rest with
      | nil => exact absurd split (pieces_ne_nil rest)
      | cons first more =>
        rw [split] at h
        rcases List.mem_cons.mp h with rfl | mem
        · rw [List.mem_cons, not_or]
          exact ⟨Ne.symm other, ih (split ▸ List.mem_cons_self)⟩
        · exact ih (split ▸ List.mem_cons_of_mem _ mem)

theorem mem_names {path : Path} {name : Name} (h : name ∈ names path) :
    name ≠ [] ∧ slash ∉ name := by
  rw [names, List.mem_filter, decide_eq_true_eq] at h
  exact ⟨h.2.1, slash_notMem_of_mem_pieces h.1⟩

theorem pieces_ofNames {ns : List Name} (nonempty : ns ≠ []) (h : ∀ name ∈ ns, slash ∉ name) :
    pieces (ofNames ns) = ns := by
  induction ns with
  | nil => exact absurd rfl nonempty
  | cons name more ih =>
    have own := pieces_of_slash_notMem (h name List.mem_cons_self)
    cases more with
    | nil => exact own
    | cons next more =>
      rw [ofNames, pieces_append_slash, own,
        ih (List.cons_ne_nil _ _) fun other mem => h other (List.mem_cons_of_mem _ mem)]
      rfl

/-- The path of the first names of a path leads through those names. -/
theorem steps_top_append (path : Path) {ns : List Name} (nonempty : ns ≠ [])
    (h : ∀ name ∈ ns, name ≠ [] ∧ slash ∉ name) :
    FileTree.steps (top path ++ ofNames ns) = ns := by
  have own := pieces_ofNames nonempty fun name mem => (h name mem).2
  have kept : ns.filter (fun piece => piece ≠ []) = ns := by
    rw [List.filter_eq_self]
    intro name mem
    simpa using (h name mem).1
  unfold FileTree.steps top
  split
  · rw [List.singleton_append, pieces, if_pos rfl, own, List.filter_cons_of_neg (by simp), kept]
  · rw [List.nil_append, own, kept]

theorem isAbsolute_top_append (path : Path) {ns : List Name} (nonempty : ns ≠ [])
    (h : ∀ name ∈ ns, name ≠ [] ∧ slash ∉ name) :
    isAbsolute (top path ++ ofNames ns) = isAbsolute path := by
  unfold top
  split
  · rename_i absolute
    rw [absolute]
    rfl
  · rename_i relative
    obtain ⟨name, more, rfl⟩ := List.exists_cons_of_ne_nil nonempty
    obtain ⟨filled, slashless⟩ := h name List.mem_cons_self
    obtain ⟨b, rest, rfl⟩ := List.exists_cons_of_ne_nil filled
    rw [List.mem_cons, not_or] at slashless
    rw [Bool.not_eq_true] at relative
    rw [List.nil_append, relative]
    cases more <;> simpa [ofNames, isAbsolute] using Ne.symm slashless.1

/-! ### Extensions -/

theorem splitAtLastDot_of_notMem {name : Name} (h : dot ∉ name) : splitAtLastDot name = none := by
  induction name with
  | nil => rfl
  | cons c name ih =>
    rw [List.mem_cons, not_or] at h
    rw [splitAtLastDot, ih h.2]
    exact if_neg (Ne.symm h.1)

theorem splitAtLastDot_append (before : Name) {after : Name} (h : dot ∉ after) :
    splitAtLastDot (before ++ dot :: after) = some (before, after) := by
  induction before with
  | nil =>
    rw [List.nil_append, splitAtLastDot, splitAtLastDot_of_notMem h]
    exact if_pos rfl
  | cons c before ih => rw [List.cons_append, splitAtLastDot, ih]

theorem eq_append_of_splitAtLastDot {name before after : Name}
    (h : splitAtLastDot name = some (before, after)) : name = before ++ dot :: after := by
  induction name generalizing before with
  | nil => cases h
  | cons c name ih =>
    rw [splitAtLastDot] at h
    split at h
    · rename_i split
      cases h
      rw [ih split, List.cons_append]
    · split at h
      · rename_i isDot
        cases h
        rw [isDot, List.nil_append]
      · cases h

/-- An extension is split off again, unless nothing stands before its dot. -/
theorem splitExtension_append {base extension : Name} (hb : base ≠ []) (h : dot ∉ extension) :
    splitExtension (base ++ dot :: extension) = (base, some extension) := by
  obtain ⟨c, base, rfl⟩ := List.exists_cons_of_ne_nil hb
  rw [splitExtension, splitAtLastDot_append _ h]

/-- A name with an extension is what stands before it, a dot, and the extension. -/
theorem eq_append_of_splitExtension {name base extension : Name}
    (h : splitExtension name = (base, some extension)) :
    base ≠ [] ∧ name = base ++ dot :: extension := by
  unfold splitExtension at h
  split at h
  · rename_i c before after split
    cases h
    exact ⟨List.cons_ne_nil _ _, eq_append_of_splitAtLastDot split⟩
  · cases h

/-- Paths in one directory are in the order of their names. -/
theorem join_lt_join (directory : Path) {a b : Name} (ha : a.IsProper) (hb : b.IsProper)
    (h : a < b) : directory.join a < directory.join b := by
  unfold join
  rw [isAbsolute_of_slash_notMem ha.slash, isAbsolute_of_slash_notMem hb.slash]
  simp only [Bool.false_eq_true, if_false]
  split
  · exact List.append_left_lt h
  · exact List.append_left_lt (List.cons_lt_cons_iff.mpr (.inr ⟨rfl, h⟩))

end Path
end DiskQueue
