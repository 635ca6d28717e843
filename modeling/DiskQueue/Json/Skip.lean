/-
Module: DiskQueue.Json.Skip
Purpose: Passing over a value that nobody asked for.
Trusted boundary: none
Main exports:
  Json.Pending, Json.skipValue
-/
import DiskQueue.Json.Typed

namespace DiskQueue.Json

/-!
The value of a member that nobody asked for is passed over without being built: its brackets have to
pair up and its pieces have to be well formed, but it may be nested to any depth, its numbers may
have any size, and its strings need not be UTF-8. The open brackets are kept in a list, and every
step takes at least one byte, so the passing ends (`Pending.step_length`).
-/

/-- The brackets that enclose a value. -/
inductive Bracket where
  | list
  | object
deriving Repr, DecidableEq

/-- The byte that closes a bracket. -/
def Bracket.closing : Bracket → UInt8
  | .list => 0x5D
  | .object => 0x7D

/-- The fault for a text that ends inside a bracket. -/
def Bracket.cut : Bracket → Fault
  | .list => .endInList
  | .object => .endInObject

/-- The fault for something else than a comma or the closing byte. -/
def Bracket.unseparated : Bracket → Fault
  | .list => .expectedCommaOrBracket
  | .object => .expectedCommaOrBrace

/-- What has to come next: a value, a key with its colon, the first item of a bracket or its end, or
what may follow a complete value. -/
inductive Phase where
  | value
  | key
  | first
  | after
deriving Repr, DecidableEq

/-- A value that is being passed over: what has to come next, the open brackets, innermost first,
and the text that is left. -/
structure Pending where
  phase : Phase
  brackets : List Bracket
  rest : Bytes
deriving Repr, DecidableEq

/-- Passes over a scalar, or opens a bracket. -/
def skipHead (brackets : List Bracket) (s : Bytes) : Except Fault Pending :=
  let complete (r : Except Fault Bytes) : Except Fault Pending := r.map (Pending.mk .after brackets)
  match skipBlank s with
  | [] => .error .endInValue
  | b :: rest =>
    if b = 0x6E then complete (scanWord nullTail rest)
    else if b = 0x74 then complete (scanWord trueTail rest)
    else if b = 0x66 then complete (scanWord falseTail rest)
    else if beginsNumeral b then complete (skipNumeral (b :: rest))
    else if b = 0x22 then complete (skipString rest)
    else if b = 0x5B then .ok ⟨.first, .list :: brackets, rest⟩
    else if b = 0x7B then .ok ⟨.first, .object :: brackets, rest⟩
    else .error .expectedValue

/-- Passes over a key and its colon. -/
def skipKey (brackets : List Bracket) (s : Bytes) : Except Fault Pending :=
  match skipBlank s with
  | [] => .error .endInObject
  | b :: rest =>
    if b = 0x22 then
      match skipString rest with
      | .error f => .error f
      | .ok rest => (scanColon rest).map (Pending.mk .value brackets)
    else .error .keyNotString

/-- Passes over the next piece. Where no bracket is open and a value is complete there is none. -/
def Pending.step (p : Pending) : Except Fault Pending :=
  match p.phase, p.brackets with
  | .value, brackets => skipHead brackets p.rest
  | .key, brackets => skipKey brackets p.rest
  | .first, [] => skipHead [] p.rest
  | .first, top :: below =>
    match skipBlank p.rest with
    | [] => .error top.cut
    | b :: rest =>
      if b = top.closing then .ok ⟨.after, below, rest⟩
      else
        match top with
        | .list => skipHead (top :: below) (b :: rest)
        | .object => skipKey (top :: below) (b :: rest)
  | .after, [] => .error .trailingCharacters
  | .after, top :: below =>
    match skipBlank p.rest with
    | [] => .error top.cut
    | b :: rest =>
      if b = 0x2C then
        match top with
        | .list => .ok ⟨.value, top :: below, rest⟩
        | .object => .ok ⟨.key, top :: below, rest⟩
      else if b = top.closing then .ok ⟨.after, below, rest⟩
      else .error top.unseparated

theorem skipHead_length {brackets : List Bracket} {s : Bytes} {q : Pending}
    (h : skipHead brackets s = .ok q) : q.rest.length < s.length := by
  have hb := skipBlank_length s
  have complete : ∀ {r : Except Fault Bytes} {n : Nat}, (∀ t, r = .ok t → t.length < n) →
      r.map (Pending.mk .after brackets) = .ok q → q.rest.length < n := by
    intro r n hr hq
    cases r with
    | error f => cases hq
    | ok t => cases hq; exact hr t rfl
  unfold skipHead at h
  split at h
  · cases h
  · rename_i b rest heq
    rw [heq, List.length_cons] at hb
    have word : ∀ {w t : Bytes}, scanWord w rest = .ok t → t.length < s.length :=
      fun ht => by have := scanWord_length ht; omega
    repeat' split at h
    · exact complete (fun _ => word) h
    · exact complete (fun _ => word) h
    · exact complete (fun _ => word) h
    · exact complete (fun _ ht => by
        have := skipNumeral_length ht; simp only [List.length_cons] at this; omega) h
    · exact complete (fun _ ht => by have := skipString_length ht; omega) h
    · cases h; exact hb
    · cases h; exact hb
    · cases h

theorem skipKey_length {brackets : List Bracket} {s : Bytes} {q : Pending}
    (h : skipKey brackets s = .ok q) : q.rest.length < s.length := by
  have hb := skipBlank_length s
  unfold skipKey at h
  split at h
  · cases h
  · rename_i b rest heq
    rw [heq, List.length_cons] at hb
    split at h
    · split at h
      · cases h
      · rename_i t ht
        have hs := skipString_length ht
        cases hc : scanColon t with
        | error f => rw [hc] at h; cases h
        | ok u =>
          rw [hc] at h
          cases h
          have := scanColon_length hc
          show u.length < s.length
          omega
    · cases h

/-- Every step takes at least one byte. -/
theorem Pending.step_length {p q : Pending} (h : p.step = .ok q) :
    q.rest.length < p.rest.length := by
  have hb := skipBlank_length p.rest
  unfold Pending.step at h
  split at h
  · exact skipHead_length h
  · exact skipKey_length h
  · exact skipHead_length h
  · split at h
    · cases h
    · rename_i b rest heq
      rw [heq] at hb
      split at h
      · cases h; exact hb
      · split at h
        · exact Nat.lt_of_lt_of_le (skipHead_length h) hb
        · exact Nat.lt_of_lt_of_le (skipKey_length h) hb
  · cases h
  · split at h
    · cases h
    · rename_i b rest heq
      rw [heq] at hb
      repeat' split at h
      · cases h; exact hb
      · cases h; exact hb
      · cases h; exact hb
      · cases h

/-- Passes over what is left of a value, and gives back what follows it. -/
def Pending.finish (p : Pending) : Except Fault Bytes :=
  if p.phase = .after ∧ p.brackets = [] then .ok p.rest
  else
    match _h : p.step with
    | .error f => .error f
    | .ok q => q.finish
termination_by p.rest.length
decreasing_by exact Pending.step_length _h

/-- Passes over a value. -/
def skipValue (s : Bytes) : Except Fault Bytes := (Pending.mk .value [] s).finish

end DiskQueue.Json
