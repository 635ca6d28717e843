/-
Module: DiskQueue.Proofs.SettingsRoundTrip
Purpose: Settings are read back from what is written for them.
Trusted boundary: none
Main exports:
  Json.isObject_compact, Json.isObject_pretty, Settings.given_written,
  Settings.written_read_back
-/
import DiskQueue.Limits
import DiskQueue.Proofs.SettingsText
import DiskQueue.Proofs.ShortestHeader

namespace DiskQueue

/-!
Settings are written as an object with all fields, nothing standing as `null` where no directory
or no capacity is set. A number and a string are told apart by their first byte, so a capacity is
read back in the form it was given in.
-/

/-! ### Written objects -/

namespace Json

variable {ms : List (String × Json)}

theorem members_compact (values : ∀ m ∈ ms, IsValue (compact m.2)) :
    Members true (written ms) (compactMembers ms ++ [0x7D]) := by
  induction ms with
  | nil => exact .closed (a := []) .nil
  | cons m ms ih =>
    obtain ⟨key, value⟩ := m
    have here : IsValue (compact value) := values _ List.mem_cons_self
    have more := ih fun m hm => values m (List.mem_cons_of_mem _ hm)
    have member : ∀ {s : Bytes}, Members false (written ms) s →
        Members true (written ((key, value) :: ms)) (quoted key ++ 0x3A :: (compact value ++ s)) :=
      fun rest => .member (a := []) (b := []) (c := []) .nil (quotes_quoted key) .nil .nil here rest
    cases ms with
    | nil => simpa [compactMembers] using member (.closed (a := []) .nil)
    | cons next ms => simpa [compactMembers] using member (.comma (a := []) .nil more)

/-- What is written without blanks for members is an object that has them. -/
theorem isObject_compact (values : ∀ m ∈ ms, IsValue (compact m.2)) :
    IsObject (written ms) (compact (.object ms)) :=
  ⟨[], compactMembers ms ++ [0x7D], [], by simp [compact], .nil, members_compact values, .nil⟩

theorem blanks_newline (depth : Nat) : Blanks (newline depth) := by
  intro b mem
  rcases List.mem_cons.mp mem with rfl | space
  · rfl
  · rw [List.eq_of_mem_replicate space]
    rfl

/-- Whether a value is written alike at every depth. -/
def IsFlat (value : Json) : Prop := ∀ depth, prettyAt depth value = compact value

theorem members_pretty {m : String × Json} (values : ∀ n ∈ m :: ms, IsValue (compact n.2))
    (flat : ∀ n ∈ m :: ms, IsFlat n.2) (depth : Nat) {close : Bytes} (blanks : Blanks close) :
    Members true (written (m :: ms)) (prettyMembers depth (m :: ms) ++ (close ++ [0x7D])) := by
  have space : Blanks [0x20] := by simp [Blanks, isBlank]
  induction ms generalizing m with
  | nil =>
    obtain ⟨key, value⟩ := m
    have here : IsValue (compact value) := values _ List.mem_cons_self
    have text : prettyMembers depth [(key, value)] ++ (close ++ [0x7D])
        = newline depth ++ (quoted key ++ ([] ++ 0x3A ::
            ([0x20] ++ (compact value ++ (close ++ [0x7D]))))) := by
      simp [prettyMembers, flat (key, value) List.mem_cons_self depth]
    rw [text]
    exact .member (blanks_newline depth) (quotes_quoted key) .nil space here (.closed blanks)
  | cons next ms ih =>
    obtain ⟨key, value⟩ := m
    have here : IsValue (compact value) := values _ List.mem_cons_self
    have more := ih (m := next) (fun n hn => values n (List.mem_cons_of_mem _ hn))
      fun n hn => flat n (List.mem_cons_of_mem _ hn)
    have text : prettyMembers depth ((key, value) :: next :: ms) ++ (close ++ [0x7D])
        = newline depth ++ (quoted key ++ ([] ++ 0x3A :: ([0x20] ++ (compact value ++
            ([] ++ 0x2C :: (prettyMembers depth (next :: ms) ++ (close ++ [0x7D]))))))) := by
      simp [prettyMembers, flat (key, value) List.mem_cons_self depth]
    rw [text]
    exact .member (blanks_newline depth) (quotes_quoted key) .nil space here (.comma .nil more)

/-- Laid out for reading it is one as well. -/
theorem isObject_pretty (values : ∀ m ∈ ms, IsValue (compact m.2)) (flat : ∀ m ∈ ms, IsFlat m.2) :
    IsObject (written ms) (pretty (.object ms)) := by
  cases ms with
  | nil => exact ⟨[], [0x7D], [], by simp [pretty, prettyAt], .nil, .closed (a := []) .nil, .nil⟩
  | cons m ms =>
    refine ⟨[], prettyMembers 1 (m :: ms) ++ (newline 0 ++ [0x7D]), [], ?_, .nil,
      members_pretty values flat 1 (blanks_newline 0), .nil⟩
    simp [pretty, prettyAt]

end Json

/-! ### Written settings -/

namespace Settings

open Json (IsFlat IsNamed IsObject IsValue OrNull Quotes written)
open Record (valuesOf)

variable {settings : Settings}

theorem compact_null : Json.compact .null = Json.nullText := by
  rw [Json.compact]
  decide

theorem writtenAs_toJson (capacity : Capacity) :
    capacity.WrittenAs (Json.compact capacity.toJson) := by
  cases capacity with
  | megabytes n =>
    rw [Capacity.toJson, Json.compact]
    exact .megabytes n
  | text x =>
    rw [Capacity.toJson, Record.compact_string]
    exact .text (Json.quotes_quoted x)

/-- The values of written settings are texts of values, and none of them has brackets. -/
theorem isValue_members (settings : Settings) :
    ∀ m ∈ settings.members, IsValue (Json.compact m.2) ∧ IsFlat m.2 := by
  have null : IsValue (Json.compact .null) ∧ IsFlat .null := by
    rw [compact_null]
    exact ⟨Json.isValue_null, fun _ => by rw [Json.prettyAt, Json.compact]⟩
  have number (n : Int) : IsValue (Json.compact (.number (.integer n))) ∧
      IsFlat (.number (.integer n)) := by
    rw [Json.compact]
    exact ⟨Json.isValue_ofInt n, fun _ => by rw [Json.prettyAt, Json.compact]⟩
  have string (x : String) : IsValue (Json.compact (.string x)) ∧ IsFlat (.string x) := by
    rw [Record.compact_string]
    exact ⟨(Json.quotes_quoted x).isValue, fun _ => by rw [Json.prettyAt, Json.compact]⟩
  intro m mem
  simp only [members, List.mem_cons, List.not_mem_nil, or_false] at mem
  rcases mem with rfl | rfl | rfl | rfl | rfl | rfl
  · cases settings.directory with
    | none => exact null
    | some path => exact string _
  · cases settings.capacity with
    | none => exact null
    | some capacity =>
      cases capacity with
      | megabytes n => exact number _
      | text x => exact string _
  · exact number _
  · exact number _
  · exact number _
  · exact string _

/-- What is written gives the settings it is written for. -/
theorem given_written (text : ∀ path, settings.directory = some path → Utf8.isText path = true) :
    settings.Given (written settings.members) := by
  have one {key : String} {value : Json} (mem : (key, value) ∈ settings.members) :
      valuesOf key (written settings.members) = [Json.compact value] := by
    simp only [members, List.mem_cons, Prod.mk.injEq, List.not_mem_nil, or_false] at mem
    rcases mem with ⟨rfl, rfl⟩ | ⟨rfl, rfl⟩ | ⟨rfl, rfl⟩ | ⟨rfl, rfl⟩ | ⟨rfl, rfl⟩ | ⟨rfl, rfl⟩ <;>
      simp [valuesOf, written, members]
  have given {β : Type} {key : String} {value : Json} {means : β → Bytes → Prop} {fallback x : β}
      (mem : (key, value) ∈ settings.members) (meant : means x (Json.compact value)) :
      Gives key means fallback x (written settings.members) :=
    .inr ⟨_, one mem, meant⟩
  constructor
  · refine given (.head _) ?_
    cases named : settings.directory with
    | none => exact compact_null
    | some path =>
      obtain ⟨x, decoded⟩ := Option.isSome_iff_exists.mp (text path named)
      refine ⟨x, Utf8.encode_of_decode? decoded, ?_⟩
      have shown : Utf8.lossy path = x := by rw [Utf8.lossy, decoded]
      rw [Option.map_some, Option.getD_some, shown, Record.compact_string]
      exact Json.quotes_quoted x
  · refine given (.tail _ (.head _)) ?_
    cases settings.capacity with
    | none => exact compact_null
    | some capacity => exact writtenAs_toJson capacity
  · exact given (.tail _ (.tail _ (.head _))) (Record.compact_natCast _)
  · exact given (.tail _ (.tail _ (.tail _ (.head _)))) (Record.compact_natCast _)
  · exact given (.tail _ (.tail _ (.tail _ (.tail _ (.head _))))) (Record.compact_natCast _)
  · refine given (.tail _ (.tail _ (.tail _ (.tail _ (.tail _ (.head _)))))) ?_
    have known : settings.refillOrder.name ∈ orderNames := by
      cases settings.refillOrder <;> decide
    rw [Record.compact_string]
    exact .string known (Json.quotes_quoted _)

/-- Settings that have been read have a directory that is text, if they have one. -/
theorem isText_directory {text : Bytes} (read : ofText text = .ok settings) :
    ∀ path, settings.directory = some path → Utf8.isText path = true := by
  obtain ⟨ms, -, given, -⟩ := ofText_iff.mp read
  intro path named
  rcases given.directory with ⟨-, unset⟩ | ⟨v, -, meant⟩
  · rw [named] at unset
    cases unset
  · rw [named] at meant
    obtain ⟨x, rfl, -⟩ := meant
    rw [Utf8.isText, Utf8.decode?_encode]
    rfl

/-- Settings that make sense, with a directory that is text if they have one, are read back from
every object whose members are the written ones, so from both forms in which they are written. What
has been read can be written again and is read back as it was, with the same capacity. -/
theorem written_read_back :
    (∀ settings : Settings, settings.validate = .ok () →
      (∀ path, settings.directory = some path → Utf8.isText path = true) →
      (∀ text, IsObject (written settings.members) text → ofText text = .ok settings) ∧
        ofText settings.toJson.compact = .ok settings ∧
        ofText settings.toJson.pretty = .ok settings) ∧
    ∀ text settings, ofText text = .ok settings →
      ∃ again, ofText settings.toJson.compact = .ok again ∧
        ofText settings.toJson.pretty = .ok again ∧ again = settings ∧
        Limits.storage.choose again.capacityText = Limits.storage.choose settings.capacityText := by
  have back : ∀ settings : Settings, settings.validate = .ok () →
      (∀ path, settings.directory = some path → Utf8.isText path = true) →
      ∀ text, IsObject (written settings.members) text → ofText text = .ok settings :=
    fun settings valid named text object =>
      (ofText_of_object object).mpr ⟨given_written named, valid⟩
  have compact (settings : Settings) :
      IsObject (written settings.members) settings.toJson.compact :=
    Json.isObject_compact fun m mem => (isValue_members settings m mem).1
  have pretty (settings : Settings) : IsObject (written settings.members) settings.toJson.pretty :=
    Json.isObject_pretty (fun m mem => (isValue_members settings m mem).1)
      fun m mem => (isValue_members settings m mem).2
  refine ⟨fun settings valid named => ⟨back settings valid named,
    back settings valid named _ (compact settings), back settings valid named _ (pretty settings)⟩,
    ?_⟩
  intro text settings read
  obtain ⟨ms, -, -, valid⟩ := ofText_iff.mp read
  have named := isText_directory read
  exact ⟨settings, back settings valid named _ (compact settings),
    back settings valid named _ (pretty settings), rfl, rfl⟩

/-- A capacity of 50 as a text, in settings with a directory that has to be escaped, and a settings
file that is a list with a capacity of 50 as a number. -/
theorem written_read_back_of_fifty :
    let settings : Settings :=
      { Settings.default with
          directory := some (Utf8.encode "a\"b\\\n😀"), capacity := some (.text "50") }
    let list := Utf8.encode "[null, 50]"
    let found : Settings := { Settings.default with capacity := some (.megabytes 50) }
    settings.validate = .ok () ∧
      (∀ path, settings.directory = some path → Utf8.isText path = true) ∧
      ofText settings.toJson.compact = .ok settings ∧
      ofText list = .ok found ∧ ofText found.toJson.compact = .ok found ∧
      settings.toJson.compact ≠ found.toJson.compact := by
  intro settings list found
  have valid : settings.validate = .ok () := rfl
  have named : ∀ path, settings.directory = some path → Utf8.isText path = true := by
    rintro _ ⟨⟩
    rw [Utf8.isText, Utf8.decode?_encode]
    rfl
  have read : ofText list = .ok found := by decide +kernel
  obtain ⟨-, back, -⟩ := written_read_back.1 settings valid named
  obtain ⟨again, back', -, rfl, -⟩ := written_read_back.2 list found read
  refine ⟨valid, named, back, read, back', fun same => ?_⟩
  rw [same, back'] at back
  exact nomatch congrArg Settings.capacity (Except.ok.inj back)

end Settings
end DiskQueue
