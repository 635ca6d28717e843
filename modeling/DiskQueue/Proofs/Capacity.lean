/-
Module: DiskQueue.Proofs.Capacity
Purpose: The capacity that a queue has, however it is asked for and whatever the queue is
  asked for afterwards.
Trusted boundary: none
Main exports:
  Queue.HasCapacity, Settings.run_resolve, Queue.Opened, Queue.hasCapacity_reached,
  Queue.CapacityRoutes, Queue.capacity_routes_agree
-/
import DiskQueue.Settings.Resolution
import DiskQueue.Proofs.Limits
import DiskQueue.Proofs.Requests
import DiskQueue.Proofs.SettingsText

namespace DiskQueue

open Json (IsObject Quotes)

/-!
A capacity is asked for by a number. It may stand in a settings file, as a number or as a
text, in a variable of the environment, on the command line, in the options of a queue, or
in a request to a queue that is open. On most of these ways it is handed on as a text, and
the text is read when the queue is opened.

The limits are applied where the number arrives, so a queue that is open has a capacity
within them, and no request but the one for a capacity changes it.
-/

namespace Settings

/-- What stands in the settings file that is found, or the defaults. -/
def found (process lookup : Environment) (chosen : Option Path) :
    Program (Except SettingsError Settings) := do
  let (file, _) ← locate process lookup chosen
  loadAny file

/-- Settings are resolved where the file that is found can be read, and what it says gives way
to the environment and to the command line. -/
theorem run_resolve (process lookup : Environment) (overrides : Overrides) (host : Host) :
    ((resolve process lookup overrides).run host).1
      = ((found process lookup overrides.file).run host).1.map fun settings =>
          let place := ((locate process lookup overrides.file).run host).1
          ⟨settings.override lookup overrides, place.1, place.2⟩ := by
  simp only [resolve, found, Program.run_andThen]
  cases ((loadAny _).run _).1 <;> rfl

/-- Where no file is named and there is no place for one, the settings are the defaults. -/
theorem run_found_of_unnamed {process lookup : Environment} (host : Host)
    (unnamed : nonEmpty? lookup fileVariable = none) (homeless : userDirectory? process = none) :
    ((found process lookup none).run host).1 = .ok default := by
  simp only [found, locate, unnamed, locateUserFile, homeless]
  rfl

end Settings

namespace Limits

/-- The number that is asked for, if one is. -/
def Wish.number? : Wish → Option Int64
  | .number n => some n
  | _ => none

end Limits

namespace Queue

variable {queue : Queue} {host : Host}

/-! ### What a capacity comes to -/

/-- The megabytes that are granted: what is asked for, moved between the limits, and the
default if nothing is asked for. -/
def granted : Option Int64 → Int
  | some n => max 1 (min 1000 n.toInt)
  | none => 10

/-- A queue has the capacity that is granted. It is within the limits, and its bytes are those
of so many megabytes. -/
structure HasCapacity (queue : Queue) (asked : Option Int64) : Prop where
  least : 1 ≤ queue.capacityMb
  most : queue.capacityMb ≤ 1000
  megabytes : (queue.capacityMb.toNat : Int) = granted asked
  bytes : queue.capacityBytes.toNat = queue.capacityMb.toNat * 1048576

theorem granted_bounds (asked : Option Int64) : 1 ≤ granted asked ∧ granted asked ≤ 1000 := by
  cases asked with
  | none => exact ⟨by decide, by decide⟩
  | some n =>
    have clamped : granted (some n) = max 1 (min 1000 n.toInt) := rfl
    omega

/-- The product for the bytes is far below the greatest word. -/
theorem hasCapacity_of_megabytes {asked : Option Int64}
    (megabytes : (queue.capacityMb.toNat : Int) = granted asked) : queue.HasCapacity asked := by
  obtain ⟨least, most⟩ := granted_bounds asked
  refine ⟨?_, ?_, megabytes, ?_⟩
  · rw [UInt64.le_iff_toNat_le, UInt64.toNat_one]
    omega
  · rw [UInt64.le_iff_toNat_le, show (1000 : UInt64).toNat = 1000 from rfl]
    omega
  · have factor : bytesPerMegabyte.toNat = 1048576 := rfl
    rw [capacityBytes, Saturating.toNat_mul, factor, Saturating.greatest, UInt64.size]
    omega

theorem toNat_closest (n : Int64) :
    ((Limits.storage.closest n).toNat : Int) = granted (some n) :=
  Limits.storage.closest_eq (by decide) n

theorem toNat_choose (text : Option String) :
    ((Limits.storage.choose text).toNat : Int) = granted (Limits.Wish.read text).number? := by
  rw [Limits.storage.toNat_choose (by decide)]
  cases Limits.Wish.read text <;> rfl

/-! ### Opening -/

/-- How an opening ends. Where there is no queue in the end, its directory could not be used or
its records could not be counted. -/
inductive Opened (directory : Path) (token : ProcessToken) (host : Host) (asked : Option Int64) :
    Except QueueError Queue → Prop
  | ready (queue : Queue) (capacity : queue.HasCapacity asked) :
      Opened directory token host asked (.ok queue)
  | unusable (e : QueueError) (check : ((ensureAccessible directory token).run host).1 = .error e) :
      Opened directory token host asked (.error e)
  | uncounted (e : IoError) (mid : Host) (later : host.Later mid)
      (count : ((Stored.totalSize directory FileNames.committed).run mid).1 = .error e) :
      Opened directory token host asked (.error (.read directory e))

theorem opened_openWith (options : Options) (fallback : Path) (token : ProcessToken) (host : Host) :
    Opened (options.directory.getD fallback) token host
      (Limits.Wish.read options.capacity).number? ((openWith options fallback token).run host).1 := by
  simp only [openWith, Program.run_andThen]
  have later := Program.later_run (ensureAccessible (options.directory.getD fallback) token) host
  split
  · rename_i e refused
    exact .unusable e refused
  simp only [Program.run_andThen]
  have laterLog := Program.later_run
    (Program.logAny (Limits.storage.chooseReport? options.capacity))
    ((ensureAccessible (options.directory.getD fallback) token).run host).2
  split
  · rename_i e failed
    exact .uncounted e _ (later.trans laterLog) failed
  · exact .ready _ (hasCapacity_of_megabytes (toNat_choose options.capacity))

/-- Options that ask for a number grant it, wherever a queue is opened with them. -/
def Options.Grants (options : Options) (n : Int64) : Prop :=
  ∀ fallback token host, Opened (options.directory.getD fallback) token host (some n)
    ((openWith options fallback token).run host).1

theorem Options.grants_of_capacity {options : Options} {n : Int64}
    (text : options.capacity = some (Capacity.megabytes n).asText) : options.Grants n := by
  intro fallback token host
  have opened := opened_openWith options fallback token host
  rwa [text, Limits.Wish.read_megabytes] at opened

/-! ### Requests -/

end Queue

/-- The capacity that a request sets. -/
def Request.capacity? : Request → Option Int64
  | .setCapacity megabytes => some megabytes
  | _ => none

namespace Queue

variable {queue : Queue} {host : Host}

/-- A program gives back a queue with a certain capacity, whatever host it runs on. -/
def Keeps {α : Type} (capacityMb : UInt64) (p : Program (α × Queue)) : Prop :=
  ∀ host, (p.run host).1.2.capacityMb = capacityMb

section Keeps

variable {α β : Type} {capacityMb : UInt64}

theorem Keeps.done {value : α} (h : queue.capacityMb = capacityMb) :
    Keeps capacityMb (pure (value, queue)) := fun _ => h

theorem Keeps.after {p : Program β} {f : β → Program (α × Queue)}
    (h : ∀ value, Keeps capacityMb (f value)) : Keeps capacityMb (p >>= f) := by
  intro host
  rw [Program.run_andThen]
  exact h _ _

theorem Keeps.bind {p : Program (β × Queue)} {f : β × Queue → Program (α × Queue)}
    (first : Keeps capacityMb p)
    (rest : ∀ value later, later.capacityMb = capacityMb → Keeps capacityMb (f (value, later))) :
    Keeps capacityMb (p >>= f) := by
  intro host
  rw [Program.run_andThen]
  exact rest _ _ (first host) _

theorem keeps_createStaging (same : queue.capacityMb = capacityMb) (attempts : Nat) :
    Keeps capacityMb (queue.createStaging attempts) := by
  induction attempts generalizing queue with
  | zero => exact .done same
  | succ attempts ih =>
    refine .after fun millis => .after fun created => ?_
    cases created with
    | ok => exact .done same
    | error e =>
      dsimp only
      split
      · exact .after fun _ => ih same
      · exact .done same

theorem keeps_publish (same : queue.capacityMb = capacityMb) (staged : Path) (size : UInt64) :
    Keeps capacityMb (queue.publish staged size) := by
  unfold publish
  split
  · exact .done same
  refine .after fun renamed => ?_
  cases renamed with
  | error e => exact .done same
  | ok => exact .after fun _ => .done same

theorem keeps_commitRecord (queue : Queue) (record : Bytes) :
    Keeps queue.capacityMb (queue.commitRecord record) := by
  refine (keeps_createStaging rfl maxStagingAttempts).bind fun created later same => ?_
  cases created with
  | error e => exact .done same
  | ok staged =>
    refine .after fun written => ?_
    cases written with
    | error e => exact .done same
    | ok => exact keeps_publish same _ _

theorem keeps_tryStore (queue : Queue) (record : Except IoError Bytes) :
    Keeps queue.capacityMb (queue.tryStore record) := by
  unfold tryStore
  split
  · exact .done rfl
  split
  · exact .done rfl
  · exact keeps_commitRecord queue _

theorem keeps_consume (same : queue.capacityMb = capacityMb) (claim : Claim) :
    Keeps capacityMb (queue.consume claim) := by
  refine .after fun found => ?_
  cases found with
  | error e => exact .done same
  | ok found =>
    refine .after fun renamed => ?_
    cases renamed with
    | error e => exact .done same
    | ok => exact .after fun _ => .done same

theorem keeps_tryDequeue (queue : Queue) : Keeps queue.capacityMb queue.tryDequeue := by
  refine .after ?_
  rintro ⟨e | _ | claim, candidates⟩
  · exact .done rfl
  · exact .done rfl
  · have consumed : Keeps queue.capacityMb ({ queue with candidates := candidates }.consume claim) :=
      keeps_consume rfl claim
    exact consumed.bind fun _ _ same => .done same

/-- Of all requests only the one for a capacity changes it. -/
theorem keeps_request {request : Request} (other : request.capacity? = none) (queue : Queue) :
    Keeps queue.capacityMb (request.program queue) := by
  cases request with
  | tryStore payload =>
    rw [Request.program, payload.tryEnqueue_eq]
    exact (keeps_tryStore queue _).bind fun _ _ same => .done same
  | store payload =>
    rw [Request.program, payload.enqueue_eq, bind_assoc]
    refine (keeps_tryStore queue _).bind fun result later same => ?_
    have reported : Keeps queue.capacityMb (reportStored (result, later)) := by
      cases result <;> exact .after fun _ => .done same
    exact reported.bind fun _ _ same => .done same
  | tryTake => exact (keeps_tryDequeue queue).bind fun _ _ same => .done same
  | take =>
    refine Keeps.bind ((keeps_tryDequeue queue).bind fun result later same => ?_)
      fun _ _ same => .done same
    cases result with
    | ok found => exact .done same
    | error e => exact .after fun _ => .done same
  | setCapacity megabytes => cases other
  | status => exact .after fun _ => .done rfl
  | sweep minAgeMs => exact .after fun _ => .done rfl

end Keeps

theorem run_setCapacity (queue : Queue) (megabytes : Int64) (host : Host) :
    ((queue.setCapacity megabytes).run host).1
      = { queue with capacityMb := Limits.storage.closest megabytes } := by
  simp only [setCapacity, Program.run_andThen]
  rfl

theorem capacityMb_request (request : Request) (queue : Queue) (host : Host) :
    ((request.program queue).run host).1.2.capacityMb
      = request.capacity?.elim queue.capacityMb Limits.storage.closest := by
  cases hCapacity : request.capacity? with
  | none => exact keeps_request hCapacity queue host
  | some megabytes =>
    cases request with
    | setCapacity megabytes =>
      cases hCapacity
      rw [Request.program, Program.run_andThen, run_setCapacity]
      rfl
    | tryStore | store | tryTake | take | status | sweep => cases hCapacity

/-- What is left of a queue after requests. Each of them comes upon a host of its own, since
others may be at work in between. -/
def reached (queue : Queue) (steps : List (Request × Host)) : Queue :=
  steps.foldl (fun queue step => ((step.1.program queue).run step.2).1.2) queue

/-- The capacity that was set last. -/
def lastSet (steps : List (Request × Host)) : Option Int64 :=
  (steps.filterMap fun step => step.1.capacity?).getLast?

/-- A queue has the capacity that was set last, or else the one it had. -/
theorem capacityMb_reached (queue : Queue) (steps : List (Request × Host)) :
    (queue.reached steps).capacityMb
      = (lastSet steps).elim queue.capacityMb Limits.storage.closest := by
  -- On the last step: it sets the capacity, or leaves what the steps before it have come to.
  induction steps using List.reverseRecOn with
  | nil => rfl
  | append_singleton steps step ih =>
    have last : queue.reached (steps ++ [step])
        = ((step.1.program (queue.reached steps)).run step.2).1.2 := by
      rw [reached, List.foldl_append]
      rfl
    have sets : lastSet (steps ++ [step]) = step.1.capacity?.or (lastSet steps) := by
      rw [lastSet, List.filterMap_append, List.getLast?_append]
      cases hStep : step.1.capacity? <;> simp [hStep, lastSet]
    rw [last, capacityMb_request, ih, sets]
    cases step.1.capacity? <;> rfl

theorem hasCapacity_reached {asked : Option Int64} (capacity : queue.HasCapacity asked)
    (steps : List (Request × Host)) :
    (queue.reached steps).HasCapacity ((lastSet steps).or asked) := by
  apply hasCapacity_of_megabytes
  rw [capacityMb_reached]
  cases lastSet steps with
  | none => exact capacity.megabytes
  | some n => exact toNat_closest n

/-! ### The ways to ask -/

/-- Settings come to a capacity of `n` megabytes wherever the settings file that is found can be
read: there is no other reason for which they are refused. -/
def Resolves (process lookup : Environment) (overrides : Settings.Overrides) (n : Int64) : Prop :=
  ∀ host,
    (∀ e, ((Settings.resolve process lookup overrides).run host).1 = .error e ↔
      ((Settings.found process lookup overrides.file).run host).1 = .error e) ∧
    ∀ resolved, ((Settings.resolve process lookup overrides).run host).1 = .ok resolved →
      (Options.ofSettings resolved.settings).Grants n

theorem resolves_of_override {process lookup : Environment} {overrides : Settings.Overrides}
    {n : Int64} (text : ∀ settings : Settings,
      (settings.override lookup overrides).capacityText = some (Capacity.megabytes n).asText) :
    Resolves process lookup overrides n := by
  intro host
  rw [Settings.run_resolve]
  cases ((Settings.found process lookup overrides.file).run host).1 with
  | error e => exact ⟨fun _ => by simp [Except.map], fun _ resolved => nomatch resolved⟩
  | ok settings =>
    refine ⟨fun _ => by simp [Except.map], ?_⟩
    rintro _ ⟨⟩
    exact Options.grants_of_capacity (text settings)

/-- The ways to ask for a number of megabytes. Each of them succeeds, and comes to what is granted
for the number. -/
structure CapacityRoutes (n : Int64) : Prop where
  /-- A settings file that holds the number, or its text. -/
  file : ∀ {text v : Bytes}, IsObject [("capacity_mb", v)] text →
    v = Decimal.ofInt n.toInt ∨ Quotes (Capacity.megabytes n).asText v →
    ∃ settings, Settings.ofText text = .ok settings ∧ (Options.ofSettings settings).Grants n
  environment : ∀ {process lookup : Environment} {overrides : Settings.Overrides},
    lookup Settings.capacityVariable = some (Capacity.megabytes n).asText →
    overrides.capacityMb = none → Resolves process lookup overrides n
  commandLine : ∀ {process lookup : Environment} {overrides : Settings.Overrides},
    overrides.capacityMb = some n → Resolves process lookup overrides n
  options : ∀ options : Options, (options.withCapacity n).Grants n
  request : ∀ (queue : Queue) (host : Host),
    ((queue.setCapacity n).run host).1.HasCapacity (some n)

theorem capacityRoutes (n : Int64) : CapacityRoutes n where
  file object written := by
    rcases written with rfl | quotes
    · exact ⟨_, Settings.ofText_of_capacity object (.megabytes n),
        Options.grants_of_capacity rfl⟩
    · exact ⟨_, Settings.ofText_of_capacity object (.text quotes),
        Options.grants_of_capacity rfl⟩
  environment set absent := by
    apply resolves_of_override
    intro settings
    rw [Settings.capacityText, Settings.override, absent, set]
    rfl
  commandLine given := by
    apply resolves_of_override
    intro settings
    rw [Settings.capacityText, Settings.override, given]
    rfl
  options options := Options.grants_of_capacity rfl
  request queue host := by
    rw [run_setCapacity]
    exact hasCapacity_of_megabytes (toNat_closest n)

/-- All ways to ask for a number of megabytes come to the same capacity, the closest allowed one.
The limits never stand in the way of opening a queue, whatever its options say. After any
requests, with anything happening between them, a queue has the capacity that is granted for
what was asked for last. -/
theorem capacity_routes_agree (n : Int64) (options : Options) (fallback : Path)
    (token : ProcessToken) (host : Host) :
    CapacityRoutes n ∧
      Limits.make? Limits.storage.name 1 1000 10 = .ok Limits.storage ∧
      Opened (options.directory.getD fallback) token host
        (Limits.Wish.read options.capacity).number? ((openWith options fallback token).run host).1 ∧
      ∀ queue after, (openWith options fallback token).run host = (.ok queue, after) →
        ∀ steps : List (Request × Host), (queue.reached steps).HasCapacity
          ((lastSet steps).or (Limits.Wish.read options.capacity).number?) := by
  have opened := opened_openWith options fallback token host
  refine ⟨capacityRoutes n, Limits.make?_storage, opened, ?_⟩
  intro queue after ran steps
  rw [ran] at opened
  cases opened with
  | ready _ capacity => exact hasCapacity_reached capacity steps

/-- The least number there is, in a settings file and in a variable, and a queue that is opened
with the greatest one and is set to less than nothing later. -/
theorem capacity_routes_agree_at_ends :
    let start := Host.quiet FileTree.empty [] 1700000000123 (.start 0)
    let options := Options.default.withCapacity Int64.maxValue
    let text := Utf8.encode "\x7b\"capacity_mb\": -9223372036854775808\x7d"
    let lookup : Environment := fun key =>
      if key = Settings.capacityVariable then some "-9223372036854775808" else none
    ∃ settings resolved queue after,
      Settings.ofText text = .ok settings ∧ (Options.ofSettings settings).Grants Int64.minValue ∧
      ((Settings.resolve (fun _ => none) lookup ⟨none, none, none⟩).run start).1 = .ok resolved ∧
      (Options.ofSettings resolved.settings).Grants Int64.minValue ∧
      (openWith options [Path.slash] ⟨"abcdefgh"⟩).run start = (.ok queue, after) ∧
      queue.HasCapacity (some Int64.maxValue) ∧
      (queue.reached [(.setCapacity (-5), after), (.tryTake, after)]).HasCapacity (some (-5)) := by
  intro start options text lookup
  let opened : Queue := { ofDefaults [Path.slash] ⟨"abcdefgh"⟩ 0 with capacityMb := 1000 }
  let after := ((openWith options [Path.slash] ⟨"abcdefgh"⟩).run start).2
  obtain ⟨routes, -, -, reached⟩ :=
    capacity_routes_agree Int64.minValue options [Path.slash] ⟨"abcdefgh"⟩ start
  have object : IsObject [("capacity_mb", Decimal.ofInt Int64.minValue.toInt)] text := by
    have spelled : text = 0x7B :: (Json.quoted "capacity_mb" ++ 0x3A :: 0x20 ::
        (Decimal.ofInt Int64.minValue.toInt ++ [0x7D])) := by decide +kernel
    rw [spelled]
    exact Json.isObject_member _ (Json.isValue_ofInt _)
  obtain ⟨settings, read, grants⟩ := routes.file object (.inl rfl)
  have resolves : Resolves (fun _ => none) lookup ⟨none, none, none⟩ Int64.minValue :=
    routes.environment (by decide +kernel) rfl
  have found : ((Settings.found (fun _ => none) lookup none).run start).1 = .ok .default :=
    Settings.run_found_of_unnamed start (by decide +kernel) rfl
  have ran : (openWith options [Path.slash] ⟨"abcdefgh"⟩).run start = (.ok opened, after) :=
    Program.run_eq (by decide +kernel)
  have asked : (Limits.Wish.read options.capacity).number? = some Int64.maxValue :=
    congrArg Limits.Wish.number? (Limits.Wish.read_megabytes Int64.maxValue)
  rw [asked] at reached
  cases hResolved : ((Settings.resolve (fun _ => none) lookup ⟨none, none, none⟩).run start).1 with
  | error e =>
    rw [((resolves start).1 e).mp hResolved] at found
    cases found
  | ok resolved =>
    exact ⟨settings, resolved, opened, after, read, grants, rfl, (resolves start).2 _ hResolved, ran,
      reached _ _ ran [], reached _ _ ran _⟩

end Queue
end DiskQueue
