/-
Module: DiskQueue.Proofs.Announcements
Purpose: Every failure is counted, and is either announced or kept back until the next
  announcement tells of it.
Trusted boundary: none
Main exports:
  FailureTally.counted, FailureTally.Entry, FailureTally.entries, FailureTally.announced,
  FailureTally.Throttled, FailureTally.failures_throttled
-/
import DiskQueue.FailureTally
import Mathlib.Algebra.Ring.Nat
import Mathlib.Data.List.Basic
import Mathlib.Data.List.Induction

namespace DiskQueue

/-!
A run of reports is read entry by entry: each report with the instant at which it comes and
the tally that it meets. What is announced is told by the tally itself, so the number of
failures that an announcement resets is the number of those kept back in the tally that it
meets. Instants and the interval are numbers of one unit, whatever that is.
-/

/-- Whether a report tells of a failure. -/
def Report.isLost : Report → Bool
  | .stored => false
  | .lost _ => true

namespace FailureTally

/-- A report with the instant at which it comes and the tally that it meets. -/
structure Entry where
  met : FailureTally
  instant : Nat
  report : Report

namespace Entry

/-- The tally after a report. -/
def left (entry : Entry) : FailureTally := (entry.met.record entry.instant entry.report).1

/-- The event by which a report is announced, if it is. -/
def event? (entry : Entry) : Option Event := (entry.met.record entry.instant entry.report).2

/-- Whether a report is announced. -/
def isAnnounced (entry : Entry) : Bool := entry.event?.isSome

/-- Whether a report tells of a failure. -/
def isLost (entry : Entry) : Bool := entry.report.isLost

/-- The failures that an announcement tells of: its own one, and those kept back before it,
whose count it resets. -/
def covered (entry : Entry) : Nat := 1 + entry.met.suppressed.toNat

end Entry

/-- The tally after reports at instants, the first one first. -/
def counted (tally : FailureTally) (reports : List (Nat × Report)) : FailureTally :=
  reports.foldl (fun tally timed => (Entry.mk tally timed.1 timed.2).left) tally

/-- The reports of a run with the tallies that they meet. -/
def entries (tally : FailureTally) : List (Nat × Report) → List Entry
  | [] => []
  | timed :: rest =>
    let entry := Entry.mk tally timed.1 timed.2
    entry :: entry.left.entries rest

/-- The entries of a run that are announced. -/
def announced (tally : FailureTally) (reports : List (Nat × Report)) : List Entry :=
  (tally.entries reports).filter Entry.isAnnounced

/-- The entry of a report that comes after others. -/
def entryAfter (tally : FailureTally) (reports : List (Nat × Report)) (timed : Nat × Report) :
    Entry :=
  ⟨tally.counted reports, timed.1, timed.2⟩

variable {tally : FailureTally} {reports : List (Nat × Report)} {timed : Nat × Report}
  {entry : Entry}

/-! ### One report -/

namespace Entry

/-- A failure is announced if it is due, and nothing else is. -/
theorem event?_eq (entry : Entry) : entry.event? =
    match entry.report with
    | .stored => none
    | .lost reason => if entry.met.isDue entry.instant then some (announcement reason) else none := by
  obtain ⟨met, now, report⟩ := entry
  cases report with
  | stored => rfl
  | lost reason => by_cases due : met.isDue now <;> simp [event?, record, due]

theorem isAnnounced_eq (entry : Entry) :
    entry.isAnnounced = (entry.isLost && entry.met.isDue entry.instant) := by
  rw [isAnnounced, event?_eq, isLost]
  cases entry.report with
  | stored => rfl
  | lost reason => by_cases due : entry.met.isDue entry.instant <;> simp [Report.isLost, due]

/-- What a report does to a tally, number by number. -/
theorem left_eq (entry : Entry) : entry.left =
    { entry.met with
      successes := if entry.isLost then entry.met.successes else entry.met.successes + 1
      failures := if entry.isLost then entry.met.failures + 1 else entry.met.failures
      suppressed :=
        if entry.isAnnounced then 0
        else if entry.isLost then entry.met.suppressed + 1 else entry.met.suppressed
      lastAnnounced :=
        if entry.isAnnounced then some entry.instant else entry.met.lastAnnounced } := by
  rw [isAnnounced_eq]
  obtain ⟨met, now, report⟩ := entry
  cases report with
  | stored => simp [left, isLost, Report.isLost, record]
  | lost reason =>
    by_cases due : met.isDue now <;> simp [left, isLost, Report.isLost, record, due]

@[simp] theorem intervalMs_left (entry : Entry) : entry.left.intervalMs = entry.met.intervalMs := by
  rw [left_eq]

@[simp] theorem successes_left (entry : Entry) : entry.left.successes
    = if entry.isLost then entry.met.successes else entry.met.successes + 1 := by
  rw [left_eq]

@[simp] theorem failures_left (entry : Entry) : entry.left.failures
    = if entry.isLost then entry.met.failures + 1 else entry.met.failures := by
  rw [left_eq]

@[simp] theorem suppressed_left (entry : Entry) : entry.left.suppressed
    = if entry.isAnnounced then 0
      else if entry.isLost then entry.met.suppressed + 1 else entry.met.suppressed := by
  rw [left_eq]

@[simp] theorem lastAnnounced_left (entry : Entry) : entry.left.lastAnnounced
    = if entry.isAnnounced then some entry.instant else entry.met.lastAnnounced := by
  rw [left_eq]

end Entry

/-! ### Runs -/

theorem counted_concat (tally : FailureTally) (reports : List (Nat × Report))
    (timed : Nat × Report) :
    tally.counted (reports ++ [timed]) = (tally.entryAfter reports timed).left :=
  List.foldl_append

theorem entries_concat (tally : FailureTally) (reports : List (Nat × Report))
    (timed : Nat × Report) :
    tally.entries (reports ++ [timed]) = tally.entries reports ++ [tally.entryAfter reports timed] := by
  induction reports generalizing tally with
  | nil => rfl
  | cons first rest ih =>
    rw [List.cons_append, entries, ih]
    rfl

theorem announced_concat (tally : FailureTally) (reports : List (Nat × Report))
    (timed : Nat × Report) :
    tally.announced (reports ++ [timed]) = tally.announced reports ++
      if (tally.entryAfter reports timed).isAnnounced then [tally.entryAfter reports timed]
      else [] := by
  rw [announced, entries_concat, List.filter_append, List.filter_cons, List.filter_nil, announced]

/-- An entry of a run splits its reports. -/
theorem exists_reports {earlier later : List Entry}
    (h : tally.entries reports = earlier ++ entry :: later) :
    ∃ before behind, reports = before ++ (entry.instant, entry.report) :: behind ∧
      earlier = tally.entries before ∧ entry.met = tally.counted before ∧
      later = entry.left.entries behind := by
  induction reports generalizing tally earlier with
  | nil => simp [entries] at h
  | cons timed rest ih =>
    cases earlier with
    | nil =>
      obtain ⟨rfl, rfl⟩ := List.cons.inj h
      exact ⟨[], rest, rfl, rfl, rfl, rfl⟩
    | cons first earlier =>
      obtain ⟨rfl, tail⟩ := List.cons.inj h
      obtain ⟨before, behind, rfl, rfl, met, later⟩ := ih tail
      exact ⟨timed :: before, behind, rfl, rfl, met, later⟩

theorem map_entries (tally : FailureTally) (reports : List (Nat × Report)) :
    (tally.entries reports).map (fun entry => (entry.instant, entry.report)) = reports := by
  induction reports generalizing tally with
  | nil => rfl
  | cons timed rest ih => rw [entries, List.map_cons, ih]

theorem countP_entries (tally : FailureTally) (reports : List (Nat × Report)) :
    (tally.entries reports).countP Entry.isLost = reports.countP fun timed => timed.2.isLost := by
  conv_rhs => rw [← map_entries tally reports, List.countP_map]
  rfl

/-! ### What the numbers of a tally mean -/

theorem intervalMs_counted (tally : FailureTally) (reports : List (Nat × Report)) :
    (tally.counted reports).intervalMs = tally.intervalMs := by
  induction reports using List.reverseRecOn with
  | nil => rfl
  | append_singleton reports timed ih => rw [counted_concat, Entry.intervalMs_left, ← ih, entryAfter]

theorem successes_counted (tally : FailureTally) (reports : List (Nat × Report)) :
    (tally.counted reports).successes
      = tally.successes + UInt64.ofNat (reports.countP fun timed => !timed.2.isLost) := by
  induction reports using List.reverseRecOn with
  | nil => simp [counted]
  | append_singleton reports timed ih =>
    rw [counted_concat, Entry.successes_left, entryAfter, ih, List.countP_append,
      List.countP_singleton, Entry.isLost]
    cases timed.2.isLost <;> simp [UInt64.ofNat_add, UInt64.add_assoc]

theorem failures_counted (tally : FailureTally) (reports : List (Nat × Report)) :
    (tally.counted reports).failures
      = tally.failures + UInt64.ofNat (reports.countP fun timed => timed.2.isLost) := by
  induction reports using List.reverseRecOn with
  | nil => simp [counted]
  | append_singleton reports timed ih =>
    rw [counted_concat, Entry.failures_left, entryAfter, ih, List.countP_append,
      List.countP_singleton, Entry.isLost]
    cases timed.2.isLost <;> simp [UInt64.ofNat_add, UInt64.add_assoc]

theorem toNat_failures (interval : Nat)
    (few : (reports.countP fun timed => timed.2.isLost) < 2 ^ 64) :
    ((start interval).counted reports).failures.toNat
      = reports.countP fun timed => timed.2.isLost := by
  rw [failures_counted, start, UInt64.zero_add, UInt64.toNat_ofNat', Nat.mod_eq_of_lt few]

/-- The tally knows when the last announcement was. -/
theorem lastAnnounced_counted (interval : Nat) (reports : List (Nat × Report)) :
    ((start interval).counted reports).lastAnnounced
      = ((start interval).announced reports).getLast?.map Entry.instant := by
  induction reports using List.reverseRecOn with
  | nil => rfl
  | append_singleton reports timed ih =>
    rw [counted_concat, announced_concat, Entry.lastAnnounced_left]
    split
    · rw [List.getLast?_concat, Option.map_some]
    · rw [List.append_nil, ← ih, entryAfter]

/-- A failure is announced at once if none was before, and else if the last announcement is
the interval back. -/
theorem isAnnounced_entryAfter (interval : Nat) (reports : List (Nat × Report))
    (timed : Nat × Report) :
    ((start interval).entryAfter reports timed).isAnnounced = true ↔ timed.2.isLost = true ∧
      ∀ last ∈ ((start interval).announced reports).getLast?,
        interval ≤ timed.1 - last.instant := by
  rw [Entry.isAnnounced_eq, Bool.and_eq_true]
  refine and_congr_right fun _ => ?_
  simp only [entryAfter, isDue, lastAnnounced_counted, intervalMs_counted]
  cases ((start interval).announced reports).getLast? with
  | none => simp
  | some last =>
    rw [Option.map_some, decide_eq_true_eq]
    simp [start]

/-- Nothing is announced before the first failure, which is. -/
theorem announced_eq_nil_iff (interval : Nat) (reports : List (Nat × Report)) :
    (start interval).announced reports = [] ↔
      ∀ entry ∈ (start interval).entries reports, entry.isLost = false := by
  induction reports using List.reverseRecOn with
  | nil => simp [announced, entries]
  | append_singleton reports timed ih =>
    have lost : ((start interval).entryAfter reports timed).isLost = timed.2.isLost := rfl
    rw [announced_concat, List.append_eq_nil_iff, entries_concat, List.forall_mem_append, ← ih,
      List.forall_mem_singleton, lost]
    refine and_congr_right fun none => ?_
    have announces := isAnnounced_entryAfter interval reports timed
    rw [none] at announces
    cases isLost : timed.2.isLost <;> simp [announces, isLost]

/-- The failures that announcements tell of and those kept back are all of them. -/
theorem sum_covered (interval : Nat)
    (few : (reports.countP fun timed => timed.2.isLost) < 2 ^ 64) :
    (((start interval).announced reports).map Entry.covered).sum
        + ((start interval).counted reports).suppressed.toNat
      = reports.countP fun timed => timed.2.isLost := by
  induction reports using List.reverseRecOn with
  | nil => rfl
  | append_singleton reports timed ih =>
    rw [List.countP_append, List.countP_singleton] at few ⊢
    have before := ih (by omega)
    have announces := isAnnounced_entryAfter interval reports timed
    have suppressed := Entry.suppressed_left ((start interval).entryAfter reports timed)
    have lost : ((start interval).entryAfter reports timed).isLost = timed.2.isLost := rfl
    have met : ((start interval).entryAfter reports timed).met = (start interval).counted reports := rfl
    rw [announced_concat, counted_concat, List.map_append, List.sum_append, suppressed, lost, met]
    split
    · rename_i announced
      rw [if_pos (announces.mp announced).1, List.map_singleton, List.sum_singleton, Entry.covered,
        met, UInt64.toNat_zero]
      omega
    · split
      · rename_i lost
        rw [if_pos lost] at few
        rw [List.map_nil, List.sum_nil, UInt64.toNat_add, UInt64.toNat_one,
          Nat.mod_eq_of_lt (by omega)]
        omega
      · exact before

/-- What is kept back at the end are the failures since the last announcement. -/
theorem suppressed_counted {interval : Nat}
    (few : (reports.countP fun timed => timed.2.isLost) < 2 ^ 64) {earlier later : List Entry}
    (run : (start interval).entries reports = earlier ++ entry :: later)
    (announces : entry.isAnnounced = true) (none : ∀ other ∈ later, other.isAnnounced = false) :
    ((start interval).counted reports).suppressed.toNat = later.countP Entry.isLost := by
  obtain ⟨before, behind, whole, front, met, -⟩ := exists_reports run
  have lost : entry.isLost = true := by
    rw [Entry.isAnnounced_eq, Bool.and_eq_true] at announces
    exact announces.1
  have rest : later.filter Entry.isAnnounced = [] :=
    List.filter_eq_nil_iff.mpr fun other mem => by simp [none other mem]
  have fewBefore : (before.countP fun timed => timed.2.isLost) < 2 ^ 64 := by
    rw [whole, List.countP_append] at few
    omega
  -- The account of the whole run, less that of the reports before the announcement.
  have total := sum_covered interval few
  have first := sum_covered interval fewBefore
  rw [announced, run, List.filter_append, List.filter_cons, if_pos announces, rest,
    List.map_append, List.sum_append, List.map_singleton, List.sum_singleton, Entry.covered, met,
    ← countP_entries (start interval), run, List.countP_append, List.countP_cons, if_pos lost]
    at total
  rw [announced, ← countP_entries (start interval), ← front] at first
  omega

theorem suppressed_of_none {interval : Nat}
    (few : (reports.countP fun timed => timed.2.isLost) < 2 ^ 64)
    (none : (start interval).announced reports = []) :
    ((start interval).counted reports).suppressed = 0 := by
  have total := sum_covered interval few
  have lost : ((start interval).entries reports).countP Entry.isLost = 0 := by
    rw [List.countP_eq_zero]
    intro entry mem
    simp [(announced_eq_nil_iff interval reports).mp none entry mem]
  rw [none, ← countP_entries (start interval), lost] at total
  exact UInt64.toNat_inj.mp (Nat.eq_zero_of_add_eq_zero_left total)

/-! ### Instants that do not go back -/

/-- What is announced before a report came no later than it. -/
theorem instant_le {behind : List (Nat × Report)}
    (ordered : ((reports ++ timed :: behind).map Prod.fst).Pairwise (· ≤ ·))
    (mem : entry ∈ tally.announced reports) : entry.instant ≤ timed.1 := by
  have there : (entry.instant, entry.report) ∈ reports := by
    rw [← map_entries tally reports]
    exact List.mem_map_of_mem (List.mem_filter.mp mem).1
  rw [List.map_append, List.pairwise_append] at ordered
  exact ordered.2.2 _ (List.mem_map_of_mem there) _ (by simp)

/-- Announcements are at least the interval apart. -/
theorem pairwise_announced (interval : Nat)
    (ordered : (reports.map Prod.fst).Pairwise (· ≤ ·)) :
    ((start interval).announced reports).Pairwise fun a b => a.instant + interval ≤ b.instant := by
  induction reports using List.reverseRecOn with
  | nil => exact List.Pairwise.nil
  | append_singleton reports timed ih =>
    have apart := ih (by
      rw [List.map_append] at ordered
      exact (List.pairwise_append.mp ordered).1)
    rw [announced_concat]
    split
    · rename_i announces
      have due := ((isAnnounced_entryAfter interval reports timed).mp announces).2
      refine List.pairwise_append.mpr ⟨apart, List.pairwise_singleton _ _, ?_⟩
      rintro entry mem _ (_ | ⟨_, ⟨⟩⟩)
      -- The last announcement is far enough back, and no other one is behind it.
      obtain ⟨front, last, whole⟩ :=
        (List.eq_nil_or_concat' _).resolve_left (List.ne_nil_of_mem mem)
      rw [whole] at apart due
      have far := due last List.getLast?_concat
      have past : last.instant ≤ timed.1 := instant_le ordered (by rw [whole]; simp)
      have upTo : entry.instant ≤ last.instant := by
        rw [whole] at mem
        rcases List.mem_append.mp mem with inFront | own
        · have between := (List.pairwise_append.mp apart).2.2 entry inFront last (by simp)
          omega
        · exact Nat.le_of_eq (congrArg Entry.instant (List.mem_singleton.mp own))
      show entry.instant + interval ≤ timed.1
      omega
    · rwa [List.append_nil]

/-! ### All together -/

/-- How the failures of a run are told of. A run may end after any of its reports. -/
structure Throttled (interval : Nat) (reports : List (Nat × Report)) : Prop where
  successes : ((start interval).counted reports).successes.toNat
    = reports.countP fun timed => !timed.2.isLost
  failures : ((start interval).counted reports).failures.toNat
    = reports.countP fun timed => timed.2.isLost
  announces : ∀ earlier entry later,
    (start interval).entries reports = earlier ++ entry :: later →
    (entry.isAnnounced = true ↔ entry.isLost = true ∧
      ((∀ other ∈ earlier, other.isLost = false) ∨
        ∃ last, (earlier.filter Entry.isAnnounced).getLast? = some last ∧
          last.instant + interval ≤ entry.instant))
  apart : ((start interval).announced reports).Pairwise
    fun a b => a.instant + interval ≤ b.instant
  suppressed : ∀ earlier entry later,
    (start interval).entries reports = earlier ++ entry :: later → entry.isAnnounced = true →
    (∀ other ∈ later, other.isAnnounced = false) →
    ((start interval).counted reports).suppressed.toNat = later.countP Entry.isLost
  unannounced : (start interval).announced reports = [] →
    ((start interval).counted reports).suppressed = 0
  balance : (((start interval).announced reports).map Entry.covered).sum
      + ((start interval).counted reports).suppressed.toNat
    = ((start interval).counted reports).failures.toNat

/-- Failures are counted, announced no more often than once in an interval, and told of by
the announcements; none is lost between them. -/
theorem failures_throttled (interval : Nat) (reports : List (Nat × Report))
    (ordered : (reports.map Prod.fst).Pairwise (· ≤ ·))
    (fewStored : (reports.countP fun timed => !timed.2.isLost) < 2 ^ 64)
    (fewLost : (reports.countP fun timed => timed.2.isLost) < 2 ^ 64) :
    Throttled interval reports where
  successes := by
    rw [successes_counted, start, UInt64.zero_add, UInt64.toNat_ofNat',
      Nat.mod_eq_of_lt fewStored]
  failures := toNat_failures interval fewLost
  announces := by
    intro earlier entry later run
    obtain ⟨before, behind, rfl, rfl, met, -⟩ := exists_reports run
    obtain ⟨tally, now, report⟩ := entry
    obtain rfl : tally = _ := met
    refine (isAnnounced_entryAfter interval before (now, report)).trans (and_congr_right fun _ => ?_)
    rw [← announced_eq_nil_iff, ← announced]
    cases isLast : ((start interval).announced before).getLast? with
    | none => simp [List.getLast?_eq_none_iff.mp isLast]
    | some last =>
      have mem := List.mem_of_getLast? isLast
      have past : last.instant ≤ now := instant_le ordered mem
      simp only [Option.mem_some_iff, forall_eq', List.ne_nil_of_mem mem, false_or,
        Option.some.injEq, exists_eq_left']
      omega
  apart := pairwise_announced interval ordered
  suppressed _ _ _ := suppressed_counted fewLost
  unannounced := suppressed_of_none fewLost
  balance := (sum_covered interval fewLost).trans (toNat_failures interval fewLost).symm

theorem failures_throttled_at_interval :
    let reports : List (Nat × Report) :=
      [(5, .lost "a"), (8, .lost "b"), (8, .stored), (15, .lost "c"), (24, .lost "d")]
    (reports.map Prod.fst).Pairwise (· ≤ ·) ∧
      (reports.countP fun timed => !timed.2.isLost) < 2 ^ 64 ∧
      (reports.countP fun timed => timed.2.isLost) < 2 ^ 64 ∧
      ((start 10).announced reports).map (fun entry => (entry.instant, entry.covered))
        = [(5, 1), (15, 2)] ∧
      (start 10).counted reports = ⟨10, 1, 4, 1, some 15⟩ ∧ Throttled 10 reports := by
  intro reports
  have ordered : (reports.map Prod.fst).Pairwise (· ≤ ·) := by decide
  have fewStored : (reports.countP fun timed => !timed.2.isLost) < 2 ^ 64 := by decide
  have fewLost : (reports.countP fun timed => timed.2.isLost) < 2 ^ 64 := by decide
  exact ⟨ordered, fewStored, fewLost, by decide, by decide,
    failures_throttled 10 reports ordered fewStored fewLost⟩

end FailureTally
end DiskQueue
