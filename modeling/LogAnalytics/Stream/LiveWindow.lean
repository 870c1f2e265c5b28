import LogAnalytics.Lib.Expiry
import LogAnalytics.Lib.Rounding
import LogAnalytics.Lib.Table
import LogAnalytics.Stream.Processor
import LogAnalytics.Transformation.Enrichment
/-!
# The live window

`LiveWindow` with its age. `snapshot` lets old events go at the front of the queue only, where the
first to arrive is; events carry times of their own, and one that is old may be behind one that is
not.
-/
open LogAnalytics.Lib

namespace LogAnalytics.Stream

/-- A window of events, with `max_age` in microseconds. -/
structure RollingWindow extends LiveWindow LogEvent where
  maxAge : Int := 300 * 10 ^ 6

/-- What a snapshot says of events, if there are any. -/
structure LiveMetrics where
  errors : Nat
  errorRate : ℚ
  eventsPerSecond : ℚ
  p95LatencyMs : ℚ
  services : List (Text × Nat)
  oldest : Clock
  newest : Clock

structure LiveReport where
  windowSeconds : ℚ
  events : Nat
  metrics : Option LiveMetrics := none

namespace RollingWindow

/-- `max_age.total_seconds()` -/
def seconds (maxAge : Int) : ℚ := maxAge / 10 ^ 6

/-- The latencies, the least first. -/
def latencies (events : List LogEvent) : List ℚ :=
  (events.filterMap fun event => match event.body.responseTimeMs with
    | some (.finite q) => some q
    | _ => none).insertionSort (· ≤ ·)

/-- `round(latencies[int(len(latencies) * 0.95)], 3) if latencies else 0.0` -/
def p95 (latencies : List ℚ) : ℚ := ((latencies[latencies.length * 19 / 20]?).map (roundTo 3)).getD 0

/-- How many events each service has, the first named first. -/
def services (events : List LogEvent) : Table Text Nat :=
  events.foldl (fun services event =>
    match event.body.service with
    | some service => if service = [] then services else services.put service ((services.get service).getD 0 + 1)
    | none => services) []

/-- What `snapshot` says of the events in the window. -/
def report (maxAge : Int) (events : List LogEvent) : Except Exn LiveReport :=
  match events.head?, events.getLast? with
  | some oldest, some newest =>
    if maxAge = 0 then .error ⟨.other "ZeroDivisionError", "division by zero"⟩
    else
      let errors := events.countP (·.body.isError)
      .ok {
        windowSeconds := seconds maxAge
        events := events.length
        metrics := some {
          errors := errors
          errorRate := roundTo 6 ((errors : ℚ) / events.length)
          eventsPerSecond := roundTo 3 ((events.length : ℚ) / seconds maxAge)
          p95LatencyMs := p95 (latencies events)
          services := ((services events).mergeSort fun a b => b.2 ≤ a.2).take 10
          oldest := oldest.timestamp
          newest := newest.timestamp } }
  | _, _ => .ok { windowSeconds := seconds maxAge, events := 0 }

/-- The event is older than the window. -/
def isOld (cutoff : Clock) (event : LogEvent) : Bool := event.timestamp < cutoff

/-- `_prune` -/
def prune (now : Clock) (w : RollingWindow) : Except Exn RollingWindow := do
  let cutoff ← now.add (-w.maxAge)
  .ok { w with events := w.events.dropWhile (isOld cutoff) }

def snapshot (now : Clock) (w : RollingWindow) : Except Exn LiveReport × RollingWindow :=
  match w.prune now with
  | .error exn => (.error exn, w)
  | .ok w => (report w.maxAge w.events, w)

/-! ## Runs -/

/-- What is done with a window. -/
inductive Op where
  | add (event : LogEvent)
  | snapshot (now : Clock)

def step (w : RollingWindow) : Op → RollingWindow
  | .add event => { w with toLiveWindow := w.toLiveWindow.add event }
  | .snapshot now => (w.snapshot now).2

def run (w : RollingWindow) (ops : List Op) : RollingWindow := ops.foldl step w

/-- The events added in the course of a run. -/
def added (ops : List Op) : List LogEvent :=
  ops.filterMap fun
    | .add event => some event
    | .snapshot _ => none

/-- The events a snapshot should be about. -/
def recent (maxEvents : Nat) (cutoff : Clock) (came : List LogEvent) : List LogEvent :=
  (came.rtake maxEvents).filter fun event => cutoff ≤ event.timestamp

/-- The snapshot reports on the recent events, and on no others. -/
def Reports (w : RollingWindow) (came : List LogEvent) (now : Clock) : Prop :=
  ∃ cutoff answer, now.add (-w.maxAge) = .ok cutoff ∧ (w.snapshot now).1 = .ok answer ∧
    (w.snapshot now).2.events = recent w.maxEvents cutoff came ∧
    report w.maxAge (recent w.maxEvents cutoff came) = .ok answer

/-- The events among the last ones that an earlier snapshot has let go. -/
def letGo (w : RollingWindow) (came : List LogEvent) : List LogEvent :=
  (came.rtake w.maxEvents).take ((came.rtake w.maxEvents).length - w.events.length)

/-- No old event is behind one that is not, none that was let go is recent again, and if the
window has no length there is nothing to report. -/
def InOrder (w : RollingWindow) (came : List LogEvent) (now : Clock) : Prop :=
  ∃ cutoff, now.add (-w.maxAge) = .ok cutoff ∧
    (w.events.Pairwise fun first later => later.timestamp < cutoff → first.timestamp < cutoff) ∧
    (∀ event ∈ w.letGo came, event.timestamp < cutoff) ∧
    (w.maxAge = 0 → ∀ event ∈ w.events, event.timestamp < cutoff)

/-- A window as it is made. -/
def new (maxAge : Int) (maxEvents : Nat) : RollingWindow := { maxEvents := maxEvents, maxAge := maxAge }

theorem run_concat (w : RollingWindow) (ops : List Op) (op : Op) : run w (ops ++ [op]) = step (run w ops) op :=
  List.foldl_concat _ _ _ _

/-! ## What a window holds -/

section
variable {w : RollingWindow} {now cutoff : Clock} {came : List LogEvent}

theorem snapshot_ok (h : now.add (-w.maxAge) = .ok cutoff) :
    w.snapshot now = (report w.maxAge (w.events.dropWhile (isOld cutoff)),
      { w with events := w.events.dropWhile (isOld cutoff) }) := by
  rw [snapshot, prune, h]
  rfl

theorem snapshot_error {exn : Exn} (h : now.add (-w.maxAge) = .error exn) : w.snapshot now = (.error exn, w) := by
  rw [snapshot, prune, h]
  rfl

/-- A run changes neither bound, and keeps the end of what came in. -/
structure Keeps (maxAge : Int) (maxEvents : Nat) (came : List LogEvent) (w : RollingWindow) : Prop where
  age : w.maxAge = maxAge
  bound : w.maxEvents = maxEvents
  holds : HoldsEnd maxEvents came w.events

theorem Keeps.snapshot {maxAge : Int} {maxEvents : Nat} (h : Keeps maxAge maxEvents came w) (now : Clock) :
    Keeps maxAge maxEvents came (w.snapshot now).2 := by
  cases hcutoff : now.add (-w.maxAge) with
  | error exn => rwa [snapshot_error hcutoff]
  | ok cutoff =>
    rw [snapshot_ok hcutoff]
    exact ⟨h.age, h.bound, h.holds.dropWhile _⟩

theorem Keeps.add {maxAge : Int} {maxEvents : Nat} (h : Keeps maxAge maxEvents came w) (event : LogEvent) :
    Keeps maxAge maxEvents (came ++ [event]) (w.step (.add event)) := by
  obtain ⟨rfl, rfl, hholds⟩ := h
  exact ⟨rfl, rfl, hholds.push event⟩

theorem keeps_run (maxAge : Int) (maxEvents : Nat) (ops : List Op) :
    Keeps maxAge maxEvents (added ops) (run (new maxAge maxEvents) ops) := by
  induction ops using List.reverseRecOn with
  | nil => exact ⟨rfl, rfl, HoldsEnd.nil⟩
  | append_singleton ops op ih =>
    rw [run_concat, added, List.filterMap_append]
    cases op with
    | add event => exact ih.add event
    | snapshot now => exact (List.append_nil (added ops)).symm ▸ ih.snapshot now

/-- What came in last is what was let go and what is held. -/
theorem letGo_append (h : HoldsEnd w.maxEvents came w.events) : w.letGo came ++ w.events = came.rtake w.maxEvents := by
  obtain ⟨gone, hgone⟩ := h
  have hletGo : w.letGo came = gone := by
    rw [letGo, ← hgone, List.length_append, Nat.add_sub_cancel, List.take_left]
  rw [hletGo, hgone]

theorem not_isOld : (fun event => !isOld cutoff event) = fun event : LogEvent => decide (cutoff ≤ event.timestamp) := by
  funext event
  rw [isOld, ← decide_not]
  exact decide_eq_decide.2 Nat.not_lt

/-- The window has exactly the recent events when the old ones come first and none was let go. -/
theorem dropWhile_eq_recent_iff (h : HoldsEnd w.maxEvents came w.events) :
    w.events.dropWhile (isOld cutoff) = recent w.maxEvents cutoff came ↔
      (∀ event ∈ w.letGo came, event.timestamp < cutoff) ∧
        w.events.Pairwise fun first later => later.timestamp < cutoff → first.timestamp < cutoff := by
  rw [recent, ← not_isOld, ← letGo_append h, dropWhile_eq_filter_append_iff]
  simp only [isOld, decide_eq_true_eq]

/-- Only a window without length has no report, of events that there are. -/
theorem report_ok_iff {maxAge : Int} {events : List LogEvent} :
    (∃ answer, report maxAge events = .ok answer) ↔ (maxAge = 0 → events = []) := by
  unfold report
  cases events with
  | nil => exact iff_of_true ⟨_, rfl⟩ fun _ => rfl
  | cons event rest =>
    rw [List.head?_cons, List.getLast?_cons]
    dsimp only
    split
    · next hzero => exact iff_of_false (by rintro ⟨_, h⟩; cases h) fun h => List.cons_ne_nil _ _ (h hzero)
    · next hne => exact iff_of_true ⟨_, rfl⟩ fun h => absurd h hne

/-- A snapshot reports exactly the recent events when the window is in order. -/
theorem reports_iff (h : HoldsEnd w.maxEvents came w.events) : Reports w came now ↔ InOrder w came now := by
  cases hcutoff : now.add (-w.maxAge) with
  | error exn =>
    refine iff_of_false ?_ ?_
    · rintro ⟨_, _, hok, -⟩
      rw [hcutoff] at hok
      cases hok
    · rintro ⟨_, hok, -⟩
      rw [hcutoff] at hok
      cases hok
  | ok cutoff =>
    have hsnapshot := snapshot_ok hcutoff
    have hrecent := @dropWhile_eq_recent_iff w cutoff came h
    constructor
    · rintro ⟨_, answer, hok, -, hevents, hreport⟩
      obtain rfl : cutoff = _ := Except.ok.inj (hcutoff.symm.trans hok)
      rw [hsnapshot] at hevents
      obtain ⟨hgone, hheld⟩ := hrecent.1 hevents
      refine ⟨cutoff, hcutoff, hheld, hgone, fun hzero event hevent => ?_⟩
      have hnone := report_ok_iff.1 ⟨answer, hreport⟩ hzero
      rw [← hevents, List.dropWhile_eq_nil_iff] at hnone
      exact of_decide_eq_true (hnone event hevent)
    · rintro ⟨_, hok, hheld, hgone, hzero⟩
      obtain rfl : cutoff = _ := Except.ok.inj (hcutoff.symm.trans hok)
      have hevents := hrecent.2 ⟨hgone, hheld⟩
      obtain ⟨answer, hanswer⟩ := (@report_ok_iff w.maxAge (recent w.maxEvents cutoff came)).2 fun hage => by
        rw [← hevents, List.dropWhile_eq_nil_iff]
        exact fun event hevent => decide_eq_true (hzero hage event hevent)
      exact ⟨cutoff, answer, hcutoff, by rw [hsnapshot, hevents]; exact hanswer, by rw [hsnapshot]; exact hevents, hanswer⟩

end

/-- In every run, a snapshot reports exactly the recent ones of the events added so far when the
window is in order. -/
theorem run_reports_iff (maxAge : Int) (maxEvents : Nat) (ops : List Op) (now : Clock) :
    Reports (run (new maxAge maxEvents) ops) (added ops) now ↔ InOrder (run (new maxAge maxEvents) ops) (added ops) now := by
  have h := keeps_run maxAge maxEvents ops
  exact reports_iff (by rw [h.bound]; exact h.holds)

/-! ## An event that comes late -/

def eventAt (timestamp : Clock) : LogEvent where
  eventId := ""
  timestamp := timestamp
  ingestedAt := timestamp
  body := { source := [], sourceType := .stream, environment := .production, rawMessage := [], parser := [] }

/-- Ten minutes into 1990. -/
def tenPast : Clock := ⟨Timeutil.minTimestamp.micros + 600 * 10 ^ 6, by decide⟩

/-- An event ten minutes old comes behind one of this moment, and stays in a window of five. -/
theorem late_event_reported :
    ¬Reports (run (new (300 * 10 ^ 6) 10) [.add (eventAt tenPast), .add (eventAt Timeutil.minTimestamp)])
      (added [.add (eventAt tenPast), .add (eventAt Timeutil.minTimestamp)]) tenPast := by
  have h := keeps_run (300 * 10 ^ 6) 10 [.add (eventAt tenPast), .add (eventAt Timeutil.minTimestamp)]
  rw [reports_iff (by rw [h.bound]; exact h.holds)]
  rintro ⟨cutoff, hcutoff, horder, -⟩
  have hevents : (run (new (300 * 10 ^ 6) 10) [.add (eventAt tenPast), .add (eventAt Timeutil.minTimestamp)]).events =
      [eventAt tenPast, eventAt Timeutil.minTimestamp] := rfl
  have hmicros := Clock.ofMicros_ok.1 hcutoff
  rw [h.age] at hmicros
  rw [hevents, List.pairwise_pair] at horder
  have hold : Timeutil.minTimestamp.micros < cutoff.micros := by
    have htenPast : tenPast.micros = Timeutil.minTimestamp.micros + 600 * 10 ^ 6 := rfl
    omega
  have hnew := Clock.lt_def.1 (horder (Clock.lt_def.2 hold))
  have htenPast : (eventAt tenPast).timestamp.micros = tenPast.micros := rfl
  omega

end RollingWindow

end LogAnalytics.Stream
