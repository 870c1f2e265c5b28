import LogAnalytics.Lib.Loops
import LogAnalytics.Pipeline.Assembly
import LogAnalytics.Pipeline.Duplicates
/-!
# Event ids of two runs

The same records, parsed, transformed and validated at two times. An id is a hash of the
record's timestamp and of texts the clock has no part in, so the ids agree exactly when every
record is taken with the same time in both runs, or in neither.
-/

namespace LogAnalytics.LogPipeline

/-- A record and what surrounds it in each of the two runs. -/
structure Visit (F : Type) where
  record : RawRecord Dict
  first : RecordEnv F Clock
  second : RecordEnv F Clock

variable {K P F : Type} (u : Setup) (base : Stages Dict LogEvent K P Clock)

/-! ## What a record is taken with -/

/-- The fields of a record pass the schema, the transformation and the rules that look at
them. -/
def Fit (context : ParseContext) (record : RawRecord Dict) (inferred : Bool) : Prop :=
  ∃ parsed body, (u.extraction record context).outcome = .ok parsed ∧
    ((finalBody (u.parserName record) inferred parsed context).prepare u.py).wellFormed = true ∧
    u.transform ((finalBody (u.parserName record) inferred parsed context).prepare u.py) = .ok body ∧
    RecordValidator.soundBody u.py u.repr u.settings body = true

/-- At `now` the record has the time `ts`: the one read from it, or the present. -/
def TimeAt (now : Clock) (context : ParseContext) (record : RawRecord Dict) (inferred : Bool) (ts : Clock) : Prop :=
  ∃ read, (u.extraction record context).timestamp u.py now = .ok read ∧ inferred = read.isNone ∧ ts = read.getD now

/-- It is accepted with that time. -/
def Taken (now : Clock) (context : ParseContext) (record : RawRecord Dict) (ts : Clock) : Prop :=
  ∃ inferred, TimeAt u now context record inferred ts ∧ Fit u context record inferred ∧
    RecordValidator.InSeason u.settings now ts

/-- The record is taken with the same time at both, or at neither. -/
def Steady (context : ParseContext) (v : Visit F) : Prop :=
  ∀ ts, Taken u v.first.now (context.enter v.record) v.record ts ↔ Taken u v.second.now (context.enter v.record) v.record ts

def AllSteady : ParseContext → List (Visit F) → Prop
  | _, [] => True
  | context, v :: rest => Steady u context v ∧ AllSteady (context.enter v.record) rest

/-- The id of the record with a time. -/
def idAt (context : ParseContext) (record : RawRecord Dict) (ts : Clock) : Option String :=
  match (u.extraction record context).outcome with
  | .ok parsed => some (computeEventId u.py ts ((finalBody (u.parserName record) false parsed context).prepare u.py))
  | .error _ => none

/-- An inferred timestamp shows in the metadata only. -/
theorem computeEventId_inferred (ts : Clock) (name : Text) (inferred : Bool) (parsed : Parsed) (context : ParseContext) :
    computeEventId u.py ts ((finalBody name inferred parsed context).prepare u.py) =
      computeEventId u.py ts ((finalBody name false parsed context).prepare u.py) := rfl

/-- A record is accepted with the times it is taken with, and its id is that of the time. -/
theorem acceptedEvent_iff {now : Clock} {context : ParseContext} {record : RawRecord Dict} {id : String} :
    (∃ event, acceptedEvent (u.stages base) now context record = some event ∧ event.eventId = id) ↔
      ∃ ts, Taken u now (context.enter record) record ts ∧ idAt u (context.enter record) record ts = some id := by
  have hparse := u.parsePayload_eq base now record (context.enter record)
  constructor
  · rintro ⟨event, haccepted, rfl⟩
    obtain ⟨built, outcome, hbuilt, htransform, hvalidate, hvalid⟩ := acceptedEvent_eq_some.1 haccepted
    obtain ⟨read, parsed, htime, hparsed, hbuild⟩ := Extraction.event_ok_iff.1 (hparse ▸ hbuilt)
    obtain ⟨hformed, rfl⟩ := LogEvent.build_ok_iff.1 hbuild
    obtain ⟨body, hbody, rfl⟩ := Lib.map_ok.1 htransform
    obtain ⟨hseason, hsound⟩ := RecordValidator.validate_valid.1 ⟨outcome, hvalidate, hvalid⟩
    refine ⟨read.getD now, ⟨read.isNone, ⟨read, htime, rfl, rfl⟩, ⟨parsed, body, hparsed, hformed, hbody, hsound⟩, hseason⟩, ?_⟩
    rw [idAt, hparsed]
    rfl
  · rintro ⟨_, ⟨_, ⟨read, htime, rfl, rfl⟩, ⟨parsed, body, hparsed, hformed, hbody, hsound⟩, hseason⟩, hid⟩
    rw [idAt, hparsed] at hid
    have hbuild : LogEvent.build u.py now (read.getD now)
        (finalBody (u.parserName record) read.isNone parsed (context.enter record)) = .ok _ :=
      LogEvent.build_ok_iff.2 ⟨hformed, rfl⟩
    have hbuilt := hparse.trans (Extraction.event_ok_iff.2 ⟨read, parsed, htime, hparsed, hbuild⟩)
    let event : LogEvent :=
      { eventId := computeEventId u.py (read.getD now)
          ((finalBody (u.parserName record) read.isNone parsed (context.enter record)).prepare u.py)
        timestamp := read.getD now, ingestedAt := now, body := body }
    obtain ⟨outcome, hvalidate, hvalid⟩ : ∃ outcome,
        RecordValidator.validate u.py u.repr u.settings now event = .ok outcome ∧ outcome.valid = true :=
      RecordValidator.validate_valid.2 ⟨hseason, hsound⟩
    exact ⟨event, acceptedEvent_eq_some.2 ⟨_, outcome, hbuilt, Lib.map_ok.2 ⟨body, hbody, rfl⟩, hvalidate, hvalid⟩,
      Option.some.inj hid⟩

theorem TimeAt.unique {now : Clock} {context : ParseContext} {record : RawRecord Dict} {i j : Bool} {ts ts' : Clock}
    (h : TimeAt u now context record i ts) (h' : TimeAt u now context record j ts') : i = j ∧ ts = ts' := by
  obtain ⟨read, hread, rfl, rfl⟩ := h
  obtain ⟨read', hread', rfl, rfl⟩ := h'
  rw [hread] at hread'
  cases hread'
  exact ⟨rfl, rfl⟩

/-! ## Which records are steady -/

/-- With the same time at both a record is steady when the two clocks agree that it is in season. -/
theorem steady_iff_of_same {context : ParseContext} {v : Visit F} {i : Bool} {ts : Clock}
    (h : TimeAt u v.first.now (context.enter v.record) v.record i ts)
    (h' : TimeAt u v.second.now (context.enter v.record) v.record i ts) :
    Steady u context v ↔ (Fit u (context.enter v.record) v.record i →
      (RecordValidator.InSeason u.settings v.first.now ts ↔ RecordValidator.InSeason u.settings v.second.now ts)) := by
  have htaken : ∀ {now ts'}, TimeAt u now (context.enter v.record) v.record i ts →
      (Taken u now (context.enter v.record) v.record ts' ↔
        ts' = ts ∧ Fit u (context.enter v.record) v.record i ∧ RecordValidator.InSeason u.settings now ts) := by
    intro now ts' htime
    constructor
    · rintro ⟨j, htime', hfit, hseason⟩
      obtain ⟨rfl, rfl⟩ := htime.unique u htime'
      exact ⟨rfl, hfit, hseason⟩
    · rintro ⟨rfl, hfit, hseason⟩
      exact ⟨i, htime, hfit, hseason⟩
  constructor
  · intro hsteady hfit
    have := hsteady ts
    rw [htaken h, htaken h'] at this
    exact ⟨fun hs => (this.1 ⟨rfl, hfit, hs⟩).2.2, fun hs => (this.2 ⟨rfl, hfit, hs⟩).2.2⟩
  · intro hseason ts'
    rw [htaken h, htaken h']
    exact and_congr_right' (and_congr_right hseason)

/-- With two times it is steady only if neither is accepted. -/
theorem steady_iff_of_ne {context : ParseContext} {v : Visit F} {i j : Bool} {ts ts' : Clock}
    (h : TimeAt u v.first.now (context.enter v.record) v.record i ts)
    (h' : TimeAt u v.second.now (context.enter v.record) v.record j ts') (hne : ts ≠ ts') :
    Steady u context v ↔ ¬Taken u v.first.now (context.enter v.record) v.record ts ∧
      ¬Taken u v.second.now (context.enter v.record) v.record ts' := by
  constructor
  · intro hsteady
    refine ⟨fun htaken => ?_, fun htaken => ?_⟩
    · obtain ⟨_, htime, -⟩ := (hsteady ts).1 htaken
      exact hne (htime.unique u h').2
    · obtain ⟨_, htime, -⟩ := (hsteady ts').2 htaken
      exact hne (h.unique u htime).2
  · rintro ⟨hfirst, hsecond⟩ t
    refine ⟨fun htaken => ?_, fun htaken => ?_⟩
    · obtain ⟨_, htime, -⟩ := id htaken
      obtain ⟨-, rfl⟩ := h.unique u htime
      exact absurd htaken hfirst
    · obtain ⟨_, htime, -⟩ := id htaken
      obtain ⟨-, rfl⟩ := h'.unique u htime
      exact absurd htaken hsecond

/-- A record without a timestamp has the present. -/
theorem timeAt_missing {context : ParseContext} {record : RawRecord Dict} (now : Clock)
    (h : (u.extraction record context).stamps = []) : TimeAt u now context record true now :=
  ⟨none, by rw [Extraction.timestamp, h]; rfl, rfl, rfl⟩

/-- A record whose timestamp is all there has it whatever the clock says. -/
theorem timeAt_fixed {context : ParseContext} {record : RawRecord Dict} {value : Value} {year : Option Nat} {ts : Clock}
    (now : Clock) (h : (u.extraction record context).stamps = [{ value := value, defaultYear := year }])
    (hreading : Timeutil.reading u.py.toTimeParsers year value = .fixed (.ok (some ts))) :
    TimeAt u now context record false ts := by
  refine ⟨some ts, ?_, rfl, rfl⟩
  rw [Extraction.timestamp_singleton h, Stamp.read_eq, hreading]
  rfl

/-- One that leaves the year out has the same time all year, if it has one. -/
theorem timeAt_yearless {context : ParseContext} {record : RawRecord Dict} {value : Value} {year : Option Nat}
    {d : Datetime} {now now' ts : Clock} (h : (u.extraction record context).stamps = [{ value := value, defaultYear := year }])
    (hreading : Timeutil.reading u.py.toTimeParsers year value = .yearless d)
    (hyear : Lib.Calendar.yearOf now.day = Lib.Calendar.yearOf now'.day) (htime : TimeAt u now context record false ts) :
    TimeAt u now' context record false ts := by
  obtain ⟨read, hread, hsome, hts⟩ := htime
  have hsame : (u.extraction record context).timestamp u.py now' = (u.extraction record context).timestamp u.py now := by
    rw [Extraction.timestamp_singleton h, Extraction.timestamp_singleton h, Stamp.read_eq, Stamp.read_eq, hreading]
    exact Timeutil.Reading.at_yearless hyear.symm d
  refine ⟨read, hsame.trans hread, hsome, ?_⟩
  cases read with
  | none => cases hsome
  | some c => exact hts

/-! ## Two runs -/

theorem toList_injective {α : Type} : Function.Injective (fun x : Option α => x.toList) := by
  rintro (_ | a) (_ | b) h
  · rfl
  · cases h
  · cases h
  · rw [List.cons.inj h |>.1]

def firstRun (visits : List (Visit F)) : List (RawRecord Dict × RecordEnv F Clock) := visits.map fun v => (v.record, v.first)

def secondRun (visits : List (Visit F)) : List (RawRecord Dict × RecordEnv F Clock) := visits.map fun v => (v.record, v.second)

/-- The ids of the events parse, transform and validate let through. -/
def eventIds (context : ParseContext) (records : List (RawRecord Dict × RecordEnv F Clock)) : List String :=
  (acceptedEvents (u.stages base) context records).map (·.eventId)

/-- The id a record adds. -/
def acceptedId (now : Clock) (context : ParseContext) (record : RawRecord Dict) : Option String :=
  (acceptedEvent (u.stages base) now context record).map (·.eventId)

theorem acceptedId_eq_some {now : Clock} {context : ParseContext} {record : RawRecord Dict} {id : String} :
    acceptedId u base now context record = some id ↔
      ∃ ts, Taken u now (context.enter record) record ts ∧ idAt u (context.enter record) record ts = some id := by
  rw [← acceptedEvent_iff u base, acceptedId, Option.map_eq_some_iff]

theorem eventIds_cons (context : ParseContext) (record : RawRecord Dict) (env : RecordEnv F Clock)
    (records : List (RawRecord Dict × RecordEnv F Clock)) :
    eventIds u base context ((record, env) :: records) =
      (acceptedId u base env.now context record).toList ++ eventIds u base (context.enter record) records := by
  simp only [eventIds, acceptedEvents, List.map_append, acceptedId]
  cases acceptedEvent (u.stages base) env.now context record <;> rfl

/-- A steady record adds the same to both runs. -/
theorem acceptedId_of_steady {context : ParseContext} {v : Visit F} (h : Steady u context v) :
    acceptedId u base v.first.now context v.record = acceptedId u base v.second.now context v.record := by
  apply Option.ext
  intro id
  rw [acceptedId_eq_some, acceptedId_eq_some]
  exact exists_congr fun ts => and_congr_left' (h ts)

/-- The ids of a record differ in the time only. -/
theorem idAt_of_taken {now : Clock} {context : ParseContext} {record : RawRecord Dict} {ts : Clock}
    (h : Taken u now context record ts) : ∃ body, ∀ ts', idAt u context record ts' = some (computeEventId u.py ts' body) := by
  obtain ⟨_, _, ⟨parsed, _, hparsed, _⟩, _⟩ := h
  refine ⟨(finalBody (u.parserName record) false parsed context).prepare u.py, fun ts' => ?_⟩
  rw [idAt, hparsed]

/-- And one that adds the same is steady, unless the hash collides. -/
theorem steady_of_acceptedId (hhash : Function.Injective u.py.blake2b) {context : ParseContext} {v : Visit F}
    (h : acceptedId u base v.first.now context v.record = acceptedId u base v.second.now context v.record) :
    Steady u context v := by
  -- What one time takes with `ts`, the other takes with a time of the same id, which is `ts`.
  have hsame : ∀ {now now' : Clock} {ts : Clock},
      acceptedId u base now context v.record = acceptedId u base now' context v.record →
      Taken u now (context.enter v.record) v.record ts → Taken u now' (context.enter v.record) v.record ts := by
    intro now now' ts heq htaken
    obtain ⟨body, hid⟩ := idAt_of_taken u htaken
    have hfirst := (acceptedId_eq_some u base).2 ⟨ts, htaken, hid ts⟩
    obtain ⟨ts', htaken', hid'⟩ := (acceptedId_eq_some u base).1 (heq ▸ hfirst)
    rw [hid] at hid'
    have htime : ts' = ts := computeEventId_inj hhash (Option.some.inj hid')
    exact htime ▸ htaken'
  exact fun ts => ⟨hsame h, hsame h.symm⟩

/-- Records that are all steady have the same ids in both runs. -/
theorem eventIds_of_steady (visits : List (Visit F)) : ∀ context, AllSteady u context visits →
    eventIds u base context (firstRun visits) = eventIds u base context (secondRun visits) := by
  induction visits with
  | nil => exact fun _ _ => rfl
  | cons v rest ih =>
    intro context h
    simp only [firstRun, secondRun, List.map_cons, eventIds_cons, acceptedId_of_steady u base h.1]
    exact congrArg _ (ih _ h.2)

theorem AllSteady.take {context : ParseContext} {visits : List (Visit F)} (h : AllSteady u context visits) (n : Nat) :
    AllSteady u context (visits.take n) := by
  induction visits generalizing context n with
  | nil => rwa [List.take_nil]
  | cons v rest ih =>
    cases n with
    | zero => trivial
    | succ n => exact ⟨h.1, ih h.2 n⟩

/-- The file, and every beginning of it, has the same event ids at both times exactly when
every record of it is taken with one time at both, or at neither. -/
theorem event_ids_deterministic (hhash : Function.Injective u.py.blake2b) (context : ParseContext)
    (visits : List (Visit F)) :
    (∀ n, eventIds u base context (firstRun (visits.take n)) = eventIds u base context (secondRun (visits.take n))) ↔
      AllSteady u context visits := by
  refine ⟨fun h => ?_, fun h n => eventIds_of_steady u base _ context (h.take u n)⟩
  induction visits generalizing context with
  | nil => trivial
  | cons v rest ih =>
    have hone : acceptedId u base v.first.now context v.record = acceptedId u base v.second.now context v.record := by
      have := h 1
      simp only [List.take_succ_cons, List.take_zero, firstRun, secondRun, List.map_cons, List.map_nil,
        eventIds_cons, List.append_cancel_right_eq] at this
      exact toList_injective this
    refine ⟨steady_of_acceptedId u base hhash hone, ih _ fun n => ?_⟩
    have := h (n + 1)
    simp only [List.take_succ_cons, firstRun, secondRun, List.map_cons, eventIds_cons, hone,
      List.append_cancel_left_eq] at this
    exact this

/-! ## A line without a timestamp -/

/-- The plain-text parser on a line its patterns find nothing in, with the default settings. -/
def bootSetup (blake2b : Text → String) : Setup where
  py := plainPython blake2b
  parser := PlainTextParser.parser (plainPython blake2b) ⟨fun _ => none, fun _ => none, fun _ => none, fun _ => []⟩
  jsonRecord _ _ := .refuse ⟨.parseError, "empty record"⟩
  transform := .ok
  repr _ := ""
  settings := {}

/-- The line `boot`, ingested on the 7th and on the 8th. -/
def boot : Visit Unit where
  record := { payload := .text (Text.ofString "boot") }
  first := { now := noon 7 valid_seventh, store := () }
  second := { now := noon 8 (by decide), store := () }

/-- Each run gives the line the id of its own time. -/
theorem boot_ids_differ :
    eventIds (bootSetup spelled) plainStages {} (firstRun [boot]) ≠
      eventIds (bootSetup spelled) plainStages {} (secondRun [boot]) := by
  decide +kernel

/-- A digest without collisions: the number of the text in unary. -/
def unary (t : Text) : String := String.ofList (List.replicate (Encodable.encode t) 'x')

theorem unary_injective : Function.Injective unary := by
  intro a b h
  have hlen := congrArg (fun s : String => s.toList.length) h
  simp only [unary, String.toList_ofList, List.length_replicate] at hlen
  exact Encodable.encode_injective hlen

theorem event_ids_deterministic_boot :
    (∀ n, eventIds (bootSetup unary) plainStages {} (firstRun ([boot].take n)) =
        eventIds (bootSetup unary) plainStages {} (secondRun ([boot].take n))) ↔
      AllSteady (bootSetup unary) {} [boot] :=
  event_ids_deterministic (bootSetup unary) plainStages unary_injective {} [boot]

end LogAnalytics.LogPipeline
