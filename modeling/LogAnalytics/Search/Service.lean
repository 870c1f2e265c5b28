import LogAnalytics.Models.Text
import LogAnalytics.Timeutil
/-!
# The search service

`SearchService.search` and `search_after` over the rows that match a query. The engine's answer
to `ORDER BY timestamp DESC` is a parameter: it may put rows with equal timestamps in any
order, and in another order at the next call.
-/

namespace LogAnalytics

/-- What the service reads of the configuration. -/
structure SearchSettings where
  /-- `api.max_page_size` -/
  maxPageSize : Nat
  pos : 1 ≤ maxPageSize
  le : maxPageSize ≤ 10000
  /-- `analytics.max_query_rows` -/
  maxQueryRows : Nat

structure SearchResult (β : Type) where
  items : List β
  total : Nat
  page : Nat
  pageSize : Nat
  truncated : Bool := false

namespace Search

/-- `ABSOLUTE_MAX_ROWS` -/
def absoluteMaxRows : Nat := 1000000

/-- What `execute` fetches of a cursor. -/
def fetch {α : Type} (limit : Nat) (rows : List α) : List α :=
  rows.take (min (if limit = 0 then absoluteMaxRows else limit) absoluteMaxRows)

/-- `query_logs`, given the matching rows in the order of its `ORDER BY`. -/
def queryLogs {α : Type} (ordered : List α) (limit offset : Nat) : List α :=
  fetch limit ((ordered.drop offset).take (min limit absoluteMaxRows))

/-- `SearchService.search`, given the matching rows in order. -/
def search {α β : Type} (s : SearchSettings) (serialise : α → β) (ordered : List α) (page pageSize : Nat)
    (countTotal : Bool) : SearchResult β :=
  let page := max 1 page
  let pageSize := max 1 (min pageSize s.maxPageSize)
  let rows := queryLogs ordered pageSize ((page - 1) * pageSize)
  let total := if countTotal then ordered.length else rows.length + (page - 1) * pageSize
  { items := rows.map serialise, total := total, page := page, pageSize := pageSize
    truncated := s.maxQueryRows < total }

/-! ## Keyset pagination -/

/-- A row of the dataset; `columns` are those beside the sort key. -/
structure Row (C : Type) where
  timestamp : Clock
  eventId : Text
  columns : C

/-- A row as the client gets it: its timestamp is what `to_iso` says. -/
structure Item (C : Type) where
  timestamp : Clock
  eventId : Text
  columns : C

/-- `to_iso`: second precision. -/
def toIso (c : Clock) : Clock :=
  ⟨c.micros / 10 ^ 6 * 10 ^ 6, Nat.lt_of_le_of_lt (Nat.div_mul_le_self _ _) c.lt_end⟩

/-- `_serialise` -/
def serialise {C : Type} (row : Row C) : Item C := ⟨toIso row.timestamp, row.eventId, row.columns⟩

/-- `after_timestamp` and `after_event_id`. -/
structure Cursor where
  timestamp : Clock
  eventId : Text

/-- `parse_range` -/
def parseRange (start stop : Option Clock) (now : Clock) : Except Exn (Clock × Clock) := do
  let parsedEnd := stop.getD now
  let parsedStart ← match start with
    | some start => .ok start
    | none => parsedEnd.add (-dayMicros)
  if parsedEnd < parsedStart then .ok (parsedEnd, parsedStart) else .ok (parsedStart, parsedEnd)

/-- `timestamp >= ? AND timestamp <= ?` -/
def inRange {C : Type} (range : Clock × Clock) (row : Row C) : Bool :=
  range.1 ≤ row.timestamp ∧ row.timestamp ≤ range.2

/-- `(timestamp < ? OR (timestamp = ? AND event_id < ?))` -/
def before {C : Type} (cursor : Cursor) (row : Row C) : Bool :=
  row.timestamp < cursor.timestamp ∨ (row.timestamp = cursor.timestamp ∧ row.eventId < cursor.eventId)

/-- The rows a call of `search_after` asks for. -/
def selected {C : Type} (rows : List (Row C)) (query : Row C → Bool) (range : Clock × Clock) (cursor : Option Cursor) :
    List (Row C) :=
  rows.filter fun row => inRange range row && query row && cursor.all (before · row)

/-- `search_after`; `order` is how the engine sorts. -/
def searchAfter {C : Type} (order : List (Row C) → List (Row C)) (rows : List (Row C)) (query : Row C → Bool)
    (start stop : Option Clock) (now : Clock) (cursor : Option Cursor) (pageSize : Nat) :
    Except Exn (SearchResult (Item C)) := do
  let range ← parseRange start stop now
  let found := queryLogs (order (selected rows query range cursor)) pageSize 0
  .ok { items := found.map serialise, total := found.length, page := 1, pageSize := pageSize }

/-- `ORDER BY timestamp DESC` -/
structure OrdersByTimestamp {C : Type} (order : List (Row C) → List (Row C)) : Prop where
  perm : ∀ rows, (order rows).Perm rows
  sorted : ∀ rows, (order rows).Pairwise fun a b => b.timestamp ≤ a.timestamp

end Search

end LogAnalytics
