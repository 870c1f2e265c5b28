import Mathlib.Data.List.Sort
import LogAnalytics.Search.Service
/-!
# Keyset pagination

A client calls `search_after` with the timestamp and id of the last item it got, until it gets
none. The cursor tells the rows already returned from the others when the timestamp at the end
of a page belongs to one row alone and has no fraction of a second (`Clean`).
-/

namespace LogAnalytics.Search

variable {C : Type}

/-- A call of `search_after`: when it is made, and how the engine sorts then. -/
structure Call (C : Type) where
  now : Clock
  order : List (Row C) → List (Row C)
  orders : OrdersByTimestamp order

/-- A query and the client's page size; `calls k` is its `k`-th call. -/
structure Scroll (C : Type) where
  rows : List (Row C)
  query : Row C → Bool
  start : Option Clock
  stop : Option Clock
  pageSize : Nat
  pos : 1 ≤ pageSize
  calls : Nat → Call C

namespace Scroll

def call (s : Scroll C) (k : Nat) (cursor : Option Cursor) : Except Exn (SearchResult (Item C)) :=
  searchAfter (s.calls k).order s.rows s.query s.start s.stop (s.calls k).now cursor s.pageSize

/-- The items of all pages from the `k`-th call on; nothing when a call raises or the client has
not stopped after `fuel` calls. -/
def items (s : Scroll C) : (fuel k : Nat) → Option Cursor → Option (List (Item C))
  | 0, _, _ => none
  | fuel + 1, k, cursor =>
    match s.call k cursor with
    | .error _ => none
    | .ok result =>
      match result.items.getLast? with
      | none => some []
      | some last => (items s fuel (k + 1) (some ⟨last.timestamp, last.eventId⟩)).map (result.items ++ ·)

end Scroll

/-- The timestamp of the `m`-th newest row, or of the oldest when there are fewer. -/
def boundary (m : Nat) (rows : List (Row C)) : Option Nat :=
  (((rows.map (·.timestamp.micros)).insertionSort (· ≥ ·)).take m).getLast?

namespace Scroll

variable (s : Scroll C)

end Scroll

end LogAnalytics.Search
