import Mathlib.Algebra.BigOperators.Group.Finset.Basic
import Mathlib.Algebra.Order.BigOperators.Group.Finset
import Mathlib.Data.List.GetD
import LogAnalytics.Ingestion.Redirects
import LogAnalytics.Pipeline.Assembly
/-!
# What a paginated reading brings home

A listing is kept in pages by a server whose answers depend on the parameters of a request alone.
However requests fail and are repeated, a reading of it yields the records of the first pages, each
once and in order; it goes on to the last page unless a limit of its own stops it.
-/

namespace LogAnalytics

open Finset

/-! ## Retries -/

section
variable {α ε : Type} {call : Nat → Except Exn α × List ε} {a : α}

/-- The calls made are those up to the first answer, or all of them failed. -/
theorem callWithRetry_cases (call : Nat → Except Exn α × List ε) (left k : Nat) :
    (∃ m < left, ∃ a, callWithRetry call left k = (.ok a, k + (m + 1), (List.range' k (m + 1)).flatMap fun j => (call j).2) ∧
      (call (k + m)).1 = .ok a ∧ ∀ j < m, (call (k + j)).1.isOk = false) ∨
    (∃ m ≤ left, ∃ exn, callWithRetry call left k = (.error exn, k + m, (List.range' k m).flatMap fun j => (call j).2) ∧
      ∀ j < m, (call (k + j)).1.isOk = false) := by
  induction left generalizing k with
  | zero => exact .inr ⟨0, le_rfl, _, rfl, fun j hj => absurd hj (Nat.not_lt_zero j)⟩
  | succ left ih =>
    rw [callWithRetry]
    rcases hcall : call k with ⟨exn | a, events⟩
    · -- The first call failed; the others start one later.
      have hfirst : ∀ m, (∀ j < m, (call (k + 1 + j)).1.isOk = false) → ∀ j < m + 1, (call (k + j)).1.isOk = false := by
        intro m hm j hj
        cases j with
        | zero =>
          rw [Nat.add_zero, hcall]
          rfl
        | succ j =>
          rw [← Nat.add_assoc, Nat.add_right_comm]
          exact hm j (Nat.lt_of_succ_lt_succ hj)
      have hcalls : ∀ m, events ++ (List.range' (k + 1) m).flatMap (fun j => (call j).2) =
          (List.range' k (m + 1)).flatMap fun j => (call j).2 := fun m => by
        rw [List.range'_succ, List.flatMap_cons, hcall]
      dsimp only
      split
      · rcases ih (k + 1) with ⟨m, hm, a, heq, hok, hfails⟩ | ⟨m, hm, exn, heq, hfails⟩
        · refine .inl ⟨m + 1, Nat.succ_lt_succ hm, a, ?_, ?_, hfirst m hfails⟩
          · rw [heq, hcalls, Nat.add_right_comm k 1]
            rfl
          · rwa [← Nat.add_assoc, Nat.add_right_comm]
        · refine .inr ⟨m + 1, Nat.succ_le_succ hm, exn, ?_, hfirst m hfails⟩
          rw [heq, hcalls, Nat.add_right_comm k 1]
          rfl
      · refine .inr ⟨1, Nat.succ_le_succ (Nat.zero_le _), exn, ?_, hfirst 0 fun j hj => absurd hj (Nat.not_lt_zero j)⟩
        rw [← hcalls 0, List.range'_zero, List.flatMap_nil, List.append_nil]
    · refine .inl ⟨0, Nat.succ_pos left, a, ?_, by rw [Nat.add_zero, hcall], fun j hj => absurd hj (Nat.not_lt_zero j)⟩
      rw [List.range'_succ, List.range'_zero, List.flatMap_cons, List.flatMap_nil, List.append_nil, hcall]

/-- A call that gets through before the attempts run out. -/
def GetsThrough (call : Nat → Except Exn α × List ε) (left k : Nat) : Prop :=
  ∃ i < left, (∃ a, (call (k + i)).1 = .ok a) ∧ ∀ j < i, ∃ exn, (call (k + j)).1 = .error exn ∧ isTransient exn

theorem GetsThrough.ok {left k : Nat} (h : GetsThrough call left k) : ∃ a, (callWithRetry call left k).1 = .ok a := by
  obtain ⟨i, hi, ⟨a, ha⟩, hfails⟩ := h
  refine ⟨a, ?_⟩
  induction left generalizing i k with
  | zero => cases hi
  | succ left ih =>
    rw [callWithRetry]
    cases i with
    | zero =>
      rw [Nat.add_zero] at ha
      rcases hcall : call k with ⟨exn | b, events⟩ <;> rw [hcall] at ha
      · cases ha
      · exact ha
    | succ i =>
      obtain ⟨exn, hexn, htransient⟩ := hfails 0 (Nat.succ_pos i)
      rw [Nat.add_zero] at hexn
      rcases hcall : call k with ⟨exn' | b, events⟩ <;> rw [hcall] at hexn <;> cases hexn
      simp only [if_pos htransient]
      -- The call after this one gets through with one attempt fewer.
      have hshift : ∀ j, k + 1 + j = k + (j + 1) := fun j => by omega
      refine ih i (Nat.lt_of_succ_lt_succ hi) (fun j hj => ?_) ?_
      · rw [hshift]
        exact hfails (j + 1) (Nat.succ_lt_succ hj)
      · rwa [hshift]

end

namespace ApiSource

variable {lib : UrlLibrary} {py : Python} {s : ApiSource}

/-! ## One turn of the loop -/

/-- The record that an item of a page is. -/
def asRecord : Value → Option Dict
  | .dict record => some record
  | _ => none

theorem add_some {item : Value} {record : Dict} (h : asRecord item = some record) (r : Reading) :
    r.add item = { r with records := r.records ++ [record] } := by
  cases item <;> cases h
  rfl

theorem add_none {item : Value} (h : asRecord item = none) (r : Reading) :
    r.add item = { r with errors := r.errors + 1 } := by
  cases item with
  | dict => cases h
  | _ => rfl

theorem records_foldl_add (items : List Value) (r : Reading) :
    (items.foldl Reading.add r).records = r.records ++ items.filterMap asRecord := by
  induction items generalizing r with
  | nil => exact (List.append_nil _).symm
  | cons item items ih =>
    rw [List.foldl_cons, ih]
    cases h : asRecord item with
    | none => rw [add_none h, List.filterMap_cons_none h]
    | some record => rw [add_some h, List.filterMap_cons_some h, List.append_assoc, List.singleton_append]

/-- The items that are no objects. -/
def strays (items : List Value) : Nat := items.countP fun item => (asRecord item).isNone

theorem errors_foldl_add (items : List Value) (r : Reading) :
    (items.foldl Reading.add r).errors = r.errors + strays items := by
  induction items generalizing r with
  | nil => rfl
  | cons item items ih =>
    rw [List.foldl_cons, ih, strays, strays, List.countP_cons]
    cases h : asRecord item with
    | none =>
      simp only [add_none h, Option.isNone_none, if_true]
      omega
    | some record => simp [add_some h]

theorem bytesRead_foldl_add (items : List Value) (r : Reading) :
    (items.foldl Reading.add r).bytesRead = r.bytesRead := by
  induction items generalizing r with
  | nil => rfl
  | cons item items ih =>
    rw [List.foldl_cons, ih]
    cases item <;> rfl

/-- The cursor that a page names. -/
def nextCursor (py : Python) (s : ApiSource) (body : Value) : Except Exn (Option Text) :=
  if s.nextCursorPath ≠ [] ∧ (extract body s.nextCursorPath).isTruthy then
    (py.str (extract body s.nextCursorPath)).map some
  else .ok none

/-- No page is asked for after this one. -/
def Final (s : ApiSource) (cursor : Option Text) : Prop := cursor.all (· = []) ∧ s.pageParam.all (· = [])

instance (s : ApiSource) (cursor : Option Text) : Decidable (s.Final cursor) := inferInstanceAs (Decidable (_ ∧ _))

/-- The request for a page, as often as the policy allows. -/
def askPage (lib : UrlLibrary) (s : ApiSource) (net : Nat → Nat → Hop) (page k : Nat) (cursor : Option Text) :
    Except Exn (Value × Nat) × Nat × List FetchEvent :=
  callWithRetry (fun k => s.fetch lib (net k) s.url (s.pageParams page cursor)) fetchAttempts k

/-- What is left of a turn once the page has come. -/
def takePage (lib : UrlLibrary) (py : Python) (s : ApiSource) (net : Nat → Nat → Hop) (left page k : Nat)
    (r : Reading) (body : Value) : Except Exn Unit × Reading :=
  if s.maxBytes < r.bytesRead then (.error ⟨.ingestionError, "API response exceeded the configured byte limit"⟩, r)
  else
    match s.pageRecords body with
    | none => (.ok (), r)
    | some items =>
      match s.nextCursor py body with
      | .error exn => (.error exn, items.foldl Reading.add r)
      | .ok cursor =>
        if s.Final cursor then (.ok (), items.foldl Reading.add r)
        else readPages lib py s net left (page + 1) k cursor (items.foldl Reading.add r)

theorem readPages_succ (net : Nat → Nat → Hop) (left page k : Nat) (cursor : Option Text) (r : Reading) :
    readPages lib py s net (left + 1) page k cursor r =
      match askPage lib s net page k cursor with
      | (.error exn, _, events) => (.error exn, { r with events := r.events ++ events })
      | (.ok (body, size), k, events) =>
        takePage lib py s net left page k { r with events := r.events ++ events, bytesRead := r.bytesRead + size } body := by
  rw [readPages]
  rfl

/-! ## The work of a reading -/

/-- A list kept in pages by a server that answers the same parameters with the same body. -/
structure Listing (py : Python) (s : ApiSource) where
  serve : List (Text × Value) → Value × Nat
  pages : List (List Value)
  pages_ne_nil : [] ∉ pages
  /-- The cursor that a page is asked for with. -/
  cursor : Nat → Option Text
  cursor_zero : cursor 0 = none
  page : ∀ i (h : i < pages.length), extract (serve (s.pageParams i (cursor i))).1 s.recordsPath = .list pages[i]
  next : ∀ i < pages.length, s.nextCursor py (serve (s.pageParams i (cursor i))).1 = .ok (cursor (i + 1))
  more : ∀ i, i + 1 < pages.length → ¬ s.Final (cursor (i + 1))
  /-- Past the last page there is an empty one, unless the last page is known to be the last. -/
  past : pages = [] ∨ ¬ s.Final (cursor pages.length) →
    extract (serve (s.pageParams pages.length (cursor pages.length))).1 s.recordsPath = .list []

/-- What a fetch returns depends on the network, not on the parameters it sends. -/
theorem fetch_params (hops : Nat → Hop) (url : Text) (params params' : List (Text × Value)) :
    (s.fetch lib hops url params).1 = (s.fetch lib hops url params').1 := by
  simp only [fetch, fetchFrom]
  split
  · rfl
  · split
    · split
      · rfl
      · split
        · rfl
        · split <;> rfl
    · rfl

/-- The fetches that were answered before the `k`-th. -/
def answered (lib : UrlLibrary) (s : ApiSource) (net : Nat → Nat → Hop) (k : Nat) : Nat :=
  (List.range k).countP fun j => (s.fetch lib (net j) s.url []).1.isOk

namespace Listing

variable (L : Listing py s) {net : Nat → Nat → Hop}

/-- The answer to the request for a page. -/
def answer (i : Nat) : Value × Nat := L.serve (s.pageParams i (L.cursor i))

/-- The pages that are asked for when the whole listing is read. -/
def turns : Nat := if L.pages = [] ∨ ¬ s.Final (L.cursor L.pages.length) then L.pages.length + 1 else L.pages.length

/-- The bytes of the first answers. -/
def bytes (n : Nat) : Nat := ∑ i ∈ range n, (L.answer i).2

/-- The `k`-th fetch: each answer has moved the reading on by one page. -/
def ask (lib : UrlLibrary) (net : Nat → Nat → Hop) (k : Nat) : Except Exn (Value × Nat) × List FetchEvent :=
  s.fetch lib (net k) s.url (s.pageParams (answered lib s net k) (L.cursor (answered lib s net k)))

/-- A fetch for a page that is answered is answered by the listing. -/
def Serves (lib : UrlLibrary) (net : Nat → Nat → Hop) : Prop :=
  ∀ k, answered lib s net k < L.turns → ∀ x, (L.ask lib net k).1 = .ok x → x = L.answer (answered lib s net k)

/-- No page is given up: until the last one has come, one of the next attempts is answered. -/
def Patient (lib : UrlLibrary) (net : Nat → Nat → Hop) : Prop :=
  ∀ k, answered lib s net k < L.turns → GetsThrough (fun k => s.fetch lib (net k) s.url []) fetchAttempts k

/-- The first pages have been read, with so many fetches. -/
structure Brought (lib : UrlLibrary) (net : Nat → Nat → Hop) (n fetches : Nat) (r : Reading) : Prop where
  records : r.records = (L.pages.take n).flatten.filterMap asRecord
  errors : r.errors = strays (L.pages.take n).flatten
  events : r.events = (List.range fetches).flatMap fun k => (L.ask lib net k).2

/-! ## Reading a listing -/

variable {L}

theorem length_le_turns : L.pages.length ≤ L.turns := by
  rw [turns]
  split <;> omega

theorem pageRecords_answer {n : Nat} (hn : n < L.turns) :
    s.pageRecords (L.answer n).1 = if n < L.pages.length then some (L.pages.getD n []) else none := by
  by_cases h : n < L.pages.length
  · rw [if_pos h, pageRecords, answer, L.page n h, List.getD_eq_getElem _ _ h]
    have hne : L.pages[n] ≠ [] := fun hnil => L.pages_ne_nil (hnil ▸ List.getElem_mem h)
    rcases hpage : L.pages[n] with _ | ⟨item, items⟩
    · exact absurd hpage hne
    · rfl
  · -- The page past the last one is asked for only if there is need to.
    rw [turns] at hn
    split at hn
    · next hpast =>
      obtain rfl : n = L.pages.length := by omega
      rw [if_neg h, pageRecords, answer, L.past hpast]
    · exact absurd hn h

/-- A page leads to another turn exactly if it is not the last. -/
theorem final_iff {n : Nat} (hn : n < L.pages.length) : s.Final (L.cursor (n + 1)) ↔ L.turns ≤ n + 1 := by
  rw [turns]
  by_cases hlast : n + 1 = L.pages.length
  · rw [← hlast]
    have hne : L.pages ≠ [] := List.ne_nil_of_length_pos (by omega)
    by_cases hfinal : s.Final (L.cursor (n + 1))
    · simp [hfinal, hne]
    · simp [hfinal]
  · refine iff_of_false (L.more n (by omega)) ?_
    split <;> omega

/-- What is left of a turn, over a listing. -/
theorem takePage_answer {left n k : Nat} {r : Reading} (hn : n < L.turns) (hbytes : r.bytesRead = L.bytes (n + 1)) :
    takePage lib py s net left n k r (L.answer n).1 =
      if s.maxBytes < L.bytes (n + 1) then
        (.error ⟨.ingestionError, "API response exceeded the configured byte limit"⟩, r)
      else if L.turns ≤ n + 1 then (.ok (), (L.pages.getD n []).foldl Reading.add r)
      else readPages lib py s net left (n + 1) k (L.cursor (n + 1)) ((L.pages.getD n []).foldl Reading.add r) := by
  rw [takePage, hbytes, pageRecords_answer hn]
  split
  · rfl
  · by_cases h : n < L.pages.length
    · rw [if_pos h]
      dsimp only
      rw [answer, L.next n h]
      dsimp only
      simp only [final_iff h]
    · have hturns : L.turns ≤ n + 1 := by
        rw [turns]
        split <;> omega
      rw [if_neg h, if_pos hturns, List.getD_eq_default _ _ (Nat.le_of_not_lt h)]
      rfl

theorem brought_add {n fetches : Nat} {r : Reading} (h : L.Brought lib net n fetches r) :
    L.Brought lib net (n + 1) fetches ((L.pages.getD n []).foldl Reading.add r) := by
  have htake : (L.pages.take (n + 1)).flatten = (L.pages.take n).flatten ++ L.pages.getD n [] := by
    rw [List.take_add_one, List.flatten_append, List.getD_eq_getElem?_getD]
    cases L.pages[n]? <;> simp
  refine ⟨?_, ?_, ?_⟩
  · rw [records_foldl_add, h.records, htake, List.filterMap_append]
  · rw [errors_foldl_add, h.errors, htake, strays, strays, strays, List.countP_append]
  · rw [events_foldl_add, h.events]

/-- The fetches of a turn, over a listing. -/
theorem askPage_cases (hserves : L.Serves lib net) {n k : Nat} (hn : n < L.turns) (hk : answered lib s net k = n) :
    (∃ m < fetchAttempts, askPage lib s net n k (L.cursor n) =
        (.ok (L.answer n), k + (m + 1), (List.range' k (m + 1)).flatMap fun j => (L.ask lib net j).2) ∧
      answered lib s net (k + (m + 1)) = n + 1) ∨
    ∃ m ≤ fetchAttempts, ∃ exn, askPage lib s net n k (L.cursor n) =
      (.error exn, k + m, (List.range' k m).flatMap fun j => (L.ask lib net j).2) := by
  have hstays : ∀ m, (∀ j < m, ((s.fetch lib (net (k + j)) s.url (s.pageParams n (L.cursor n))).1).isOk = false) →
      ∀ j ≤ m, answered lib s net (k + j) = n := by
    intro m hm j hj
    induction j with
    | zero => exact hk
    | succ j ih =>
      rw [← Nat.add_assoc, answered, List.range_succ, List.countP_append, ← answered, ih (Nat.le_of_succ_le hj),
        List.countP_singleton, fetch_params _ _ [] (s.pageParams n (L.cursor n)), hm j hj]
      rfl
  have hasks : ∀ m, (∀ j ≤ m, answered lib s net (k + j) = n) → ∀ m' ≤ m + 1,
      (List.range' k m').flatMap (fun j => (s.fetch lib (net j) s.url (s.pageParams n (L.cursor n))).2) =
        (List.range' k m').flatMap fun j => (L.ask lib net j).2 := by
    intro m hm m' hm'
    refine List.flatMap_congr fun j hj => ?_
    obtain ⟨i, hi, rfl⟩ := List.mem_range'.1 hj
    rw [Nat.one_mul, ask, hm i (by omega)]
  rcases callWithRetry_cases (fun k => s.fetch lib (net k) s.url (s.pageParams n (L.cursor n))) fetchAttempts k with
    ⟨m, hm, a, heq, hok, hfails⟩ | ⟨m, hm, exn, heq, hfails⟩
  · have hans := hstays m hfails
    have ha : a = L.answer n := by
      have := hserves (k + m) ((hans m le_rfl).trans_lt hn) a (by rw [ask, hans m le_rfl]; exact hok)
      rwa [hans m le_rfl] at this
    refine .inl ⟨m, hm, ?_, ?_⟩
    · rw [askPage, heq, hasks m hans _ le_rfl, ha]
    · rw [← Nat.add_assoc, answered, List.range_succ, List.countP_append, ← answered, hans m le_rfl,
        List.countP_singleton, fetch_params _ _ [] (s.pageParams n (L.cursor n)), hok]
      rfl
  · refine .inr ⟨m, hm, exn, ?_⟩
    rw [askPage, heq, hasks m (hstays m hfails) _ (Nat.le_succ m)]

theorem Brought.saturate {n m fetches : Nat} {r : Reading} (h : L.Brought lib net n fetches r) (hn : L.pages.length ≤ n)
    (hm : L.pages.length ≤ m) : L.Brought lib net m fetches r := by
  have htake : L.pages.take m = L.pages.take n := by rw [List.take_of_length_le hn, List.take_of_length_le hm]
  exact ⟨htake ▸ h.records, htake ▸ h.errors, h.events⟩

theorem Brought.more_events {n k : Nat} {r : Reading} (h : L.Brought lib net n k r) (m b : Nat) :
    L.Brought lib net n (k + m)
      { r with events := r.events ++ (List.range' k m).flatMap (fun j => (L.ask lib net j).2), bytesRead := b } := by
  refine ⟨h.records, h.errors, ?_⟩
  have hrange : List.range (k + m) = List.range k ++ List.range' k m := by
    rw [List.range_eq_range', List.range_eq_range', ← List.range'_append_1, Nat.zero_add]
  rw [hrange, List.flatMap_append, ← h.events]

/-- Whatever fails, the pages read are the first ones; the loop comes to its end only with all of
them, or with as many as it may read. -/
theorem readPages_brought (hserves : L.Serves lib net) (left : Nat) {n k : Nat} {r : Reading} (hn : n < L.turns)
    (hk : answered lib s net k = n) (hr : L.Brought lib net n k r) (hbytes : r.bytesRead = L.bytes n) :
    ∃ n' ≤ n + left, ∃ fetches ≤ k + fetchAttempts * left,
      L.Brought lib net n' fetches (readPages lib py s net left n k (L.cursor n) r).2 ∧
      ((readPages lib py s net left n k (L.cursor n) r).1 = .ok () → n' = n + left) := by
  induction left generalizing n k r with
  | zero => exact ⟨n, le_rfl, k, le_rfl, hr, fun _ => rfl⟩
  | succ left ih =>
    rw [readPages_succ]
    rcases askPage_cases hserves hn hk with ⟨m, hm, heq, hans⟩ | ⟨m, hm, exn, heq⟩
    · rw [heq]
      dsimp only
      have hcame := hr.more_events (m + 1) (r.bytesRead + (L.answer n).2)
      have hsum : r.bytesRead + (L.answer n).2 = L.bytes (n + 1) := by rw [hbytes, bytes, bytes, sum_range_succ]
      have hcount : k + (m + 1) ≤ k + fetchAttempts * (left + 1) := by
        rw [Nat.mul_succ]
        omega
      rw [takePage_answer hn hsum]
      split
      · exact ⟨n, Nat.le_add_right .., _, hcount, hcame, fun h => nomatch h⟩
      · have hadded := brought_add hcame
        split
        · next hlast =>
          have hlen := length_le_turns.trans hlast
          exact ⟨n + (left + 1), le_rfl, _, hcount, hadded.saturate hlen (by omega), fun _ => rfl⟩
        · next hmore =>
          obtain ⟨n', hn', fetches, hfetches, hbrought, hok⟩ :=
            ih (Nat.lt_of_not_le hmore) hans hadded (by rw [bytesRead_foldl_add]; exact hsum)
          refine ⟨n', by omega, fetches, ?_, hbrought, fun h => by rw [hok h]; omega⟩
          rw [Nat.mul_succ]
          omega
    · rw [heq]
      refine ⟨n, Nat.le_add_right .., k + m, ?_, hr.more_events m _, fun h => nomatch h⟩
      rw [Nat.mul_succ]
      omega

theorem bytes_mono {n m : Nat} (h : n ≤ m) : L.bytes n ≤ L.bytes m :=
  sum_le_sum_of_subset (range_mono h)

theorem Patient.askPage {k : Nat} (hpatient : L.Patient lib net) (hk : answered lib s net k < L.turns) (page : Nat)
    (cursor : Option Text) : ∃ a, (askPage lib s net page k cursor).1 = .ok a := by
  obtain ⟨i, hi, ⟨a, ha⟩, hfails⟩ := hpatient k hk
  refine GetsThrough.ok ⟨i, hi, ⟨a, (fetch_params _ _ _ _).trans ha⟩, fun j hj => ?_⟩
  obtain ⟨exn, hexn, htransient⟩ := hfails j hj
  exact ⟨exn, (fetch_params _ _ _ _).trans hexn, htransient⟩

theorem readPages_ok_iff (hserves : L.Serves lib net) (hpatient : L.Patient lib net) (left : Nat) {n k : Nat} {r : Reading}
    (hn : n < L.turns) (hk : answered lib s net k = n) (hbytes : r.bytesRead = L.bytes n) (hfit : L.bytes n ≤ s.maxBytes) :
    (readPages lib py s net left n k (L.cursor n) r).1 = .ok () ↔ L.bytes (min (n + left) L.turns) ≤ s.maxBytes := by
  induction left generalizing n k r with
  | zero =>
    rw [Nat.add_zero, min_eq_left hn.le]
    exact iff_of_true rfl hfit
  | succ left ih =>
    rw [readPages_succ]
    rcases askPage_cases hserves hn hk with ⟨m, hm, heq, hans⟩ | ⟨m, hm, exn, heq⟩
    · rw [heq]
      dsimp only
      have hsum : r.bytesRead + (L.answer n).2 = L.bytes (n + 1) := by rw [hbytes, bytes, bytes, sum_range_succ]
      have hle : n + 1 ≤ min (n + (left + 1)) L.turns := le_min (by omega) hn
      rw [takePage_answer hn hsum]
      split
      · next hover => exact iff_of_false (fun h => nomatch h) (not_le.2 (hover.trans_le (bytes_mono hle)))
      · next hunder =>
        split
        · next hlast =>
          have : min (n + (left + 1)) L.turns = n + 1 := by omega
          rw [this]
          exact iff_of_true rfl (not_lt.1 hunder)
        · next hmore =>
          rw [ih (Nat.lt_of_not_le hmore) hans (by rw [bytesRead_foldl_add]; exact hsum) (not_lt.1 hunder),
            Nat.add_assoc, Nat.add_comm 1]
    · obtain ⟨a, ha⟩ := hpatient.askPage (hk ▸ hn) n (L.cursor n)
      rw [heq] at ha
      cases ha

/-- A reading brings home the records of the first pages of a listing, each once and in order, by
requests for these pages alone; a reading that succeeds stops only at the end or at the page limit.
If no page is given up, it succeeds exactly if the answers fit into the byte limit. -/
theorem read_listing (L : Listing py s) (hserves : L.Serves lib net) :
    (∃ n ≤ min s.maxPages LogAnalytics.maxPages, ∃ fetches ≤ fetchAttempts * min s.maxPages LogAnalytics.maxPages,
      L.Brought lib net n fetches (s.read lib py net).2 ∧
      ((s.read lib py net).1 = .ok () → n = min s.maxPages LogAnalytics.maxPages)) ∧
    (L.Patient lib net → ((s.read lib py net).1 = .ok () ↔
      L.bytes (min (min s.maxPages LogAnalytics.maxPages) L.turns) ≤ s.maxBytes)) := by
  have hturns : 0 < L.turns := by
    rw [turns]
    split
    · omega
    · next h => exact List.length_pos_iff.2 fun hnil => h (.inl hnil)
  rw [read, ← L.cursor_zero]
  constructor
  · obtain ⟨n, hn, fetches, hfetches, h⟩ := readPages_brought hserves (min s.maxPages LogAnalytics.maxPages)
      (r := {}) (k := 0) hturns rfl ⟨rfl, rfl, rfl⟩ rfl
    exact ⟨n, by omega, fetches, by omega, by simpa using h⟩
  · intro hpatient
    have h := readPages_ok_iff hserves hpatient (min s.maxPages LogAnalytics.maxPages) (r := {}) (k := 0)
      hturns rfl rfl (Nat.zero_le _)
    rwa [Nat.zero_add] at h

/-! Two pages, behind a connection that breaks and a server that is overloaded once. -/

def pagedSource : ApiSource where
  url := logsUrl
  recordsPath := Text.ofString "items"
  nextCursorPath := Text.ofString "next"

def record (n : Int) : Value := .dict [(Text.ofString "id", .int n)]

def firstPage : Value :=
  .dict [(Text.ofString "items", .list [record 1, .int 0, record 2]), (Text.ofString "next", .str (Text.ofString "b"))]

def secondPage : Value := .dict [(Text.ofString "items", .list [record 3])]

def twoPages : Listing (LogPipeline.plainPython LogPipeline.spelled) pagedSource where
  serve params := if params = [] then (firstPage, 64) else (secondPage, 32)
  pages := [[record 1, .int 0, record 2], [record 3]]
  pages_ne_nil := by simp
  cursor i := if i = 1 then some (Text.ofString "b") else none
  cursor_zero := rfl
  page i h := by
    rcases i with _ | _ | i
    · rfl
    · rfl
    · exact absurd h (by simp)
  next i h := by
    rcases i with _ | _ | i
    · rfl
    · rfl
    · exact absurd h (by simp)
  more i h := by
    rcases i with _ | i
    · decide
    · exact absurd h (by simp)
  past h := absurd h (by decide)

/-- The answers to five fetches. -/
def pagedNet (k _ : Nat) : Hop where
  response :=
    match k with
    | 0 => .error ⟨.other "TransportError", "connection reset"⟩
    | 1 => .ok { status := 200, size := 64, json := some firstPage }
    | 2 | 3 => .ok { status := 503 }
    | _ => .ok { status := 200, size := 32, json := some secondPage }
  resolve _ _ := .ok []

theorem answered_mono {k k' : Nat} (h : k ≤ k') : answered lib s net k ≤ answered lib s net k' :=
  (List.range_sublist.2 h).countP_le

theorem read_listing_two :
    (pagedSource.read exampleLibrary (LogPipeline.plainPython LogPipeline.spelled) pagedNet).1 = .ok () ∧
    (pagedSource.read exampleLibrary (LogPipeline.plainPython LogPipeline.spelled) pagedNet).2.records =
      [record 1, record 2, record 3].filterMap asRecord := by
  have hlate : ∀ k, 5 ≤ k → ¬ answered exampleLibrary pagedSource pagedNet k < twoPages.turns := fun k hk =>
    Nat.not_lt.2 ((show twoPages.turns ≤ answered exampleLibrary pagedSource pagedNet 5 by decide).trans (answered_mono hk))
  have hserves : twoPages.Serves exampleLibrary pagedNet := by
    intro k hk x hx
    rcases k with _ | _ | _ | _ | _ | k
    · cases hx
    · cases hx
      rfl
    · cases hx
    · cases hx
    · cases hx
      rfl
    · exact absurd hk (hlate _ (Nat.le_add_left 5 k))
  have hpatient : twoPages.Patient exampleLibrary pagedNet := by
    intro k hk
    rcases k with _ | _ | _ | _ | _ | k
    · exact ⟨1, by decide, ⟨_, rfl⟩, fun j hj => by interval_cases j; exact ⟨_, rfl, by decide⟩⟩
    · exact ⟨0, by decide, ⟨_, rfl⟩, fun j hj => absurd hj (Nat.not_lt_zero j)⟩
    · exact ⟨2, by decide, ⟨_, rfl⟩, fun j hj => by interval_cases j <;> exact ⟨_, rfl, by decide⟩⟩
    · exact ⟨1, by decide, ⟨_, rfl⟩, fun j hj => by interval_cases j; exact ⟨_, rfl, by decide⟩⟩
    · exact ⟨0, by decide, ⟨_, rfl⟩, fun j hj => absurd hj (Nat.not_lt_zero j)⟩
    · exact absurd hk (hlate _ (Nat.le_add_left 5 k))
  obtain ⟨⟨n, -, fetches, -, hbrought, hall⟩, hiff⟩ := read_listing twoPages hserves
  have hok := (hiff hpatient).2 (by decide)
  refine ⟨hok, ?_⟩
  rw [hbrought.records, hall hok]
  rfl

end Listing

end ApiSource

end LogAnalytics
