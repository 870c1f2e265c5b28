import LogAnalytics.Lib.RegexFirst
import LogAnalytics.Parsers.Access
/-!
# The patterns of the access log

`_ACCESS_LOG`, `_FORWARDED` and `_TIMING_TAIL`, and what they take of a text that is written the
way they read it.
-/
open LogAnalytics.Lib

namespace LogAnalytics

/-- A text of characters of a class, of bounded length. -/
structure Text.Within (p : CodePoint → Bool) (min max : Nat) (t : Text) : Prop where
  all : t.all p = true
  min_le : min ≤ t.length
  le_max : t.length ≤ max

theorem Text.Within.head {p q : CodePoint → Bool} {min max : Nat} {t : Text} (h : t.Within p (min + 1) max)
    (hpq : ∀ c, p c = true → q c = false) (rest : Text) : (t ++ rest).head?.any q = false := by
  obtain ⟨hall, hmin, -⟩ := h
  cases t with
  | nil => cases hmin
  | cons c t =>
    rw [List.all_cons, Bool.and_eq_true] at hall
    exact hpq c hall.1

theorem Text.Within.zero {p : CodePoint → Bool} {min max : Nat} {t : Text} (h : t.Within p min max) : t.Within p 0 max :=
  ⟨h.all, Nat.zero_le _, h.le_max⟩

namespace AccessLogParser

open Timeutil (char)

/-! ## The patterns -/

def one (c : Char) : Regex CodePoint := .chars (· = char c)

/-- `\s+` -/
def blanks : Regex CodePoint := .seq (.chars Text.isSpace) (.star Text.isSpace)

/-- `[0-9a-fA-F:.]` -/
def isAddressChar (c : CodePoint) : Bool :=
  Text.isAsciiDigit c || (65 ≤ c.val && c.val ≤ 70) || (97 ≤ c.val && c.val ≤ 102) || c = char ':' || c = char '.'

/-- `\S` -/
def isVisible (c : CodePoint) : Bool := !Text.isSpace c

/-- `[^…]` of one character. -/
def isNot (c : Char) (d : CodePoint) : Bool := d ≠ char c

section

variable (py : Python)

/-- `_ACCESS_LOG`. The line has no newline at its end, where `$` could match before it. -/
def accessLog : Regex CodePoint :=
  .all [.group 1 (.alt (.rep false 3 45 (.chars isAddressChar)) (one '-')), blanks,
    .group 2 (.rep false 1 64 (.chars isVisible)), blanks,
    .group 3 (.rep false 1 255 (.chars isVisible)), blanks,
    one '[', .group 4 (.rep false 1 64 (.chars (isNot ']'))), one ']', blanks,
    one '"', .group 5 (.rep false 0 8192 (.chars (isNot '"'))), one '"', blanks,
    .group 6 (.alt (.rep false 3 3 (.chars py.isDecimal)) (one '-')), blanks,
    .group 7 (.alt (.rep false 1 19 (.chars py.isDecimal)) (one '-')),
    .opt (.all [blanks, one '"', .group 8 (.rep false 0 2048 (.chars (isNot '"'))), one '"', blanks,
      one '"', .group 9 (.rep false 0 2048 (.chars (isNot '"'))), one '"']),
    .group 10 (.rep false 0 512 (.chars (isNot '\n'))), .notAfter fun _ => true]

/-- `(?:[0-9a-fA-F:.]{3,45}(?:,\s*)?)` -/
def chainItem : Regex CodePoint :=
  .seq (.rep false 3 45 (.chars isAddressChar)) (.opt (.seq (one ',') (.star Text.isSpace)))

/-- `_FORWARDED` -/
def forwarded : Regex CodePoint := .all [one '"', .group 1 (.rep false 1 10 chainItem), one '"']

/-- `_TIMING_TAIL` -/
def timingTail : Regex CodePoint :=
  .group 1 (.alt (.all [.rep false 1 6 (.chars py.isDecimal), one '.', .rep false 1 6 (.chars py.isDecimal)])
    (.rep false 1 9 (.chars py.isDecimal)))

/-- No pattern has a `\b`. -/
def noWord (_ : CodePoint) : Bool := false

/-- The groups by their names. -/
def matchOf (t : Cursor CodePoint) : AccessMatch where
  ip := (t.group? 1).getD []
  ident := (t.group? 2).getD []
  user := (t.group? 3).getD []
  time := (t.group? 4).getD []
  request := (t.group? 5).getD []
  status := (t.group? 6).getD []
  bytes := (t.group? 7).getD []
  referrer := t.group? 8
  agent := t.group? 9
  tail := (t.group? 10).getD []

def accessPatterns : AccessPatterns where
  accessLog text := ((accessLog py).matchAt noWord none text).map matchOf
  forwarded text := (forwarded.search noWord text).bind (·.group? 1)
  timingTail text := ((timingTail py).findall noWord text).filterMap (·.lookup 1)

end

/-- What the library says of the characters: `\d` takes the digits in ASCII, and nothing that
`isdigit` does not take or `strip` does; `unquote` returns a text without `%`. -/
structure Documented (py : Python) : Prop where
  decimal_ascii : ∀ c : CodePoint, c.val < 128 → py.isDecimal c = Text.isAsciiDigit c
  decimal_digit : ∀ c, py.isDecimal c = true → py.isDigit c = true
  decimal_visible : ∀ c, py.isDecimal c = true → isVisible c = true
  dash : py.isDigit (char '-') = false
  unquote : ∀ t : Text, char '%' ∉ t → py.unquote t = t
  slash : py.isPrintable (char '/') = true

/-! ## Parts of a line -/

theorem stops {p : CodePoint → Bool} {c : CodePoint} (h : p c = false) (rest : Text) : (c :: rest).head?.any p = false := h

theorem leads_one (c : Char) (rest : Text) : (one c).Leads noWord (char c :: rest) rest [] :=
  Regex.leads_char (by simp) rest

theorem leads_blanks {rest : Text} (h : rest.head?.any Text.isSpace = false) :
    blanks.Leads noWord (char ' ' :: rest) rest [] :=
  (Regex.leads_char (by decide) rest).seq (Regex.leads_star h (x := []) rfl)

theorem leads_field {p : CodePoint → Bool} {min max : Nat} {t rest : Text} (h : t.Within p min max)
    (hrest : rest.head?.any p = false) (index : Nat) :
    (Regex.group index (.rep false min max (.chars p))).Leads noWord (t ++ rest) rest [(index, t)] :=
  (Regex.leads_chars hrest h.all h.min_le h.le_max).group index

/-- A value, or the dash that stands for none. -/
theorem leads_value {p : CodePoint → Bool} {min max : Nat} {value : Option Text} {rest : Text}
    (h : ∀ t ∈ value, t.Within p (min + 1) max) (hdash : p (char '-') = false) (hrest : rest.head?.any p = false)
    (index : Nat) :
    (Regex.group index (.alt (.rep false (min + 1) max (.chars p)) (one '-'))).Leads noWord
      (value.getD (Text.ofString "-") ++ rest) rest [(index, value.getD (Text.ofString "-"))] := by
  cases value with
  | none =>
    have hfails : (Regex.rep false (min + 1) max (.chars p)).Fails noWord (char '-' :: rest) :=
      (Regex.fails_char (stops hdash rest)).rep false min max
    have hone : (Regex.alt (.rep false (min + 1) max (.chars p)) (one '-')).Leads noWord
        (Text.ofString "-" ++ rest) rest [] := Regex.Leads.right hfails (leads_one '-' rest)
    exact hone.group index
  | some t =>
    have ht := h t rfl
    exact (Regex.leads_chars hrest ht.all ht.min_le ht.le_max).left.group index

/-! ## A chain of addresses -/

/-- The addresses as proxies write them. -/
def joined (addresses : List Text) : Text := (Text.ofString ", ").intercalate addresses

def quote (text : Text) : Text := char '"' :: (text ++ [char '"'])

theorem joined_cons (a b : Text) (more : List Text) :
    joined (a :: b :: more) = a ++ char ',' :: char ' ' :: joined (b :: more) := by
  rw [joined, List.intercalate_cons_cons]
  simp [joined, Text.ofString, char]

theorem joined_singleton (a : Text) : joined [a] = a := List.intercalate_singleton

theorem address_visible : ∀ c, isAddressChar c = true → Text.isSpace c = false := fun c hc => by
  simp only [isAddressChar, Text.isAsciiDigit, Bool.or_eq_true, Bool.and_eq_true, decide_eq_true_eq] at hc
  have hval : 46 ≤ c.val ∧ c.val ≤ 102 := by
    rcases hc with (((hc | hc) | hc) | rfl) | rfl
    · omega
    · omega
    · omega
    · decide
    · decide
  have hrange : ∀ m : Nat, m < 46 ∨ 102 < m → c.val ≠ m := fun m hm => by omega
  simp [Text.isSpace, hrange, show ¬c.val ≤ 13 by omega, show ¬c.val ≤ 32 by omega, show ¬0x2000 ≤ c.val by omega]

theorem joined_head {addresses : List Text} (hne : addresses ≠ [])
    (h : ∀ a ∈ addresses, a.Within isAddressChar 3 45) (rest : Text) :
    (joined addresses ++ rest).head?.any Text.isSpace = false := by
  cases addresses with
  | nil => exact absurd rfl hne
  | cons a more =>
    have ha := h a List.mem_cons_self
    cases more with
    | nil =>
      rw [joined_singleton]
      exact ha.head address_visible rest
    | cons b more =>
      rw [joined_cons, List.append_assoc]
      exact ha.head address_visible _

theorem mem_joined {c : CodePoint} : ∀ {addresses : List Text}, c ∈ joined addresses →
    c = char ',' ∨ c = char ' ' ∨ ∃ a ∈ addresses, c ∈ a := by
  intro addresses
  induction addresses with
  | nil => exact fun h => by cases h
  | cons a more ih =>
    intro h
    cases more with
    | nil =>
      rw [joined_singleton] at h
      exact .inr (.inr ⟨a, List.mem_cons_self, h⟩)
    | cons b more =>
      rw [joined_cons, List.mem_append, List.mem_cons, List.mem_cons] at h
      rcases h with h | rfl | rfl | h
      · exact .inr (.inr ⟨a, List.mem_cons_self, h⟩)
      · exact .inl rfl
      · exact .inr (.inl rfl)
      · exact (ih h).imp_right (Or.imp_right fun ⟨x, hx, hc⟩ => ⟨x, List.mem_cons_of_mem _ hx, hc⟩)

theorem length_joined : ∀ {addresses : List Text}, (∀ a ∈ addresses, a.Within isAddressChar 3 45) →
    (joined addresses).length ≤ 47 * addresses.length := by
  intro addresses
  induction addresses with
  | nil => exact fun _ => Nat.le_refl 0
  | cons a more ih =>
    intro h
    have ha := (h a List.mem_cons_self).le_max
    cases more with
    | nil =>
      rw [joined_singleton, List.length_singleton]
      omega
    | cons b more =>
      have hmore := ih fun c hc => h c (List.mem_cons_of_mem _ hc)
      rw [joined_cons, List.length_append, List.length_cons, List.length_cons, List.length_cons (a := a)]
      omega

theorem leads_item {a rest : Text} (ha : a.Within isAddressChar 3 45) (hrest : rest.head?.any Text.isSpace = false) :
    chainItem.Leads noWord (a ++ char ',' :: char ' ' :: rest) rest [] :=
  have haddress : (Regex.rep false 3 45 (.chars isAddressChar)).Leads noWord (a ++ char ',' :: char ' ' :: rest)
      (char ',' :: char ' ' :: rest) [] :=
    Regex.leads_chars (stops (by decide) _) ha.all ha.min_le ha.le_max
  have hspace : (Regex.star Text.isSpace).Leads noWord ([char ' '] ++ rest) rest [] := Regex.leads_star hrest (by decide)
  haddress.seq ((leads_one ',' _).seq hspace).opt

theorem leads_last {a : Text} (ha : a.Within isAddressChar 3 45) (rest : Text) :
    chainItem.Leads noWord (a ++ char '"' :: rest) (char '"' :: rest) [] :=
  have haddress : (Regex.rep false 3 45 (.chars isAddressChar)).Leads noWord (a ++ char '"' :: rest) (char '"' :: rest) [] :=
    Regex.leads_chars (stops (by decide) _) ha.all ha.min_le ha.le_max
  have hcomma : (one ',').Fails noWord (char '"' :: rest) := Regex.fails_char (stops (by decide) _)
  haddress.seq (Regex.Leads.opt_stop hcomma.seq)

/-- Each round takes one address, with the comma and the blank behind it. -/
theorem leads_chain {rest : Text} : ∀ {addresses : List Text} {min max : Nat}, addresses ≠ [] →
    (∀ a ∈ addresses, a.Within isAddressChar 3 45) → min ≤ addresses.length → addresses.length ≤ max →
    (Regex.rep false min max chainItem).Leads noWord (joined addresses ++ char '"' :: rest) (char '"' :: rest) [] := by
  intro addresses
  induction addresses with
  | nil => exact fun h => absurd rfl h
  | cons a more ih =>
    intro min max _ h hmin hmax
    have ha := h a List.mem_cons_self
    rw [List.length_cons] at hmin hmax
    cases max with
    | zero => omega
    | succ max =>
      cases more with
      | nil =>
        have hstop : chainItem.Fails noWord (char '"' :: rest) :=
          ((Regex.fails_char (stops (by decide) _)).rep false 2 45).seq
        rw [joined_singleton]
        have hmore : (Regex.rep false (min - 1) max chainItem).Leads noWord (char '"' :: rest) (char '"' :: rest) [] := by
          rw [List.length_nil] at hmin
          obtain hzero : min - 1 = 0 := by omega
          rw [hzero]
          exact Regex.Leads.rep_stop hstop max
        exact Regex.Leads.rep_more (leads_last ha rest) hmore
      | cons b more =>
        have hall : ∀ c ∈ b :: more, c.Within isAddressChar 3 45 := fun c hc => h c (List.mem_cons_of_mem _ hc)
        have hmore : (Regex.rep false (min - 1) max chainItem).Leads noWord (joined (b :: more) ++ char '"' :: rest)
            (char '"' :: rest) [] := ih (List.cons_ne_nil _ _) hall (by omega) (by omega)
        rw [joined_cons, List.append_assoc]
        exact Regex.Leads.rep_more (leads_item ha (joined_head (List.cons_ne_nil _ _) hall _)) hmore

/-- The chain is what the search finds first in a text that begins with it. -/
theorem forwarded_chain {addresses : List Text} (py : Python) (hne : addresses ≠ [])
    (h : ∀ a ∈ addresses, a.Within isAddressChar 3 45) (hten : addresses.length ≤ 10) (rest : Text) :
    (accessPatterns py).forwarded (quote (joined addresses) ++ rest) = some (joined addresses) := by
  have hpos := List.length_pos_iff.2 hne
  have hgroup := (leads_chain hne h hpos hten : (Regex.rep false 1 10 chainItem).Leads noWord
    (joined addresses ++ char '"' :: rest) (char '"' :: rest) []).group 1
  have hleads := (leads_one '"' _).seq (hgroup.seq (leads_one '"' rest))
  have htext : quote (joined addresses) ++ rest = char '"' :: (joined addresses ++ char '"' :: rest) := by
    simp [quote]
  obtain ⟨last, hlast⟩ := Regex.Leads.search hleads
  rw [htext]
  exact congrArg (Option.bind · (·.group? 1)) hlast

theorem forwarded_none (py : Python) {text : Text} (h : char '"' ∉ text) : (accessPatterns py).forwarded text = none := by
  have hnone : forwarded.search noWord text = none := Regex.search_none fun t ht => by
    refine Regex.Fails.seq (Regex.fails_char ?_)
    cases t with
    | nil => rfl
    | cons c t =>
      have hc : c ≠ char '"' := fun hc => h (ht.mem (hc ▸ List.mem_cons_self))
      simpa using hc
  exact congrArg (Option.bind · (·.group? 1)) hnone

/-! ## Numbers -/

/-- `\d{1,6}\.\d{1,6}` or `\d{1,9}` -/
def IsTime (py : Python) (t : Text) : Prop :=
  (∃ whole fraction : Text, t = whole ++ char '.' :: fraction ∧ whole.Within py.isDecimal 1 6 ∧ fraction.Within py.isDecimal 1 6) ∨
    t.Within py.isDecimal 1 9

section

variable {py : Python}

theorem Documented.not_decimal (h : Documented py) {c : Char} (hc : (char c).val < 128)
    (hdigit : Text.isAsciiDigit (char c) = false) : py.isDecimal (char c) = false := by
  rw [h.decimal_ascii _ hc, hdigit]

theorem IsTime.ne_nil {t : Text} (h : IsTime py t) : t ≠ [] := by
  obtain ⟨whole, fraction, rfl, -, -⟩ | hdigits := h
  · simp
  · exact List.length_pos_iff.1 hdigits.min_le

theorem IsTime.length_le {t : Text} (h : IsTime py t) : t.length ≤ 13 := by
  obtain ⟨whole, fraction, rfl, hwhole, hfraction⟩ | hdigits := h
  · have hlen := hwhole.le_max
    have hlen' := hfraction.le_max
    rw [List.length_append, List.length_cons]
    omega
  · exact hdigits.le_max.trans (by omega)

theorem IsTime.mem {t : Text} (h : IsTime py t) {c : CodePoint} (hc : c ∈ t) : c = char '.' ∨ py.isDecimal c = true := by
  obtain ⟨whole, fraction, rfl, hwhole, hfraction⟩ | hdigits := h
  · rcases List.mem_append.1 hc with hc | hc
    · exact .inr (List.all_eq_true.1 hwhole.all c hc)
    · exact (List.mem_cons.1 hc).imp_right fun hc => List.all_eq_true.1 hfraction.all c hc
  · exact .inr (List.all_eq_true.1 hdigits.all c hc)

theorem takes_some {p : CodePoint → Bool} (min max : Nat) :
    (Regex.rep false (min + 1) max (.chars p)).Takes noWord (· ≠ []) := by
  refine ((Regex.takes_chars p).rep false (min + 1) max).mono ?_
  rintro _ ⟨us, rfl, hlen, hall⟩
  cases us with
  | nil => cases hlen
  | cons u us =>
    obtain ⟨c, rfl, -⟩ := hall u List.mem_cons_self
    simp

theorem takes_number : (timingTail py).Takes noWord (· ≠ []) := by
  refine (Regex.Takes.alt ?_ (takes_some 0 9)).group 1
  refine ((takes_some 0 6).seq (Regex.takes_any _)).mono ?_
  rintro _ ⟨u, v, rfl, hu, -⟩
  simp [hu]

theorem leads_time (hpy : Documented py) {t : Text} (h : IsTime py t) : (timingTail py).Leads noWord t [] [(1, t)] := by
  have hpoint : py.isDecimal (char '.') = false := hpy.not_decimal (by decide) (by decide)
  suffices hleads : (Regex.alt (.all [.rep false 1 6 (.chars py.isDecimal), one '.', .rep false 1 6 (.chars py.isDecimal)])
      (.rep false 1 9 (.chars py.isDecimal))).Leads noWord (t ++ []) [] [] by
    have hgroup := hleads.group 1
    rwa [List.append_nil] at hgroup
  obtain ⟨whole, fraction, rfl, hwhole, hfraction⟩ | hdigits := h
  · rw [List.append_nil]
    refine Regex.Leads.left ?_
    have hfirst : (Regex.rep false 1 6 (.chars py.isDecimal)).Leads noWord (whole ++ char '.' :: fraction)
        (char '.' :: fraction) [] := Regex.leads_chars (stops hpoint _) hwhole.all hwhole.min_le hwhole.le_max
    have hlast : (Regex.rep false 1 6 (.chars py.isDecimal)).Leads noWord (fraction ++ []) [] [] :=
      Regex.leads_chars rfl hfraction.all hfraction.min_le hfraction.le_max
    rw [List.append_nil] at hlast
    exact hfirst.seq ((leads_one '.' fraction).seq hlast)
  · refine Regex.Leads.right ?_ (Regex.leads_chars rfl hdigits.all hdigits.min_le hdigits.le_max)
    -- Without a point the first form has nothing to take.
    have htakes : (Regex.all [.rep false 1 6 (.chars py.isDecimal), one '.', .rep false 1 6 (.chars py.isDecimal)]).Takes
        noWord (char '.' ∈ ·) := by
      refine ((Regex.takes_any _).seq ((Regex.takes_chars _).seq (Regex.takes_any _))).mono ?_
      rintro _ ⟨u, _, rfl, -, _, w, rfl, ⟨c, rfl, hc⟩, -⟩
      simp [of_decide_eq_true hc]
    refine Regex.Fails.of_takes htakes fun u hu hmem => ?_
    rw [List.append_nil] at hu
    have hdecimal := List.all_eq_true.1 hdigits.all _ (hu.mem hmem)
    rw [hpoint] at hdecimal
    cases hdecimal

/-- What is found from a place on. -/
def numbersFrom (py : Python) (prev : Option CodePoint) (text : Text) : List Text :=
  ((timingTail py).findallFrom noWord 0 prev text).filterMap (·.lookup 1)

theorem numbersFrom_append {q : CodePoint} (hq : py.isDecimal q = false) (hpoint : q ≠ char '.') (prev : Option CodePoint)
    (a b : Text) : numbersFrom py prev (a ++ q :: b) = numbersFrom py prev a ++ numbersFrom py (some q) b := by
  have havoids : (timingTail py).avoids q = true := by
    simp [timingTail, Regex.all, Regex.avoids, one, hq, hpoint]
  rw [numbersFrom, Regex.findallFrom_append rfl havoids takes_number b (Nat.zero_le _), List.filterMap_append]
  rfl

theorem numbersFrom_time (hpy : Documented py) {t : Text} (h : IsTime py t) (hne : t ≠ []) (prev : Option CodePoint) :
    numbersFrom py prev t = [t] := by
  rw [numbersFrom, Regex.findallFrom_whole (leads_time hpy h) hne]
  rfl

end

end AccessLogParser

end LogAnalytics
