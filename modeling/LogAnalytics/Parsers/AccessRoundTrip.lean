import LogAnalytics.Parsers.AccessPatterns
import LogAnalytics.Pipeline.Assembly
/-!
# Access lines read back

A line in the combined format is written from the values of a request and parsed. The tail may
have a quoted chain of proxies in front of the times, and the parser reads the times as the first
numbers of the tail.
-/
open LogAnalytics.Lib

namespace LogAnalytics

open Timeutil (char)

open AccessLogParser (isAddressChar isVisible isNot IsTime joined quote levelForStatus orDash timing accessPatterns)

/-- A time in seconds, as it is written and as it is read. -/
structure Seconds (py : Python) where
  text : Text
  value : PyFloat
  isTime : IsTime py text
  reads : py.float text = some value

def Seconds.ms {py : Python} (s : Seconds py) : PyFloat := s.value.scale 1000

/-- Neither a blank nor one of `?`, `#`, `%` and `"`. -/
def isPathChar (c : CodePoint) : Bool := isVisible c && isNot '?' c && isNot '#' c && isNot '%' c && isNot '"' c

def requestLine (method : HttpMethod) (path protocol : Text) : Text :=
  Text.ofString method.toStr ++ char ' ' :: (path ++ char ' ' :: protocol)

/-- A value, or the dash that is written where there is none. -/
def written (value : Option Text) : Text := value.getD (Text.ofString "-")

/-- The values of a line in the combined format, with what may follow it. -/
structure AccessEntry (py : Python) where
  address : Option Text
  ident : Option Text
  user : Option Text
  time : Text
  method : HttpMethod
  path : Text
  protocol : Text
  status : Option Text
  bytes : Option Text
  referrer : Option Text
  agent : Option Text
  chain : Option (List Text)
  requestTime : Option (Seconds py)
  upstreamTime : Option (Seconds py)
  address_ok : ∀ t ∈ address, t.Within isAddressChar 3 45
  ident_ok : ∀ t ∈ ident, t.Within isVisible 1 64 ∧ t ≠ Text.ofString "-"
  user_ok : ∀ t ∈ user, t.Within isVisible 1 255 ∧ t ≠ Text.ofString "-"
  time_ok : time.Within (isNot ']') 1 64
  path_ok : path.all isPathChar = true
  protocol_ok : protocol.all (isNot '"') = true ∧ protocol ≠ []
  request_ok : (requestLine method path protocol).length ≤ 8192
  status_ok : ∀ t ∈ status, t.Within py.isDecimal 3 3
  bytes_ok : ∀ t ∈ bytes, t.Within py.isDecimal 1 19
  referrer_ok : ∀ t ∈ referrer, t.Within (isNot '"') 1 2048 ∧ t ≠ Text.ofString "-"
  agent_ok : ∀ t ∈ agent, t.Within (isNot '"') 1 2048 ∧ t ≠ Text.ofString "-"
  chain_ok : ∀ addresses ∈ chain, addresses ≠ [] ∧ addresses.length ≤ 10 ∧ ∀ a ∈ addresses, a.Within isAddressChar 3 45

namespace AccessEntry

variable {py : Python}

/-! ## The line -/

def parts (e : AccessEntry py) : List Text :=
  (e.chain.map fun addresses => quote (joined addresses)).toList ++ (e.requestTime.map (·.text)).toList ++
    (e.upstreamTime.map (·.text)).toList

def tail (e : AccessEntry py) : Text := e.parts.flatMap fun part => char ' ' :: part

def line (e : AccessEntry py) : Text :=
  written e.address ++ char ' ' :: (written e.ident ++ char ' ' :: (written e.user ++ char ' ' :: char '[' ::
    (e.time ++ char ']' :: char ' ' :: char '"' :: (requestLine e.method e.path e.protocol ++ char '"' :: char ' ' ::
      (written e.status ++ char ' ' :: (written e.bytes ++ char ' ' :: char '"' :: (written e.referrer ++ char '"' ::
        char ' ' :: char '"' :: (written e.agent ++ char '"' :: e.tail))))))))

/-! ## The values -/

/-- The address of the client: that of the line, or the first of the chain. -/
def client (e : AccessEntry py) : Option Text := e.address.or (e.chain.bind List.head?)

def statusCode (e : AccessEntry py) : Option Nat := e.status.bind fun t => (py.intOfDigits t).toOption

def bytesSent (e : AccessEntry py) : Option Nat := e.bytes.bind fun t => (py.intOfDigits t).toOption

def metadataWith (e : AccessEntry py) (protocol : Text) (upstreamMs : Option PyFloat) : Dict :=
  (Text.ofString "protocol", .str protocol) :: ((e.ident.map fun t => (Text.ofString "ident", Value.str t)).toList ++
    (e.chain.map fun addresses => (Text.ofString "forwarded_for", Value.str (joined addresses))).toList ++
      (upstreamMs.map fun ms => (Text.ofString "upstream_time_ms", Value.float ms)).toList)

def metadata (e : AccessEntry py) : Dict := e.metadataWith e.protocol (e.upstreamTime.map Seconds.ms)

/-- The fields of the line, but for those that may be read otherwise. -/
def fieldsWith (e : AccessEntry py) (address : Option Text) (path protocol : Text) (ms upstreamMs : Option PyFloat) : Fields where
  level := levelForStatus e.statusCode
  ipAddress := address
  httpMethod := some e.method
  endpoint := some path
  statusCode := e.statusCode.map Int.ofNat
  responseTimeMs := ms
  bytesSent := e.bytesSent.map Int.ofNat
  referrer := e.referrer
  userAgent := e.agent
  userId := e.user
  message := Text.ofString e.method.toStr ++ Text.ofString " " ++ orDash (some path) ++ Text.ofString " " ++
    orDash ((e.statusCode.filter (· ≠ 0)).map fun n => Text.ofString (toString n))
  metadata := e.metadataWith protocol upstreamMs

def fields (e : AccessEntry py) : Fields :=
  e.fieldsWith e.client e.path e.protocol (e.requestTime.map Seconds.ms) (e.upstreamTime.map Seconds.ms)

/-- An event has the values of the line. -/
structure Returned (e : AccessEntry py) (now : Clock) (event : LogEvent) : Prop where
  time : Stamp.read py now { value := .str e.time } = .ok (some event.timestamp)
  address : event.body.ipAddress = e.client
  user : event.body.userId = e.user
  method : event.body.httpMethod = some e.method
  path : event.body.endpoint = some e.path
  status : event.body.statusCode = e.statusCode.map Int.ofNat
  bytes : event.body.bytesSent = e.bytesSent.map Int.ofNat
  referrer : event.body.referrer = e.referrer
  agent : event.body.userAgent = e.agent
  responseTime : event.body.responseTimeMs = e.requestTime.map Seconds.ms
  /-- The protocol, the ident, the chain and the upstream time. -/
  metadata : event.body.metadata = e.metadata

def RoundTrips (e : AccessEntry py) (now : Clock) (context : ParseContext) : Prop :=
  ∃ event, ((AccessLogParser.parser py (accessPatterns py)).toLogParser py).parse now e.line context = .ok event ∧
    e.Returned now event

/-! ## When they are read back -/

/-- The body of an event with these fields, as the validators leave it. -/
def body (e : AccessEntry py) (context : ParseContext) (fields : Fields) : EventBody :=
  (finalBody (Text.ofString "access") false { toFields := fields, raw := e.line } context).prepare py

/-- An event can hold the values. -/
structure Held (e : AccessEntry py) (now : Clock) (context : ParseContext) : Prop where
  time : ∃ clock, Stamp.read py now { value := .str e.time } = .ok (some clock)
  address : ∀ a ∈ e.address, EventBody.ip py a = some a
  path : e.path ≠ [] ∧ e.path.all py.isPrintable = true ∧ e.path.length ≤ 2048
  protocol : e.protocol.length ≤ 16
  referrer : ∀ t ∈ e.referrer, t.trim = t
  agent : ∀ t ∈ e.agent, t.trim = t
  formed : (e.body context e.fields).wellFormed = true

/-- The numbers of the tail: those in the chain, and behind them the times. -/
def numbers (e : AccessEntry py) : List Text :=
  (e.chain.elim [] fun addresses => (accessPatterns py).timingTail (quote (joined addresses))) ++
    (e.requestTime.map (·.text)).toList ++ (e.upstreamTime.map (·.text)).toList

/-- The first two numbers are the times. -/
def TimesFirst (e : AccessEntry py) : Prop :=
  (e.numbers[0]?).bind (timing py) = e.requestTime.map Seconds.ms ∧
    (e.numbers[1]?).bind (timing py) = e.upstreamTime.map Seconds.ms

open AccessLogParser (Documented stops leads_one leads_blanks leads_field leads_value noWord accessLog address_visible)

/-! ## The tail -/

section

theorem visible_space {c : CodePoint} (h : isVisible c = true) : Text.isSpace c = false := by
  simpa [isVisible] using h

theorem mem_parts {e : AccessEntry py} {part : Text} (h : part ∈ e.parts) :
    (∃ addresses ∈ e.chain, part = quote (joined addresses)) ∨ ∃ s : Seconds py, part = s.text := by
  simp only [parts, List.mem_append, Option.mem_toList, Option.map_eq_some_iff] at h
  obtain (⟨addresses, hchain, rfl⟩ | ⟨s, -, rfl⟩) | ⟨s, -, rfl⟩ := h
  · exact .inl ⟨addresses, hchain, rfl⟩
  · exact .inr ⟨s, rfl⟩
  · exact .inr ⟨s, rfl⟩

theorem time_visible (hpy : Documented py) (s : Seconds py) : ∀ c ∈ s.text, Text.isSpace c = false := fun c hc => by
  rcases s.isTime.mem hc with rfl | hdecimal
  · decide
  · exact visible_space (hpy.decimal_visible c hdecimal)

/-- A part begins and ends with something other than a blank. -/
theorem part_ends (hpy : Documented py) {e : AccessEntry py} {part : Text} (h : part ∈ e.parts) :
    part ≠ [] ∧ (∀ c ∈ part.head?, Text.isSpace c = false) ∧ ∀ c ∈ part.getLast?, Text.isSpace c = false := by
  obtain ⟨addresses, -, rfl⟩ | ⟨s, rfl⟩ := mem_parts h
  · refine ⟨List.cons_ne_nil _ _, fun c hc => ?_, fun c hc => ?_⟩
    · rw [← Option.mem_some.1 hc]
      decide
    · rw [quote, ← List.cons_append, List.getLast?_concat, Option.mem_some] at hc
      rw [← hc]
      decide
  · exact ⟨s.isTime.ne_nil, fun c hc => time_visible hpy s c (List.mem_of_mem_head? hc),
      fun c hc => time_visible hpy s c (List.mem_of_mem_getLast? hc)⟩

theorem tail_last (hpy : Documented py) (e : AccessEntry py) : ∀ c ∈ e.tail.getLast?, Text.isSpace c = false := by
  suffices h : ∀ parts : List Text, (∀ part ∈ parts, part ≠ [] ∧ ∀ c ∈ part.getLast?, Text.isSpace c = false) →
      ∀ c ∈ (parts.flatMap fun part => char ' ' :: part).getLast?, Text.isSpace c = false from
    h e.parts fun part hpart => ⟨(part_ends hpy hpart).1, (part_ends hpy hpart).2.2⟩
  intro parts
  induction parts with
  | nil => exact fun _ c hc => by cases hc
  | cons part parts ih =>
    intro h c hc
    obtain ⟨hne, hlast⟩ := h part List.mem_cons_self
    rw [List.flatMap_cons, List.getLast?_append, List.getLast?_cons_of_ne_nil hne, Option.mem_def,
      Option.or_eq_some_iff] at hc
    rcases hc with hc | ⟨-, hc⟩
    · exact ih (fun p hp => h p (List.mem_cons_of_mem _ hp)) c hc
    · exact hlast c hc

theorem tail_within (hpy : Documented py) (e : AccessEntry py) : e.tail.Within (isNot '\n') 0 512 := by
  have hspace : ∀ c, Text.isSpace c = false → isNot '\n' c = true := fun c hc => by
    simp only [isNot, decide_eq_true_eq]
    rintro rfl
    exact absurd hc (by decide)
  refine ⟨List.all_eq_true.2 fun c hc => ?_, Nat.zero_le _, ?_⟩
  · obtain ⟨part, hpart, hc⟩ := List.mem_flatMap.1 hc
    rcases List.mem_cons.1 hc with rfl | hc
    · decide
    · obtain ⟨addresses, hchain, rfl⟩ | ⟨s, rfl⟩ := mem_parts hpart
      · simp only [quote, List.mem_cons, List.mem_append, List.not_mem_nil, or_false] at hc
        rcases hc with rfl | hc | rfl
        · decide
        · obtain rfl | rfl | ⟨a, ha, hc⟩ := AccessLogParser.mem_joined hc
          · decide
          · decide
          · exact hspace c (address_visible c (List.all_eq_true.1 ((e.chain_ok addresses hchain).2.2 a ha).all c hc))
        · decide
      · exact hspace c (time_visible hpy s c hc)
  · have hoption : ∀ {β : Type} (o : Option β) (f : β → Text) (n : Nat), (∀ x ∈ o, (f x).length ≤ n) →
        ((o.map f).toList.flatMap fun part => char ' ' :: part).length ≤ n + 1 := by
      intro β o f n h
      cases o with
      | none => exact Nat.zero_le _
      | some x =>
        rw [Option.map_some, Option.toList_some, List.flatMap_singleton, List.length_cons]
        exact Nat.succ_le_succ (h x rfl)
    have hchain := hoption e.chain (fun addresses => quote (joined addresses)) 472 fun addresses h => by
      obtain ⟨-, hten, haddresses⟩ := e.chain_ok addresses h
      have hlen := AccessLogParser.length_joined haddresses
      rw [quote, List.length_cons, List.length_append, List.length_singleton]
      omega
    have htimes : ∀ o : Option (Seconds py), ((o.map (·.text)).toList.flatMap fun part => char ' ' :: part).length ≤ 14 :=
      fun o => hoption o (·.text) 13 fun s _ => s.isTime.length_le
    have hrequest := htimes e.requestTime
    have hupstream := htimes e.upstreamTime
    rw [tail, parts, List.flatMap_append, List.flatMap_append, List.length_append, List.length_append]
    omega

/-- `tail.strip()` takes the first blank. -/
theorem strip_tail (hpy : Documented py) {e : AccessEntry py} {part : Text} {more : List Text} (h : e.parts = part :: more) :
    e.tail.strip = part ++ more.flatMap fun part => char ' ' :: part := by
  obtain ⟨hne, hhead, -⟩ := part_ends hpy (e := e) (h ▸ List.mem_cons_self)
  have htail : e.tail = char ' ' :: (part ++ more.flatMap fun part => char ' ' :: part) := by
    rw [tail, h, List.flatMap_cons, List.cons_append]
  have hlast := tail_last hpy e
  rw [htail, List.getLast?_cons_of_ne_nil (List.append_ne_nil_of_left_ne_nil hne _)] at hlast
  have hstrip : e.tail.strip = (part ++ more.flatMap fun part => char ' ' :: part).strip := by
    rw [htail, Text.strip, List.dropWhile_cons_of_pos (by decide)]
    rfl
  rw [hstrip]
  refine Text.strip_eq_self (fun c hc => hhead c ?_) hlast
  rwa [List.head?_append_of_ne_nil _ hne] at hc

/-! ## What the patterns find in the tail -/

theorem numbersFrom_parts (hpy : Documented py) : ∀ (more : List Text) (prev : Option CodePoint) (part : Text),
    AccessLogParser.numbersFrom py prev (part ++ more.flatMap fun part => char ' ' :: part) =
      AccessLogParser.numbersFrom py prev part ++ more.flatMap (AccessLogParser.numbersFrom py (some (char ' '))) := by
  intro more
  induction more with
  | nil =>
    intro prev part
    rw [List.flatMap_nil, List.flatMap_nil, List.append_nil, List.append_nil]
  | cons next more ih =>
    intro prev part
    have hspace : py.isDecimal (char ' ') = false := hpy.not_decimal (by decide) (by decide)
    rw [List.flatMap_cons, List.cons_append, AccessLogParser.numbersFrom_append hspace (by decide), ih, List.flatMap_cons]

theorem numbers_times (hpy : Documented py) (o : Option (Seconds py)) (prev : Option CodePoint) :
    (o.map (·.text)).toList.flatMap (AccessLogParser.numbersFrom py prev) = (o.map (·.text)).toList := by
  cases o with
  | none => rfl
  | some s =>
    rw [Option.map_some, Option.toList_some, List.flatMap_singleton,
      AccessLogParser.numbersFrom_time hpy s.isTime s.isTime.ne_nil]

theorem timingTail_tail (hpy : Documented py) {e : AccessEntry py} (hne : e.parts ≠ []) :
    (accessPatterns py).timingTail e.tail.strip = e.numbers := by
  obtain ⟨part, more, hparts⟩ := List.exists_cons_of_ne_nil hne
  have hnumbers : (accessPatterns py).timingTail e.tail.strip =
      AccessLogParser.numbersFrom py none part ++ more.flatMap (AccessLogParser.numbersFrom py (some (char ' '))) := by
    rw [strip_tail hpy hparts]
    exact numbersFrom_parts hpy more none part
  rw [hnumbers, numbers]
  unfold parts at hparts
  cases hchain : e.chain with
  | some addresses =>
    rw [hchain, Option.map_some, Option.toList_some, List.append_assoc, List.singleton_append] at hparts
    obtain ⟨rfl, rfl⟩ := List.cons.inj hparts
    rw [List.flatMap_append, numbers_times hpy, numbers_times hpy, Option.elim_some, List.append_assoc]
    rfl
  | none =>
    rw [hchain, Option.map_none, Option.toList_none, List.nil_append] at hparts
    cases hrequest : e.requestTime with
    | some s =>
      rw [hrequest, Option.map_some, Option.toList_some, List.singleton_append] at hparts
      obtain ⟨rfl, rfl⟩ := List.cons.inj hparts
      rw [numbers_times hpy, AccessLogParser.numbersFrom_time hpy s.isTime s.isTime.ne_nil]
      rfl
    | none =>
      rw [hrequest] at hparts
      cases hupstream : e.upstreamTime with
      | none =>
        rw [hupstream] at hparts
        cases hparts
      | some s =>
        rw [hupstream] at hparts
        obtain ⟨rfl, rfl⟩ := List.cons.inj hparts
        rw [AccessLogParser.numbersFrom_time hpy s.isTime s.isTime.ne_nil]
        rfl

theorem forwarded_tail (hpy : Documented py) (e : AccessEntry py) :
    (accessPatterns py).forwarded e.tail.strip = e.chain.map joined := by
  cases hchain : e.chain with
  | some addresses =>
    have hparts : e.parts = quote (joined addresses) :: ((e.requestTime.map (·.text)).toList ++
        (e.upstreamTime.map (·.text)).toList) := by
      rw [parts, hchain]
      rfl
    obtain ⟨hne, hten, haddresses⟩ := e.chain_ok addresses hchain
    rw [strip_tail hpy hparts, AccessLogParser.forwarded_chain py hne haddresses hten]
    rfl
  | none =>
    refine AccessLogParser.forwarded_none py fun hquote => ?_
    obtain ⟨part, hpart, hquote⟩ := List.mem_flatMap.1 (Text.mem_strip hquote)
    obtain ⟨addresses, hsome, -⟩ | ⟨s, rfl⟩ := mem_parts hpart
    · cases hchain.symm.trans hsome
    · rcases List.mem_cons.1 hquote with hquote | hquote
      · exact absurd hquote (by decide)
      · rcases s.isTime.mem hquote with hpoint | hdecimal
        · exact absurd hpoint (by decide)
        · rw [hpy.not_decimal (by decide) (by decide)] at hdecimal
          cases hdecimal

end

/-! ## What the pattern takes -/

section

theorem written_head {p : CodePoint → Bool} {min max : Nat} {value : Option Text} (h : ∀ t ∈ value, t.Within p (min + 1) max)
    (hp : ∀ c, p c = true → Text.isSpace c = false) (rest : Text) :
    (written value ++ rest).head?.any Text.isSpace = false := by
  cases value with
  | none => exact stops (by decide) rest
  | some t => exact (h t rfl).head hp rest

theorem written_within {p : CodePoint → Bool} {min max : Nat} {value : Option Text} (h : ∀ t ∈ value, t.Within p min max)
    (hdash : p (char '-') = true) (hmin : min ≤ 1) (hmax : 1 ≤ max) : (written value).Within p min max := by
  cases value with
  | none => exact ⟨by simpa [written, Text.ofString, char] using hdash, hmin, hmax⟩
  | some t => exact h t rfl

theorem request_within (e : AccessEntry py) :
    (requestLine e.method e.path e.protocol).Within (isNot '"') 0 8192 := by
  have hmethod : (Text.ofString e.method.toStr).all (isNot '"') = true := by
    cases e.method <;> decide
  have hpath : e.path.all (isNot '"') = true := List.all_eq_true.2 fun c hc => by
    have hchar := List.all_eq_true.1 e.path_ok c hc
    simp only [isPathChar, Bool.and_eq_true] at hchar
    exact hchar.2
  refine ⟨?_, Nat.zero_le _, e.request_ok⟩
  rw [requestLine, List.all_append, List.all_cons, List.all_append, List.all_cons, hmethod, hpath, e.protocol_ok.1]
  decide

/-- What the pattern finds in the line. -/
def groups (e : AccessEntry py) : List (Nat × Text) :=
  [(1, written e.address), (2, written e.ident), (3, written e.user), (4, e.time),
    (5, requestLine e.method e.path e.protocol), (6, written e.status), (7, written e.bytes), (8, written e.referrer),
    (9, written e.agent), (10, e.tail)]

theorem leads_line (hpy : Documented py) (e : AccessEntry py) (htail : e.tail.Within (isNot '\n') 0 512) :
    (accessLog py).Leads noWord e.line [] e.groups := by
  have hdecimal : ∀ c, py.isDecimal c = true → Text.isSpace c = false := fun c hc => visible_space (hpy.decimal_visible c hc)
  have hdash : py.isDecimal (char '-') = false := hpy.not_decimal (by decide) (by decide)
  have hspace : py.isDecimal (char ' ') = false := hpy.not_decimal (by decide) (by decide)
  have hident := written_within (fun t ht => (e.ident_ok t ht).1) (by decide) (by omega) (by omega)
  have huser := written_within (fun t ht => (e.user_ok t ht).1) (by decide) (by omega) (by omega)
  have hreferrer := (written_within (fun t ht => (e.referrer_ok t ht).1) (by decide) (by omega) (by omega)).zero
  have hagent := (written_within (fun t ht => (e.agent_ok t ht).1) (by decide) (by omega) (by omega)).zero
  have hend : (Regex.group 10 (.rep false 0 512 (.chars (isNot '\n')))).Leads noWord (e.tail ++ []) [] [(10, e.tail)] :=
    leads_field htail rfl 10
  rw [List.append_nil] at hend
  -- Behind the size, the two quoted texts and the tail.
  have hagents : (Regex.all [AccessLogParser.blanks, AccessLogParser.one '"',
      .group 8 (.rep false 0 2048 (.chars (isNot '"'))), AccessLogParser.one '"', AccessLogParser.blanks,
      AccessLogParser.one '"', .group 9 (.rep false 0 2048 (.chars (isNot '"'))), AccessLogParser.one '"']).Leads noWord
      (char ' ' :: char '"' :: (written e.referrer ++ char '"' :: char ' ' :: char '"' ::
        (written e.agent ++ char '"' :: e.tail))) e.tail [(8, written e.referrer), (9, written e.agent)] :=
    (leads_blanks (stops (by decide) _)).seq ((leads_one '"' _).seq
      ((leads_field hreferrer (stops (by decide) _) 8).seq ((leads_one '"' _).seq ((leads_blanks (stops (by decide) _)).seq
        ((leads_one '"' _).seq ((leads_field hagent (stops (by decide) _) 9).seq (leads_one '"' _)))))))
  have hrest := hagents.opt.seq (hend.seq (Regex.leads_end fun _ => true))
  -- In front of it, one part after the other takes its value and the blank behind it.
  exact (leads_value e.address_ok (by decide) (stops (by decide) _) 1).seq
    ((leads_blanks (hident.head (fun _ => visible_space) _)).seq ((leads_field hident (stops (by decide) _) 2).seq
    ((leads_blanks (huser.head (fun _ => visible_space) _)).seq ((leads_field huser (stops (by decide) _) 3).seq
    ((leads_blanks (stops (by decide) _)).seq ((leads_one '[' _).seq ((leads_field e.time_ok (stops (by decide) _) 4).seq
    ((leads_one ']' _).seq ((leads_blanks (stops (by decide) _)).seq ((leads_one '"' _).seq
    ((leads_field e.request_within (stops (by decide) _) 5).seq ((leads_one '"' _).seq
    ((leads_blanks (written_head e.status_ok hdecimal _)).seq ((leads_value e.status_ok hdash (stops hspace _) 6).seq
    ((leads_blanks (written_head e.bytes_ok hdecimal _)).seq
    ((leads_value e.bytes_ok hdash (stops hspace _) 7).seq hrest))))))))))))))))

theorem match_line (hpy : Documented py) (e : AccessEntry py) :
    (accessPatterns py).accessLog e.line =
      some { ip := written e.address, ident := written e.ident, user := written e.user, time := e.time
             request := requestLine e.method e.path e.protocol, status := written e.status, bytes := written e.bytes
             referrer := some (written e.referrer), agent := some (written e.agent), tail := e.tail } := by
  obtain ⟨last, hlast⟩ := (leads_line hpy e (tail_within hpy e)).matchAt none
  exact congrArg (Option.map AccessLogParser.matchOf) hlast

/-- The line has no newline to strip. -/
theorem rstripNewlines_line (hpy : Documented py) (e : AccessEntry py) : e.line.rstripNewlines = e.line := by
  have hlast : ∀ c ∈ e.line.getLast?, Text.isSpace c = false := fun c hc => by
    simp only [line, List.getLast?_append, List.getLast?_cons, Option.some_or, Option.getD_some, Option.mem_def,
      Option.some.injEq] at hc
    cases htail : e.tail.getLast? with
    | none =>
      rw [htail] at hc
      rw [← hc]
      decide
    | some d =>
      rw [htail] at hc
      rw [← hc]
      exact tail_last hpy e d htail
  rw [← List.head?_reverse] at hlast
  rw [Text.rstripNewlines]
  cases hline : e.line.reverse with
  | nil => rw [List.dropWhile_nil, ← hline, List.reverse_reverse]
  | cons c rest =>
    rw [hline] at hlast
    have hvisible := hlast c rfl
    rw [List.dropWhile_cons_of_neg, ← hline, List.reverse_reverse]
    rw [Bool.or_eq_true, decide_eq_true_eq, decide_eq_true_eq]
    rintro (rfl | rfl)
    · exact absurd hvisible (by decide)
    · exact absurd hvisible (by decide)

end

/-! ## What the parser makes of the line -/

section

open NginxErrorLogParser (before after?)

theorem before_append {sep : Char} {a : Text} (h : char sep ∉ a) (b : Text) : before sep (a ++ char sep :: b) = a := by
  rw [before, List.takeWhile_append_of_pos, List.takeWhile_cons_of_neg (by simp), List.append_nil]
  exact fun _ hc => decide_eq_true fun heq => h (heq ▸ hc)

theorem after?_append {sep : Char} {a : Text} (h : char sep ∉ a) (b : Text) : after? sep (a ++ char sep :: b) = some b := by
  rw [after?, List.dropWhile_append_of_pos, List.dropWhile_cons_of_neg (by simp)]
  exact fun _ hc => decide_eq_true fun heq => h (heq ▸ hc)

theorem before_of_not_mem {sep : Char} {a : Text} (h : char sep ∉ a) : before sep a = a :=
  List.takeWhile_eq_self_iff.2 fun _ hc => decide_eq_true fun heq => h (heq ▸ hc)

theorem not_mem_path (e : AccessEntry py) {c : Char} (hc : isPathChar (char c) = false) : char c ∉ e.path := fun h => by
  rw [List.all_eq_true.1 e.path_ok _ h] at hc
  cases hc

/-- Of the path the parser keeps 2048 printable characters, or a slash where there are none. -/
def readPath (e : AccessEntry py) : Text :=
  let path := (e.path.filter py.isPrintable).take 2048
  if path = [] then [char '/'] else path

theorem method_text (m : HttpMethod) :
    (Text.ofString m.toStr).take 16 = Text.ofString m.toStr ∧ (Text.ofString m.toStr).isAscii = true ∧
      (Text.ofString m.toStr).map Text.asciiUpper = Text.ofString m.toStr ∧ Text.ofString m.toStr ≠ [] ∧
        (Text.ofString m.toStr).strip = Text.ofString m.toStr ∧ char ' ' ∉ Text.ofString m.toStr := by
  cases m <;> decide

theorem splitRequest_line (hpy : Documented py) (e : AccessEntry py) :
    AccessLogParser.splitRequest py (requestLine e.method e.path e.protocol) =
      (some (Text.ofString e.method.toStr), some e.readPath, some (e.protocol.take 16)) := by
  obtain ⟨htake, hascii, hupper, hne, -, hspace⟩ := method_text e.method
  have hpath : char ' ' ∉ e.path := e.not_mem_path (by decide)
  have hquery : before '#' (before '?' e.path) = e.path := by
    rw [before_of_not_mem (e.not_mem_path (by decide)), before_of_not_mem (e.not_mem_path (by decide))]
  have hmethod : AccessLogParser.orNone (py.textCase.upper ((Text.ofString e.method.toStr).take 16)) =
      some (Text.ofString e.method.toStr) := by
    rw [htake, py.textCase.upper_ascii _ hascii, hupper, AccessLogParser.orNone, if_neg hne]
  rw [AccessLogParser.splitRequest, requestLine, after?_append hspace, before_append hspace]
  simp only
  rw [before_append hpath, after?_append hpath, hquery, hpy.unquote _ (e.not_mem_path (by decide)), hmethod]
  rfl

theorem ofText_method (m : HttpMethod) : HttpMethod.ofText py (Text.ofString m.toStr) = some m := by
  obtain ⟨-, hascii, hupper, hne, hstrip, -⟩ := method_text m
  have hfind : (HttpMethod.members.find? fun n => Text.ofString n.toStr = Text.ofString m.toStr).getD .other = m := by
    cases m <;> decide
  rw [HttpMethod.ofText, hstrip, py.textCase.upper_ascii _ hascii, hupper, if_neg hne, hfind]

theorem exists_intOfDigits : ∀ {t : Text}, t.all py.isDecimal = true → ∃ n, py.intOfDigits t = .ok n := by
  intro t h
  have hsome : ∃ digits, t.mapM py.decimal = some digits := by
    induction t with
    | nil => exact ⟨[], rfl⟩
    | cons c t ih =>
      rw [List.all_cons, Bool.and_eq_true] at h
      obtain ⟨d, hd⟩ := Option.isSome_iff_exists.1 h.1
      obtain ⟨ds, hds⟩ := ih h.2
      exact ⟨d :: ds, by rw [List.mapM_cons, hd, hds]; rfl⟩
  obtain ⟨digits, hdigits⟩ := hsome
  exact ⟨_, by rw [Python.intOfDigits, hdigits]⟩

theorem digits_written (hpy : Documented py) {min max : Nat} {value : Option Text}
    (h : ∀ t ∈ value, t.Within py.isDecimal (min + 1) max) :
    AccessLogParser.digits py (written value) = .ok (value.bind fun t => (py.intOfDigits t).toOption) := by
  cases value with
  | none =>
    have hdash : ¬((Text.ofString "-").all py.isDigit = true) := by
      simpa [Text.ofString, char] using hpy.dash
    exact if_neg fun h => hdash h.2
  | some t =>
    obtain ⟨hall, hmin, -⟩ := h t rfl
    obtain ⟨n, hn⟩ := exists_intOfDigits hall
    have hdigits : t.all py.isDigit = true :=
      List.all_eq_true.2 fun c hc => hpy.decimal_digit c (List.all_eq_true.1 hall c hc)
    have hne : t ≠ [] := List.length_pos_iff.1 (Nat.lt_of_lt_of_le (Nat.succ_pos min) hmin)
    rw [written, Option.getD_some, AccessLogParser.digits, if_pos ⟨hne, hdigits⟩, Option.bind_some, hn]
    rfl

theorem cleanOptional_written {p : CodePoint → Bool} {min max : Nat} {value : Option Text}
    (h : ∀ t ∈ value, t.Within p (min + 1) max ∧ t ≠ Text.ofString "-") :
    AccessLogParser.cleanOptional (some (written value)) = value := by
  cases value with
  | none => rfl
  | some t =>
    obtain ⟨hwithin, hdash⟩ := h t rfl
    have hne : t ≠ [] := List.length_pos_iff.1 (Nat.lt_of_lt_of_le (Nat.succ_pos min) hwithin.min_le)
    rw [AccessLogParser.cleanOptional, written, Option.getD_some, Option.filter_some, if_pos (by simp [hne, hdash])]

/-- The fields the parser finds. -/
def found (e : AccessEntry py) : Fields :=
  e.fieldsWith (some (written e.address)) e.readPath (e.protocol.take 16) ((e.numbers[0]?).bind (timing py))
    ((e.numbers[1]?).bind (timing py))

/-- The metadata without what the tail adds. -/
def headMetadata (e : AccessEntry py) : Dict :=
  (Text.ofString "protocol", .str (e.protocol.take 16)) :: (e.ident.map fun t => (Text.ofString "ident", Value.str t)).toList

theorem set_new {d : Dict} {key : Text} (h : ∀ item ∈ d, item.1 ≠ key) (value : Value) :
    d.set key value = d ++ [(key, value)] := by
  rw [Dict.set, if_neg]
  rw [List.any_eq_true]
  rintro ⟨item, hitem, hkey⟩
  exact h item hitem (of_decide_eq_true hkey)

theorem key_headMetadata (e : AccessEntry py) {item : Text × Value} (h : item ∈ e.headMetadata) :
    item.1 = Text.ofString "protocol" ∨ item.1 = Text.ofString "ident" := by
  rcases List.mem_cons.1 h with rfl | h
  · exact .inl rfl
  · obtain ⟨t, -, rfl⟩ := Option.map_eq_some_iff.1 (Option.mem_toList.1 h)
    exact .inr rfl

/-- What the tail adds: the chain, and the first numbers as the times. -/
theorem absorbTail_line (hpy : Documented py) (e : AccessEntry py) (hne : e.parts ≠ []) :
    AccessLogParser.absorbTail py (accessPatterns py) e.tail.strip
      { e.found with responseTimeMs := none, metadata := e.headMetadata } = e.found := by
  have hforwarded : ∀ item ∈ e.headMetadata, item.1 ≠ Text.ofString "forwarded_for" := fun item hitem => by
    rcases e.key_headMetadata hitem with h | h <;> rw [h] <;> decide
  have hupstream : ∀ item ∈ e.headMetadata, item.1 ≠ Text.ofString "upstream_time_ms" := fun item hitem => by
    rcases e.key_headMetadata hitem with h | h <;> rw [h] <;> decide
  have hmetadata : e.metadataWith (e.protocol.take 16) ((e.numbers[1]?).bind (timing py)) =
      e.headMetadata ++ (e.chain.map fun addresses => (Text.ofString "forwarded_for", Value.str (joined addresses))).toList ++
        (((e.numbers[1]?).bind (timing py)).map fun ms => (Text.ofString "upstream_time_ms", Value.float ms)).toList := by
    rw [metadataWith, headMetadata, List.cons_append, List.cons_append]
  rw [AccessLogParser.absorbTail, timingTail_tail hpy hne, forwarded_tail hpy, found, fieldsWith, hmetadata]
  cases e.chain with
  | none =>
    cases (e.numbers[1]?).bind (timing py) with
    | none => simp
    | some ms => simp [set_new hupstream]
  | some addresses =>
    cases (e.numbers[1]?).bind (timing py) with
    | none => simp [set_new hforwarded]
    | some ms =>
      have hboth : ∀ item ∈ e.headMetadata ++ [(Text.ofString "forwarded_for", Value.str (joined addresses))],
          item.1 ≠ Text.ofString "upstream_time_ms" := fun item hitem => by
        rcases List.mem_append.1 hitem with hitem | hitem
        · exact hupstream item hitem
        · rw [List.mem_singleton.1 hitem]
          exact (by decide : Text.ofString "forwarded_for" ≠ Text.ofString "upstream_time_ms")
      simp [set_new hforwarded, set_new hboth]

theorem extract_line (hpy : Documented py) (e : AccessEntry py) (context : ParseContext) :
    AccessLogParser.parse py (accessPatterns py) e.line context =
      { stamps := [{ value := .str e.time }], outcome := .ok { toFields := e.found, raw := e.line } } := by
  rw [AccessLogParser.parse, rstripNewlines_line hpy, match_line hpy]
  simp only [digits_written hpy e.status_ok, digits_written hpy e.bytes_ok, splitRequest_line hpy, Option.bind_some,
    ofText_method, cleanOptional_written e.referrer_ok, cleanOptional_written e.agent_ok, cleanOptional_written e.user_ok,
    Except.map]
  have hmethod : orDash (some (Text.ofString e.method.toStr)) = Text.ofString e.method.toStr := by
    rw [orDash, Option.filter_some, if_pos (by simpa using (method_text e.method).2.2.2.1), Option.getD_some]
  have hprotocol : (some (e.protocol.take 16)).filter (fun t => t ≠ []) = some (e.protocol.take 16) := by
    rw [Option.filter_some, if_pos (by simpa using e.protocol_ok.2)]
  have hident : (if written e.ident ≠ [] ∧ written e.ident ≠ Text.ofString "-" then
      [(Text.ofString "ident", Value.str (written e.ident))] else []) =
        (e.ident.map fun t => (Text.ofString "ident", Value.str t)).toList := by
    cases hident : e.ident with
    | none => exact if_neg fun h => h.2 rfl
    | some t =>
      obtain ⟨hwithin, hdash⟩ := e.ident_ok t hident
      exact if_pos ⟨List.length_pos_iff.1 hwithin.min_le, hdash⟩
  have hfields : (if e.tail.strip = [] then { e.found with responseTimeMs := none, metadata := e.headMetadata }
      else AccessLogParser.absorbTail py (accessPatterns py) e.tail.strip
        { e.found with responseTimeMs := none, metadata := e.headMetadata }) = e.found := by
    by_cases hne : e.parts = []
    · have htail : e.tail.strip = [] := by
        rw [tail, hne]
        rfl
      rw [if_pos htail]
      simp only [parts, List.append_eq_nil_iff, Option.toList_eq_nil_iff, Option.map_eq_none_iff] at hne
      obtain ⟨⟨hchain, hrequest⟩, hupstream⟩ := hne
      simp [found, fieldsWith, metadataWith, headMetadata, numbers, hchain, hrequest, hupstream]
    · obtain ⟨part, more, hparts⟩ := List.exists_cons_of_ne_nil hne
      have htail : e.tail.strip ≠ [] := by
        rw [strip_tail hpy hparts]
        exact List.append_ne_nil_of_left_ne_nil (part_ends hpy (e := e) (hparts ▸ List.mem_cons_self)).1 _
      rw [if_neg htail, absorbTail_line hpy e hne]
  rw [hmethod, hprotocol, hident]
  exact congrArg (fun fields => ({ stamps := [{ value := .str e.time }], outcome := .ok { toFields := fields, raw := e.line } } :
    Extraction)) hfields

end

/-! ## What the event keeps -/

theorem trim_visible {t : Text} (h : ∀ c ∈ t, Text.isSpace c = false) : t.trim = t := by
  have hwhite : ∀ c ∈ t, ¬Text.isWhiteSpace c = true := fun c hc => by
    rw [Text.isWhiteSpace, h c hc]
    simp
  have hdrop : ∀ u : Text, (∀ c ∈ u, ¬Text.isWhiteSpace c = true) → u.dropWhile Text.isWhiteSpace = u := fun u hu => by
    cases u with
    | nil => rfl
    | cons c u => exact List.dropWhile_cons_of_neg (hu c List.mem_cons_self)
  rw [Text.trim, hdrop t hwhite, hdrop t.reverse fun c hc => hwhite c (List.mem_reverse.1 hc), List.reverse_reverse]

theorem path_visible (e : AccessEntry py) : ∀ c ∈ e.path, Text.isSpace c = false := fun c hc => by
  have hchar := List.all_eq_true.1 e.path_ok c hc
  simp only [isPathChar, Bool.and_eq_true] at hchar
  exact visible_space hchar.1.1.1.1

theorem readPath_visible (e : AccessEntry py) : ∀ c ∈ e.readPath, Text.isSpace c = false := fun c hc => by
  rw [readPath] at hc
  split at hc
  · rw [List.mem_singleton.1 hc]
    decide
  · exact e.path_visible c (List.mem_of_mem_filter (List.mem_of_mem_take hc))

theorem readPath_eq_iff (hpy : Documented py) (e : AccessEntry py) :
    e.readPath = e.path ↔ e.path ≠ [] ∧ e.path.all py.isPrintable = true ∧ e.path.length ≤ 2048 := by
  rw [readPath]
  constructor
  · intro h
    split at h
    · rw [← h]
      exact ⟨List.cons_ne_nil _ _, by simpa using hpy.slash, by decide⟩
    · next hne =>
      have hle := List.length_take_le 2048 (e.path.filter py.isPrintable)
      have hlen : e.path.length ≤ (e.path.filter py.isPrintable).length := by
        rw [← congrArg List.length h]
        exact List.length_take_le' 2048 _
      rw [h] at hne hle
      refine ⟨hne, ?_, hle⟩
      rw [List.all_eq_true]
      exact List.length_filter_eq_length_iff.1 (Nat.le_antisymm (List.length_filter_le _ _) hlen)
  · rintro ⟨hne, hprintable, hlen⟩
    rw [List.filter_eq_self.2 (List.all_eq_true.1 hprintable), List.take_of_length_le hlen, if_neg hne]

/-- Values are set one after the other under names that are new. -/
theorem foldl_set_eq (f : Text × Value → Value) (items : Dict) : ∀ out : Dict, ((out ++ items).map Prod.fst).Nodup →
    (∀ item ∈ items, item.1.length ≤ 128 ∧ f item = item.2) →
    items.foldl (fun out item => out.set (item.1.take 128) (f item)) out = out ++ items := by
  induction items with
  | nil => exact fun out _ _ => (List.append_nil out).symm
  | cons item items ih =>
    intro out hout hitems
    obtain ⟨⟨hkey, hvalue⟩, hitems⟩ := List.forall_mem_cons.1 hitems
    have hnew : ∀ other ∈ out, other.1 ≠ item.1 := fun other hother heq => by
      rw [List.map_append, List.nodup_append] at hout
      exact hout.2.2 _ (List.mem_map_of_mem hother) _ (List.mem_map_of_mem List.mem_cons_self) heq
    rw [List.foldl_cons, hvalue, List.take_of_length_le hkey, set_new hnew, ih _ (by simpa using hout) hitems]
    exact List.append_assoc out [item] items

theorem boundedMetadata_eq {d : Dict} (hnodup : (d.map Prod.fst).Nodup) (hlen : d.length ≤ EventBody.maxMetadataKeys)
    (hkeys : ∀ item ∈ d, item.1.length ≤ 128)
    (hvalues : ∀ item ∈ d, ∀ text, item.2 = .str text → text.length ≤ EventBody.maxMetadataValueLength) :
    EventBody.boundedMetadata d = d := by
  rw [EventBody.boundedMetadata, List.take_of_length_le hlen]
  refine foldl_set_eq _ d [] hnodup fun item hitem => ⟨hkeys item hitem, ?_⟩
  split
  · next text htext => rw [List.take_of_length_le (hvalues item hitem text htext), htext]
  · rfl

theorem metadataWith_bounded (e : AccessEntry py) {protocol : Text} (hprotocol : protocol.length ≤ 16)
    (upstreamMs : Option PyFloat) :
    EventBody.boundedMetadata (e.metadataWith protocol upstreamMs) = e.metadataWith protocol upstreamMs := by
  have hmem : ∀ item ∈ e.metadataWith protocol upstreamMs,
      item = (Text.ofString "protocol", Value.str protocol) ∨ (∃ t ∈ e.ident, item = (Text.ofString "ident", .str t)) ∨
        (∃ addresses ∈ e.chain, item = (Text.ofString "forwarded_for", .str (joined addresses))) ∨
          ∃ ms, item = (Text.ofString "upstream_time_ms", .float ms) := by
    intro item hitem
    simp only [metadataWith, List.mem_cons, List.mem_append, Option.mem_toList, Option.map_eq_some_iff] at hitem
    obtain rfl | (⟨t, ht, rfl⟩ | ⟨addresses, h, rfl⟩) | ⟨ms, -, rfl⟩ := hitem
    · exact .inl rfl
    · exact .inr (.inl ⟨t, ht, rfl⟩)
    · exact .inr (.inr (.inl ⟨addresses, h, rfl⟩))
    · exact .inr (.inr (.inr ⟨ms, rfl⟩))
  refine boundedMetadata_eq ?_ ?_ (fun item hitem => ?_) fun item hitem text htext => ?_
  · rw [metadataWith]
    cases e.ident <;> cases e.chain <;> cases upstreamMs <;> simp <;> decide
  · rw [metadataWith]
    cases e.ident <;> cases e.chain <;> cases upstreamMs <;> simp [EventBody.maxMetadataKeys]
  · obtain rfl | ⟨t, -, rfl⟩ | ⟨addresses, -, rfl⟩ | ⟨ms, rfl⟩ := hmem item hitem <;> simp [Text.ofString]
  · obtain rfl | ⟨t, ht, rfl⟩ | ⟨addresses, h, rfl⟩ | ⟨ms, rfl⟩ := hmem item hitem
    · cases htext
      exact hprotocol.trans (by decide)
    · cases htext
      exact (e.ident_ok _ ht).1.le_max.trans (by decide)
    · cases htext
      obtain ⟨-, hten, haddresses⟩ := e.chain_ok addresses h
      rw [EventBody.maxMetadataValueLength]
      exact (AccessLogParser.length_joined haddresses).trans (by omega)
    · cases htext

theorem metadataWith_inj (e : AccessEntry py) {p q : Text} {u v : Option PyFloat}
    (h : e.metadataWith p u = e.metadataWith q v) : p = q ∧ u = v := by
  obtain ⟨hprotocol, hrest⟩ := List.cons.inj h
  have hupstream := List.append_cancel_left hrest
  refine ⟨by simpa using hprotocol, ?_⟩
  cases u <;> cases v <;> simp_all

/-! ## The round trip -/

/-- A line whose time can be read becomes the event with the fields found, if that is well formed. -/
theorem parse_line_iff (hpy : Documented py) (e : AccessEntry py) {now clock : Clock} (context : ParseContext)
    (htime : Stamp.read py now { value := .str e.time } = .ok (some clock)) {event : LogEvent} :
    ((AccessLogParser.parser py (accessPatterns py)).toLogParser py).parse now e.line context = .ok event ↔
      (e.body context e.found).wellFormed = true ∧
        event = { eventId := computeEventId py clock (e.body context e.found), timestamp := clock, ingestedAt := now,
                  body := e.body context e.found } := by
  have hextract := extract_line hpy e context
  have hstamps : (AccessLogParser.parse py (accessPatterns py) e.line context).stamps = [{ value := .str e.time }] := by
    rw [hextract]
  have hparse : ((AccessLogParser.parser py (accessPatterns py)).toLogParser py).parse now e.line context =
      (AccessLogParser.parse py (accessPatterns py) e.line context).event py (Text.ofString "access") now context := rfl
  rw [hparse, Extraction.event_ok_iff, Extraction.timestamp_singleton hstamps, htime, hextract]
  simp only [Except.ok.injEq]
  constructor
  · rintro ⟨read, parsed, rfl, rfl, hbuilt⟩
    exact LogEvent.build_ok_iff.1 hbuilt
  · intro h
    exact ⟨some clock, _, rfl, rfl, LogEvent.build_ok_iff.2 h⟩

/-- A dash is no address. -/
theorem ip_dash (py : Python) : EventBody.ip py (Text.ofString "-") = none := by
  rw [EventBody.ip]
  exact if_pos (.inr (.inl (by decide)))

/-- The bodies are the same where the texts and the numbers are and the addresses are valid alike. -/
theorem body_congr (e : AccessEntry py) (context : ParseContext) {a b : Option Text}
    (h : a.bind (EventBody.ip py) = b.bind (EventBody.ip py)) (path protocol : Text) (ms upstreamMs : Option PyFloat) :
    e.body context (e.fieldsWith a path protocol ms upstreamMs) = e.body context (e.fieldsWith b path protocol ms upstreamMs) :=
  congrArg (fun address => { e.body context (e.fieldsWith a path protocol ms upstreamMs) with ipAddress := address }) h

/-- The address found is the client's if there is one in the line, or no chain either. -/
theorem address_found {e : AccessEntry py} (haddress : ∀ a ∈ e.address, EventBody.ip py a = some a)
    (hchain : e.address = none → e.chain = none) :
    EventBody.ip py (written e.address) = e.client ∧
      (some (written e.address)).bind (EventBody.ip py) = e.client.bind (EventBody.ip py) := by
  rw [client]
  cases hsome : e.address with
  | none =>
    rw [hchain hsome]
    exact ⟨ip_dash py, ip_dash py⟩
  | some a => exact ⟨haddress a hsome, rfl⟩

theorem map_trim_iff {o : Option Text} : o.map Text.trim = o ↔ ∀ t ∈ o, t.trim = t := by
  cases o with
  | none => simp
  | some t => simp

/-- What an event that returns the values tells about them. -/
theorem holds_of_returned (hpy : Documented py) {e : AccessEntry py} {now : Clock} {context : ParseContext}
    (h : e.RoundTrips now context) : e.Held now context ∧ (e.address = none → e.chain = none) ∧ e.TimesFirst := by
  obtain ⟨event, hparse, hreturned⟩ := h
  obtain ⟨hformed, hevent⟩ := (parse_line_iff hpy e context hreturned.time).1 hparse
  have hbody : event.body = e.body context e.found := by rw [hevent]
  have haddress : EventBody.ip py (written e.address) = e.client := by
    have := hreturned.address
    rwa [hbody] at this
  have hpath : e.readPath = e.path := by
    have hendpoint := hreturned.path
    rw [hbody] at hendpoint
    rw [← trim_visible e.readPath_visible]
    exact Option.some.inj hendpoint
  obtain ⟨hprotocol, hupstream⟩ : e.protocol.take 16 = e.protocol ∧
      (e.numbers[1]?).bind (timing py) = e.upstreamTime.map Seconds.ms := by
    have hmetadata := hreturned.metadata
    rw [hbody] at hmetadata
    exact e.metadataWith_inj ((e.metadataWith_bounded (List.length_take_le 16 _) _).symm.trans hmetadata)
  have hrequest : (e.numbers[0]?).bind (timing py) = e.requestTime.map Seconds.ms := by
    have hresponse := hreturned.responseTime
    rwa [hbody] at hresponse
  have hvalid : ∀ a ∈ e.address, EventBody.ip py a = some a := fun a ha => by
    rwa [client, Option.mem_def.1 ha] at haddress
  have hchain : e.address = none → e.chain = none := fun hnone => by
    rw [client, hnone, written, Option.getD_none, ip_dash, Option.none_or] at haddress
    cases hsome : e.chain with
    | none => rfl
    | some addresses =>
      rw [hsome, Option.bind_some, eq_comm, List.head?_eq_none_iff] at haddress
      exact absurd haddress (e.chain_ok addresses hsome).1
  have hsame : e.body context e.found = e.body context e.fields := by
    rw [found, hpath, hprotocol, hrequest, hupstream]
    exact e.body_congr context (address_found hvalid hchain).2 _ _ _ _
  refine ⟨⟨⟨_, hreturned.time⟩, hvalid, (readPath_eq_iff hpy e).1 hpath, ?_, ?_, ?_, hsame ▸ hformed⟩, hchain, hrequest, hupstream⟩
  · exact hprotocol ▸ List.length_take_le 16 _
  · have hreferrer := hreturned.referrer
    rw [hbody] at hreferrer
    exact map_trim_iff.1 hreferrer
  · have hagent := hreturned.agent
    rw [hbody] at hagent
    exact map_trim_iff.1 hagent

theorem returned_of_holds (hpy : Documented py) {e : AccessEntry py} {now : Clock} {context : ParseContext}
    (hheld : e.Held now context) (hchain : e.address = none → e.chain = none) (htimes : e.TimesFirst) :
    e.RoundTrips now context := by
  obtain ⟨clock, htime⟩ := hheld.time
  have haddress := address_found hheld.address hchain
  have hprotocol : e.protocol.take 16 = e.protocol := List.take_of_length_le hheld.protocol
  have hsame : e.body context e.found = e.body context e.fields := by
    rw [found, (readPath_eq_iff hpy e).2 hheld.path, hprotocol, htimes.1, htimes.2]
    exact e.body_congr context haddress.2 _ _ _ _
  refine ⟨_, (parse_line_iff hpy e context htime).2 ⟨by rw [hsame]; exact hheld.formed, rfl⟩, ?_⟩
  rw [hsame]
  refine ⟨htime, ?_, ?_, rfl, ?_, rfl, rfl, map_trim_iff.2 hheld.referrer, map_trim_iff.2 hheld.agent, rfl, ?_⟩
  · exact haddress.2.symm.trans haddress.1
  · exact map_trim_iff.2 fun t ht => trim_visible fun c hc =>
      visible_space (List.all_eq_true.1 (e.user_ok t ht).1.all c hc)
  · exact congrArg some (trim_visible e.path_visible)
  · exact e.metadataWith_bounded hheld.protocol _

/-- A line is read back as it was written exactly if an event can hold its values, a missing
address has no chain behind it, and the numbers in the tail begin with the times. -/
theorem round_trip_iff (hpy : Documented py) (e : AccessEntry py) (now : Clock) (context : ParseContext) :
    e.RoundTrips now context ↔ e.Held now context ∧ (e.address = none → e.chain = none) ∧ e.TimesFirst :=
  ⟨holds_of_returned hpy, fun ⟨hheld, hchain, htimes⟩ => returned_of_holds hpy hheld hchain htimes⟩

/-! ## Two proxies -/

/-- The number a decimal text writes. -/
def decimalValue (text : Text) : ℚ :=
  let fraction := (text.dropWhile Text.isAsciiDigit).tail
  Text.digitsValue (text.takeWhile Text.isAsciiDigit) + (Text.digitsValue fraction : ℚ) / 10 ^ fraction.length

/-- The time of the lines below. -/
def visitTime : Text := Text.ofString "07/Aug/2026:12:00:00 +0000"

def noonOfDay : Clock := LogPipeline.noon 7 LogPipeline.valid_seventh

def noonDatetime : Datetime := { clock := noonOfDay, offset := some 0 }

/-- It reads decimal texts and the time of the lines below. -/
def combinedPython : Python :=
  { LogPipeline.plainPython LogPipeline.spelled with
    float := fun text => some (.finite (decimalValue text))
    strptime := fun text format =>
      if text = visitTime ∧ format = "%d/%b/%Y:%H:%M:%S %z" then some noonDatetime else none
    ipAddress := some }

theorem combined_isDecimal (c : CodePoint) : combinedPython.isDecimal c = Text.isAsciiDigit c := by
  cases h : Text.isAsciiDigit c with
  | true => simp [TimeParsers.isDecimal, combinedPython, LogPipeline.plainPython, h]
  | false => simp [TimeParsers.isDecimal, combinedPython, LogPipeline.plainPython, h]

theorem combined_documented : Documented combinedPython where
  decimal_ascii c _ := combined_isDecimal c
  decimal_digit c h := (combined_isDecimal c).symm.trans h
  decimal_visible c h := by
    have hdigit : isAddressChar c = true := by
      rw [isAddressChar, ← combined_isDecimal c, h]
      rfl
    rw [isVisible, address_visible c hdigit]
    rfl
  dash := by decide
  unquote _ _ := rfl
  slash := rfl

/-- `0.523` -/
def halfSecond : Seconds combinedPython where
  text := Text.ofString "0.523"
  value := .finite (decimalValue (Text.ofString "0.523"))
  isTime := .inl ⟨Text.ofString "0", Text.ofString "523", by decide, ⟨by decide, by decide, by decide⟩,
    ⟨by decide, by decide, by decide⟩⟩
  reads := rfl

/-- `GET /a` in 0.523 seconds, from this address and through this proxy. -/
def visit (address proxy : Option Text) (haddress : ∀ t ∈ address, t.Within isAddressChar 3 45)
    (hproxy : ∀ t ∈ proxy, t.Within isAddressChar 3 45) : AccessEntry combinedPython where
  address := address
  ident := none
  user := none
  time := visitTime
  method := .get
  path := Text.ofString "/a"
  protocol := Text.ofString "HTTP/1.1"
  status := some (Text.ofString "200")
  bytes := some (Text.ofString "5")
  referrer := none
  agent := some (Text.ofString "curl")
  chain := proxy.map fun t => [t]
  requestTime := some halfSecond
  upstreamTime := none
  address_ok := haddress
  ident_ok _ h := by cases h
  user_ok _ h := by cases h
  time_ok := ⟨by decide, by decide, by decide⟩
  path_ok := by decide
  protocol_ok := by decide
  request_ok := by decide
  status_ok _ h := by
    cases h
    exact ⟨by decide, by decide, by decide⟩
  bytes_ok _ h := by
    cases h
    exact ⟨by decide, by decide, by decide⟩
  referrer_ok _ h := by cases h
  agent_ok _ h := by
    cases h
    exact ⟨⟨by decide, by decide, by decide⟩, by decide⟩
  chain_ok addresses h := by
    obtain ⟨t, ht, rfl⟩ := Option.map_eq_some_iff.1 h
    exact ⟨List.cons_ne_nil _ _, by simp, fun a ha => List.mem_singleton.1 ha ▸ hproxy t ht⟩

theorem some_address {t : Text} (h : t.Within isAddressChar 3 45) : ∀ u ∈ some t, u.Within isAddressChar 3 45 := by
  rintro _ ⟨⟩
  exact h

theorem no_address : ∀ u ∈ (none : Option Text), u.Within isAddressChar 3 45 := fun _ h => by cases h

/-- A request that no proxy passed on. -/
def direct : AccessEntry combinedPython :=
  visit (some (Text.ofString "192.0.2.7")) none (some_address ⟨by decide, by decide, by decide⟩) no_address

/-- The address of the proxy is in the line. -/
def proxied : AccessEntry combinedPython :=
  visit (some (Text.ofString "192.0.2.7")) (some (Text.ofString "10.0.0.1"))
    (some_address ⟨by decide, by decide, by decide⟩) (some_address ⟨by decide, by decide, by decide⟩)

/-- The address is a dash, and that of the proxy has no digit. -/
def hidden : AccessEntry combinedPython :=
  visit none (some (Text.ofString "fd::a")) no_address (some_address ⟨by decide, by decide, by decide⟩)

theorem visit_time : Stamp.read combinedPython noonOfDay { value := .str visitTime } = .ok (some noonOfDay) := by
  have hread : Stamp.read combinedPython noonOfDay { value := .str visitTime } =
      Timeutil.parseTimestamp combinedPython.toTimeParsers noonOfDay none (.str visitTime) := rfl
  have hepoch : Timeutil.isEpoch combinedPython.toTimeParsers visitTime = false := by decide
  have hiso : combinedPython.fromisoformat (Timeutil.isoCandidate visitTime) = none := rfl
  have hformat : Timeutil.matchFormat combinedPython.toTimeParsers visitTime =
      some ("%d/%b/%Y:%H:%M:%S %z", noonDatetime) := by
    simp [Timeutil.matchFormat, Timeutil.strptimeFormats, combinedPython]
  have hyear : Timeutil.yearless "%d/%b/%Y:%H:%M:%S %z" = false := by decide
  have hutc : Timeutil.ensureUtc noonDatetime = .ok noonOfDay :=
    Timeutil.ensureUtc_ok.2 (by simp [noonDatetime, Datetime.instant])
  have hbounded : Timeutil.bounded noonOfDay = some noonOfDay := if_pos (by decide)
  rw [hread, Timeutil.parseTimestamp, if_neg (by decide : visitTime.strip ≠ []), Timeutil.parseText,
    (by decide : Timeutil.unbracket visitTime.strip = visitTime), hepoch]
  simp only [hiso, hformat, hyear, hutc, Bool.false_eq_true, and_false, if_false, Except.map, hbounded]

theorem visit_held {address proxy : Option Text} {ha : ∀ t ∈ address, t.Within isAddressChar 3 45}
    {hp : ∀ t ∈ proxy, t.Within isAddressChar 3 45} (hvalid : ∀ a ∈ address, EventBody.ip combinedPython a = some a)
    (hformed : ((visit address proxy ha hp).body {} (visit address proxy ha hp).fields).wellFormed = true) :
    (visit address proxy ha hp).Held noonOfDay {} where
  time := ⟨noonOfDay, visit_time⟩
  address := hvalid
  path := (by decide : Text.ofString "/a" ≠ [] ∧ (Text.ofString "/a").all combinedPython.isPrintable = true ∧
    (Text.ofString "/a").length ≤ 2048)
  protocol := (by decide : (Text.ofString "HTTP/1.1").length ≤ 16)
  referrer _ h := by cases h
  agent _ h := by
    cases h
    decide
  formed := hformed

theorem direct_held : direct.Held noonOfDay {} :=
  visit_held (by rintro _ ⟨⟩; with_unfolding_all rfl) (by with_unfolding_all rfl)

theorem proxied_held : proxied.Held noonOfDay {} :=
  visit_held (by rintro _ ⟨⟩; with_unfolding_all rfl) (by with_unfolding_all rfl)

theorem hidden_held : hidden.Held noonOfDay {} := visit_held (by rintro _ ⟨⟩) (by with_unfolding_all rfl)

theorem proxied_numbers : proxied.numbers = ["10.0", "0.1", "0.523"].map Text.ofString := by
  with_unfolding_all rfl

theorem round_trip_direct : direct.RoundTrips noonOfDay {} :=
  (round_trip_iff combined_documented direct noonOfDay {}).2 ⟨direct_held, fun _ => rfl, ⟨rfl, rfl⟩⟩

/-- The digits of a proxy's address are read as the time of the request, and a dash stays where
the chain has the address. -/
theorem chain_misread :
    proxied.Held noonOfDay {} ∧ ¬ proxied.RoundTrips noonOfDay {} ∧ hidden.Held noonOfDay {} ∧
      ¬ hidden.RoundTrips noonOfDay {} := by
  refine ⟨proxied_held, fun h => ?_, hidden_held, fun h => ?_⟩
  · obtain ⟨-, -, hrequest, -⟩ := holds_of_returned combined_documented h
    rw [proxied_numbers] at hrequest
    have hms : (PyFloat.finite (decimalValue (Text.ofString "10.0"))).scale 1000 = halfSecond.ms := Option.some.inj hrequest
    have hvalues : decimalValue (Text.ofString "10.0") * 1000 ≠ decimalValue (Text.ofString "0.523") * 1000 := by
      decide +kernel
    exact hvalues (PyFloat.finite.inj hms)
  · obtain ⟨-, hchain, -⟩ := holds_of_returned combined_documented h
    cases hchain rfl

end AccessEntry

end LogAnalytics
