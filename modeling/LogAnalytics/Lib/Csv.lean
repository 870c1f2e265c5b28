import Mathlib.Data.List.Basic
/-!
# Delimited text

A reader of delimited rows, character by character, over lines that keep their ends, and the texts
it reads back: rows of bare and quoted cells. Any alphabet will do.
-/

namespace LogAnalytics.Lib.Csv

structure Dialect (α : Type) where
  delimiter : α
  quote : α
  cr : α
  lf : α
  /-- The longest field that is read. -/
  fieldLimit : Nat
  /-- A quote in a quoted field is written twice. -/
  doublequote : Bool := true
  /-- Characters to pass over where a field begins. -/
  skips : α → Bool := fun _ => false
  delimiter_ne_quote : delimiter ≠ quote
  delimiter_ne_cr : delimiter ≠ cr
  delimiter_ne_lf : delimiter ≠ lf
  quote_ne_cr : quote ≠ cr
  quote_ne_lf : quote ≠ lf
  cr_ne_lf : cr ≠ lf

inductive State where
  | startRecord | startField | inField | inQuotedField | quoteInQuotedField | eatCrnl
  deriving DecidableEq

inductive Error where
  | fieldLimit | newline
  deriving DecidableEq

/-- A row that is being read. -/
structure Reader (α : Type) where
  state : State := .startRecord
  field : List α := []
  fields : List (List α) := []

variable {α : Type} [DecidableEq α] (d : Dialect α)

/-- A carriage return or a line feed. -/
def Dialect.IsBreak (c : α) : Prop := c = d.lf ∨ c = d.cr

instance Dialect.decidableIsBreak (c : α) : Decidable (d.IsBreak c) := inferInstanceAs (Decidable (c = d.lf ∨ c = d.cr))

/-- The line ends behind `c`. -/
def Dialect.EndsLine (c : α) (rest : List α) : Prop := c = d.lf ∨ c = d.cr ∧ rest.head? ≠ some d.lf

instance Dialect.decidableEndsLine (c : α) (rest : List α) : Decidable (d.EndsLine c rest) :=
  inferInstanceAs (Decidable (c = d.lf ∨ c = d.cr ∧ rest.head? ≠ some d.lf))

/-- The lines of a text, with their ends. -/
def lines : List α → List (List α)
  | [] => []
  | c :: rest =>
    if d.EndsLine c rest then [c] :: lines rest
    else
      match lines rest with
      | [] => [[c]]
      | line :: more => (c :: line) :: more

namespace Reader

/-- The field is complete. -/
def save (r : Reader α) (state : State) : Reader α := { state := state, fields := r.fields ++ [r.field] }

def add (r : Reader α) (c : α) (state : State) : Except Error (Reader α) :=
  if d.fieldLimit ≤ r.field.length then .error .fieldLimit else .ok { r with state := state, field := r.field ++ [c] }

/-- At the start of a field; `none` is the end of a line. -/
def start (r : Reader α) : Option α → Except Error (Reader α)
  | none => .ok (r.save .startRecord)
  | some c =>
    if d.IsBreak c then .ok (r.save .eatCrnl)
    else if c = d.quote then .ok { r with state := .inQuotedField }
    else if d.skips c then .ok { r with state := .startField }
    else if c = d.delimiter then .ok (r.save .startField)
    else r.add d c .inField

/-- What a character does to the row; `none` is the end of a line. -/
def process (r : Reader α) (c : Option α) : Except Error (Reader α) :=
  match r.state, c with
  | .startRecord, none => .ok r
  | .startRecord, some c => if d.IsBreak c then .ok { r with state := .eatCrnl } else r.start d (some c)
  | .startField, c => r.start d c
  | .inField, none => .ok (r.save .startRecord)
  | .inField, some c =>
    if d.IsBreak c then .ok (r.save .eatCrnl)
    else if c = d.delimiter then .ok (r.save .startField)
    else r.add d c .inField
  | .inQuotedField, none => .ok r
  | .inQuotedField, some c =>
    if c = d.quote then .ok { r with state := if d.doublequote then .quoteInQuotedField else .inField }
    else r.add d c .inQuotedField
  | .quoteInQuotedField, none => .ok (r.save .startRecord)
  | .quoteInQuotedField, some c =>
    if c = d.quote then r.add d c .inQuotedField
    else if c = d.delimiter then .ok (r.save .startField)
    else if d.IsBreak c then .ok (r.save .eatCrnl)
    else r.add d c .inField
  | .eatCrnl, none => .ok { r with state := .startRecord }
  | .eatCrnl, some c => if d.IsBreak c then .ok r else .error .newline

def processLine (r : Reader α) (line : List α) : Except Error (Reader α) := do
  let r ← line.foldlM (fun r c => r.process d (some c)) r
  r.process d none

end Reader

/-- The rows read before the end or an error. -/
abbrev Result (α : Type) := List (List (List α)) × Option Error

/-- A row, and what comes behind it. -/
def emit (row : List (List α)) (x : Result α) : Result α := (row :: x.1, x.2)

/-- The rows in lines, behind a row that is being read. Where the lines break off, the row that is
being read is lost. -/
def rowsFrom (broken : Bool) : Reader α → List (List α) → Result α
  | r, [] =>
    if broken = false ∧ (r.field ≠ [] ∨ r.state = .inQuotedField) then ([r.fields ++ [r.field]], none) else ([], none)
  | r, line :: more =>
    match r.processLine d line with
    | .error e => ([], some e)
    | .ok r => if r.state = .startRecord then emit r.fields (rowsFrom broken {} more) else rowsFrom broken r more

def rows (text : List α) : Result α := rowsFrom d false {} (lines d text)

/-- Quotes are doubled and no character is passed over. -/
structure Dialect.Plain : Prop where
  doublequote : d.doublequote = true
  skips (c : α) : d.skips c = false

/-! ## Well-formed text -/

/-- A bare cell has neither delimiters nor line ends and does not begin with a quote. -/
structure Cell where
  text : List α
  quoted : Bool := false
  bare : quoted = false → (∀ c ∈ text, c ≠ d.delimiter ∧ ¬ d.IsBreak c) ∧ text.head? ≠ some d.quote

/-- Quotes are doubled. -/
def escape (text : List α) : List α := text.flatMap fun c => if c = d.quote then [d.quote, d.quote] else [c]

variable {d}

def Cell.render (cell : Cell d) : List α :=
  if cell.quoted then d.quote :: (escape d cell.text ++ [d.quote]) else cell.text

inductive Ending where
  | lf | cr | crlf
  deriving DecidableEq

def Ending.render (d : Dialect α) : Ending → List α
  | .lf => [d.lf]
  | .cr => [d.cr]
  | .crlf => [d.cr, d.lf]

structure Line (d : Dialect α) where
  cells : List (Cell d)
  nonempty : cells ≠ []

def renderCells : List (Cell d) → List α
  | [] => []
  | [cell] => cell.render
  | cell :: cells => cell.render ++ d.delimiter :: renderCells cells

namespace Line

def render (line : Line d) : List α := renderCells line.cells

def texts (line : Line d) : List (List α) := line.cells.map Cell.text

/-- No field is too long to be read. -/
def Fits (line : Line d) : Prop := ∀ cell ∈ line.cells, cell.text.length ≤ d.fieldLimit

instance decidableFits (line : Line d) : Decidable line.Fits :=
  inferInstanceAs (Decidable (∀ cell ∈ line.cells, cell.text.length ≤ d.fieldLimit))

end Line

/-- Lines with the ends between them. An end behind the last row makes for one empty line more. -/
def renderMore (more : List (Ending × Line d)) : List α := more.flatMap fun x => x.1.render d ++ x.2.render

/-! ## Reading character by character -/

/-- Behind the last character of a line. -/
def afterLine (d : Dialect α) (r : Reader α) (more : List (List α)) : Result α :=
  match r.process d none with
  | .error e => ([], some e)
  | .ok r => if r.state = .startRecord then emit r.fields (rowsFrom d false {} more) else rowsFrom d false r more

/-- Within a line, of which `text` begins with what is left. -/
def resume (d : Dialect α) (r : Reader α) (text : List α) : Result α :=
  match lines d text with
  | [] => afterLine d r []
  | line :: more => rowsFrom d false r (line :: more)

theorem lines_ne_nil {text : List α} (h : text ≠ []) : lines d text ≠ [] := by
  cases text with
  | nil => exact absurd rfl h
  | cons c rest =>
    rw [lines]
    split
    · exact List.cons_ne_nil _ _
    · split <;> exact List.cons_ne_nil _ _

theorem rowsFrom_lines {r : Reader α} {text : List α} (h : text ≠ []) : rowsFrom d false r (lines d text) = resume d r text := by
  unfold resume
  cases hlines : lines d text with
  | nil => exact absurd hlines (lines_ne_nil h)
  | cons line more => rfl

theorem rowsFrom_cons (r : Reader α) (line : List α) (more : List (List α)) :
    rowsFrom d false r (line :: more) =
      match line.foldlM (fun r c => r.process d (some c)) r with
      | .error e => ([], some e)
      | .ok r => afterLine d r more := by
  rw [rowsFrom, Reader.processLine]
  cases line.foldlM (fun r c => r.process d (some c)) r with
  | error e => rfl
  | ok r => rfl

/-- A character that does not end its line. -/
theorem resume_cons {r r' : Reader α} {c : α} {rest : List α} (hline : ¬ d.EndsLine c rest)
    (h : r.process d (some c) = .ok r') : resume d r (c :: rest) = resume d r' rest := by
  unfold resume
  rw [lines, if_neg hline]
  cases lines d rest with
  | nil =>
    dsimp only
    rw [rowsFrom_cons, List.foldlM_cons, h]
    rfl
  | cons line more =>
    dsimp only
    rw [rowsFrom_cons, rowsFrom_cons, List.foldlM_cons, h]
    rfl

theorem resume_cons_error {r : Reader α} {c : α} {rest : List α} {e : Error} (h : r.process d (some c) = .error e) :
    resume d r (c :: rest) = ([], some e) := by
  unfold resume
  rw [lines]
  by_cases hline : d.EndsLine c rest
  · rw [if_pos hline]
    dsimp only
    rw [rowsFrom_cons, List.foldlM_cons, h]
    rfl
  · rw [if_neg hline]
    cases lines d rest with
    | nil =>
      dsimp only
      rw [rowsFrom_cons, List.foldlM_cons, h]
      rfl
    | cons line more =>
      dsimp only
      rw [rowsFrom_cons, List.foldlM_cons, h]
      rfl

/-- The last character of a line. -/
theorem resume_end {r r' : Reader α} {c : α} {rest : List α} (hline : d.EndsLine c rest)
    (h : r.process d (some c) = .ok r') : resume d r (c :: rest) = afterLine d r' (lines d rest) := by
  unfold resume
  rw [lines, if_pos hline]
  dsimp only
  rw [rowsFrom_cons, List.foldlM_cons, h]
  rfl

omit [DecidableEq α] in
theorem not_endsLine {c : α} (h : ¬ d.IsBreak c) (rest : List α) : ¬ d.EndsLine c rest := by
  rintro (hlf | ⟨hcr, -⟩)
  · exact h (.inl hlf)
  · exact h (.inr hcr)

/-! ### Cells -/

omit [DecidableEq α] in
theorem add_ok {state state' : State} {field : List α} {fields : List (List α)} {c : α} (h : field.length < d.fieldLimit) :
    (⟨state, field, fields⟩ : Reader α).add d c state' = .ok ⟨state', field ++ [c], fields⟩ := if_neg (Nat.not_le.2 h)

omit [DecidableEq α] in
theorem add_error {state state' : State} {field : List α} {fields : List (List α)} {c : α} (h : d.fieldLimit ≤ field.length) :
    (⟨state, field, fields⟩ : Reader α).add d c state' = .error .fieldLimit := if_pos h

/-- The rest of a bare cell. -/
theorem resume_bare {field : List α} (fields : List (List α)) (hfield : field.length ≤ d.fieldLimit) {text : List α}
    (rest : List α) (hbare : ∀ c ∈ text, c ≠ d.delimiter ∧ ¬ d.IsBreak c) :
    resume d ⟨.inField, field, fields⟩ (text ++ rest) =
      if field.length + text.length ≤ d.fieldLimit then resume d ⟨.inField, field ++ text, fields⟩ rest
      else ([], some .fieldLimit) := by
  induction text generalizing field with
  | nil =>
    rw [List.nil_append, List.append_nil, List.length_nil, Nat.add_zero, if_pos hfield]
  | cons c text ih =>
    obtain ⟨⟨hdelimiter, hbreak⟩, hbare⟩ := List.forall_mem_cons.1 hbare
    have hprocess : (⟨.inField, field, fields⟩ : Reader α).process d (some c) =
        (⟨.inField, field, fields⟩ : Reader α).add d c .inField := (if_neg hbreak).trans (if_neg hdelimiter)
    rw [List.cons_append, List.length_cons]
    by_cases hroom : field.length < d.fieldLimit
    · rw [add_ok hroom] at hprocess
      have hlength : (field ++ [c]).length = field.length + 1 := List.length_append
      rw [resume_cons (not_endsLine hbreak _) hprocess, ih (by omega) hbare, hlength, List.append_assoc,
        List.singleton_append, Nat.add_right_comm, Nat.add_assoc]
    · rw [add_error (Nat.le_of_not_lt hroom)] at hprocess
      rw [resume_cons_error hprocess, if_neg (by omega)]

/-- Within quotes a line may end. -/
theorem resume_quoted_cons {r r' : Reader α} {c : α} {rest : List α} (h : r.process d (some c) = .ok r')
    (hstate : r'.state = .inQuotedField) (hrest : rest ≠ []) : resume d r (c :: rest) = resume d r' rest := by
  by_cases hline : d.EndsLine c rest
  · have hnone : r'.process d none = .ok r' := by
      unfold Reader.process
      rw [hstate]
    rw [resume_end hline h, afterLine, hnone]
    dsimp only
    rw [if_neg (by rw [hstate]; decide), rowsFrom_lines hrest]
  · exact resume_cons hline h

/-- The rest of a quoted cell, up to the quote that closes it. -/
theorem resume_quoted (hd : d.Plain) {field : List α} (fields : List (List α)) (hfield : field.length ≤ d.fieldLimit) (text rest : List α) :
    resume d ⟨.inQuotedField, field, fields⟩ (escape d text ++ d.quote :: rest) =
      if field.length + text.length ≤ d.fieldLimit then resume d ⟨.quoteInQuotedField, field ++ text, fields⟩ rest
      else ([], some .fieldLimit) := by
  have hquote : ¬ d.IsBreak d.quote := by
    rintro (h | h)
    · exact d.quote_ne_lf h
    · exact d.quote_ne_cr h
  have hclose (field : List α) : (⟨.inQuotedField, field, fields⟩ : Reader α).process d (some d.quote) =
      .ok ⟨.quoteInQuotedField, field, fields⟩ := (if_pos rfl).trans (by rw [if_pos hd.doublequote])
  induction text generalizing field with
  | nil =>
    rw [List.length_nil, Nat.add_zero, if_pos hfield, List.append_nil]
    exact resume_cons (not_endsLine hquote _) (hclose field)
  | cons c text ih =>
    rw [List.length_cons]
    by_cases hc : c = d.quote
    · -- a doubled quote
      subst hc
      have hescape : escape d (d.quote :: text) = d.quote :: d.quote :: escape d text := by
        rw [escape, List.flatMap_cons, if_pos rfl]
        rfl
      have hsecond : (⟨.quoteInQuotedField, field, fields⟩ : Reader α).process d (some d.quote) =
          (⟨.quoteInQuotedField, field, fields⟩ : Reader α).add d d.quote .inQuotedField := if_pos rfl
      rw [hescape, List.cons_append, List.cons_append, resume_cons (not_endsLine hquote _) (hclose field)]
      by_cases hroom : field.length < d.fieldLimit
      · rw [add_ok hroom] at hsecond
        have hlength : (field ++ [d.quote]).length = field.length + 1 := List.length_append
        rw [resume_cons (not_endsLine hquote _) hsecond, ih (by omega), hlength, List.append_assoc, List.singleton_append,
          Nat.add_right_comm, Nat.add_assoc]
      · rw [add_error (Nat.le_of_not_lt hroom)] at hsecond
        rw [resume_cons_error hsecond, if_neg (by omega)]
    · have hescape : escape d (c :: text) = c :: escape d text := by
        rw [escape, List.flatMap_cons, if_neg hc]
        rfl
      have hprocess : (⟨.inQuotedField, field, fields⟩ : Reader α).process d (some c) =
          (⟨.inQuotedField, field, fields⟩ : Reader α).add d c .inQuotedField := if_neg hc
      rw [hescape, List.cons_append]
      by_cases hroom : field.length < d.fieldLimit
      · rw [add_ok hroom] at hprocess
        have hlength : (field ++ [c]).length = field.length + 1 := List.length_append
        rw [resume_quoted_cons hprocess rfl (by simp), ih (by omega), hlength, List.append_assoc, List.singleton_append,
          Nat.add_right_comm, Nat.add_assoc]
      · rw [add_error (Nat.le_of_not_lt hroom)] at hprocess
        rw [resume_cons_error hprocess, if_neg (by omega)]

/-- The reader behind a cell of a row. -/
def Cell.closed (cell : Cell d) (fields : List (List α)) : Reader α where
  state := if cell.quoted then .quoteInQuotedField else if cell.text = [] then .startField else .inField
  field := cell.text
  fields := fields

theorem resume_cell (hd : d.Plain) (cell : Cell d) (fields : List (List α)) (rest : List α) :
    resume d ⟨.startField, [], fields⟩ (cell.render ++ rest) =
      if cell.text.length ≤ d.fieldLimit then resume d (cell.closed fields) rest else ([], some .fieldLimit) := by
  obtain ⟨text, quoted, bare⟩ := cell
  cases quoted with
  | true =>
    have hquote : ¬ d.IsBreak d.quote := by
      rintro (h | h)
      · exact d.quote_ne_lf h
      · exact d.quote_ne_cr h
    have hopen : (⟨.startField, [], fields⟩ : Reader α).process d (some d.quote) = .ok ⟨.inQuotedField, [], fields⟩ :=
      (if_neg hquote).trans (if_pos rfl)
    have hrender : (⟨text, true, bare⟩ : Cell d).render ++ rest = d.quote :: (escape d text ++ d.quote :: rest) := by
      simp [Cell.render]
    rw [hrender, resume_cons (not_endsLine hquote _) hopen, resume_quoted hd fields (Nat.zero_le _), List.length_nil, Nat.zero_add]
    rfl
  | false =>
    obtain ⟨hchars, hhead⟩ := bare rfl
    cases text with
    | nil =>
      exact (if_pos (Nat.zero_le d.fieldLimit)).symm
    | cons c text =>
      obtain ⟨⟨hdelimiter, hbreak⟩, hchars⟩ := List.forall_mem_cons.1 hchars
      have hquote : c ≠ d.quote := fun h => hhead (by rw [h]; rfl)
      have hskip {r s : Except Error (Reader α)} : (if d.skips c = true then r else s) = s :=
        if_neg (by rw [hd.skips]; exact Bool.false_ne_true)
      have hfirst : (⟨.startField, [], fields⟩ : Reader α).process d (some c) =
          (⟨.startField, [], fields⟩ : Reader α).add d c .inField :=
        (if_neg hbreak).trans ((if_neg hquote).trans (hskip.trans (if_neg hdelimiter)))
      have hrender : (⟨c :: text, false, bare⟩ : Cell d).render ++ rest = c :: (text ++ rest) := rfl
      rw [hrender, List.length_cons]
      by_cases hroom : ([] : List α).length < d.fieldLimit
      · rw [add_ok hroom] at hfirst
        rw [resume_cons (not_endsLine hbreak _) hfirst, List.nil_append,
          resume_bare fields (show [c].length ≤ d.fieldLimit from hroom) rest hchars, List.length_singleton, Nat.add_comm 1]
        rfl
      · rw [add_error (Nat.le_of_not_lt hroom)] at hfirst
        rw [List.length_nil] at hroom
        rw [resume_cons_error hfirst, if_neg (by omega)]

/-- A delimiter, a line end and the end of the text close the cell. -/
theorem closed_process (hd : d.Plain) (cell : Cell d) (fields : List (List α)) :
    (cell.closed fields).process d (some d.delimiter) = .ok ⟨.startField, [], fields ++ [cell.text]⟩ ∧
    (∀ c, d.IsBreak c → (cell.closed fields).process d (some c) = .ok ⟨.eatCrnl, [], fields ++ [cell.text]⟩) ∧
    (cell.closed fields).process d none = .ok ⟨.startRecord, [], fields ++ [cell.text]⟩ := by
  have hdelimiter : ¬ d.IsBreak d.delimiter := by
    rintro (h | h)
    · exact d.delimiter_ne_lf h
    · exact d.delimiter_ne_cr h
  have hbreak : ∀ c, d.IsBreak c → c ≠ d.quote ∧ c ≠ d.delimiter := by
    rintro c (rfl | rfl)
    · exact ⟨d.quote_ne_lf.symm, d.delimiter_ne_lf.symm⟩
    · exact ⟨d.quote_ne_cr.symm, d.delimiter_ne_cr.symm⟩
  unfold Cell.closed
  by_cases hquoted : cell.quoted = true
  · rw [if_pos hquoted]
    refine ⟨(if_neg d.delimiter_ne_quote).trans (if_pos rfl), fun c hc => ?_, rfl⟩
    exact (if_neg (hbreak c hc).1).trans ((if_neg (hbreak c hc).2).trans (if_pos hc))
  · rw [if_neg hquoted]
    by_cases hempty : cell.text = []
    · rw [if_pos hempty]
      have hskip {r s : Except Error (Reader α)} : (if d.skips d.delimiter = true then r else s) = s :=
        if_neg (by rw [hd.skips]; exact Bool.false_ne_true)
      exact ⟨(if_neg hdelimiter).trans ((if_neg d.delimiter_ne_quote).trans (hskip.trans (if_pos rfl))), fun c hc => if_pos hc, rfl⟩
    · rw [if_neg hempty]
      exact ⟨(if_neg hdelimiter).trans (if_pos rfl), fun c hc => if_pos hc, rfl⟩

/-! ### Lines -/

/-- What is left of a text behind a line: nothing, or a line end and more lines. -/
inductive Behind (d : Dialect α) : List α → Result α → Prop
  | nothing : Behind d [] ([], none)
  | lf (rest : List α) : Behind d (d.lf :: rest) (rows d rest)
  | cr (rest : List α) (h : rest.head? ≠ some d.lf) : Behind d (d.cr :: rest) (rows d rest)
  | crlf (rest : List α) : Behind d (d.cr :: d.lf :: rest) (rows d rest)

theorem afterLine_eatCrnl (fields : List (List α)) (more : List (List α)) :
    afterLine d ⟨.eatCrnl, [], fields⟩ more = emit fields (rowsFrom d false {} more) := rfl

/-- A reader that a line end brings to the end of the row. -/
theorem resume_behind {r : Reader α} {fields : List (List α)}
    (hbreak : ∀ c, d.IsBreak c → r.process d (some c) = .ok ⟨.eatCrnl, [], fields⟩)
    (hend : r.process d none = .ok ⟨.startRecord, [], fields⟩) {rest : List α} {x : Result α} (h : Behind d rest x) :
    resume d r rest = emit fields x := by
  cases h with
  | nothing =>
    unfold resume
    rw [lines]
    dsimp only
    rw [afterLine, hend]
    rfl
  | lf rest => rw [resume_end (.inl rfl) (hbreak _ (.inl rfl)), afterLine_eatCrnl, rows]
  | cr rest hhead => rw [resume_end (.inr ⟨rfl, hhead⟩) (hbreak _ (.inr rfl)), afterLine_eatCrnl, rows]
  | crlf rest =>
    have hcr : ¬ d.EndsLine d.cr (d.lf :: rest) := by
      rintro (h | ⟨-, h⟩)
      · exact d.cr_ne_lf h
      · exact h rfl
    have hlf : (⟨.eatCrnl, [], fields⟩ : Reader α).process d (some d.lf) = .ok ⟨.eatCrnl, [], fields⟩ := if_pos (.inl rfl)
    rw [resume_cons hcr (hbreak _ (.inr rfl)), resume_end (.inl rfl) hlf, afterLine_eatCrnl, rows]

/-- The cells of a row, one after the other. -/
theorem resume_cells (hd : d.Plain) {cells : List (Cell d)} (hcells : cells ≠ []) (fields : List (List α)) {rest : List α} {x : Result α}
    (h : Behind d rest x) :
    resume d ⟨.startField, [], fields⟩ (renderCells cells ++ rest) =
      if ∀ cell ∈ cells, cell.text.length ≤ d.fieldLimit then emit (fields ++ cells.map Cell.text) x
      else ([], some .fieldLimit) := by
  induction cells generalizing fields with
  | nil => exact absurd rfl hcells
  | cons cell cells ih =>
    obtain ⟨hdelimiter, hbreak, hend⟩ := closed_process hd cell fields
    rcases cells with _ | ⟨next, cells⟩
    · rw [renderCells, resume_cell hd]
      refine if_congr (by simp) ?_ rfl
      exact resume_behind hbreak hend h
    · have hnot : ¬ d.IsBreak d.delimiter := by
        rintro (h | h)
        · exact d.delimiter_ne_lf h
        · exact d.delimiter_ne_cr h
      rw [renderCells, List.append_assoc, List.cons_append, resume_cell hd, resume_cons (not_endsLine hnot _) hdelimiter,
        ih (List.cons_ne_nil _ _), List.append_assoc]
      by_cases hcell : cell.text.length ≤ d.fieldLimit
      · rw [if_pos hcell]
        exact if_congr (by simp [hcell]) rfl rfl
      · rw [if_neg hcell, if_neg (fun hall => hcell (hall cell List.mem_cons_self))]
      · simp

/-- A row does not begin with a line end. -/
theorem head_renderCells {cells : List (Cell d)} {c : α} {rest : List α} (h : renderCells cells = c :: rest) :
    ¬ d.IsBreak c := by
  have hquote : ¬ d.IsBreak d.quote := by
    rintro (h | h)
    · exact d.quote_ne_lf h
    · exact d.quote_ne_cr h
  have hdelimiter : ¬ d.IsBreak d.delimiter := by
    rintro (h | h)
    · exact d.delimiter_ne_lf h
    · exact d.delimiter_ne_cr h
  have hcell : ∀ (cell : Cell d) (more : List α), (∀ c rest, more = c :: rest → ¬ d.IsBreak c) →
      ∀ c rest, cell.render ++ more = c :: rest → ¬ d.IsBreak c := by
    rintro ⟨text, quoted, bare⟩ more hmore c rest hrender
    cases quoted with
    | true =>
      rw [Cell.render, if_pos rfl, List.cons_append] at hrender
      exact (List.cons.inj hrender).1 ▸ hquote
    | false =>
      cases text with
      | nil => exact hmore c rest hrender
      | cons x text =>
        rw [Cell.render, if_neg Bool.false_ne_true, List.cons_append] at hrender
        exact (List.cons.inj hrender).1 ▸ ((bare rfl).1 x List.mem_cons_self).2
  rcases cells with _ | ⟨cell, _ | ⟨next, cells⟩⟩
  · cases h
  · exact hcell cell [] (fun _ _ h => by cases h) c rest (by rw [List.append_nil]; exact h)
  · refine hcell cell (d.delimiter :: renderCells (next :: cells)) (fun x more hmore => ?_) c rest h
    exact (List.cons.inj hmore).1 ▸ hdelimiter

theorem rows_eq_resume {text : List α} (h : text ≠ []) : rows d text = resume d {} text := rowsFrom_lines h

/-- Where a row begins makes no difference to its first character, if that is no line end. -/
theorem resume_startRecord {c : α} (hbreak : ¬ d.IsBreak c) (rest : List α) :
    resume d {} (c :: rest) = resume d ⟨.startField, [], []⟩ (c :: rest) := by
  have hsame : ({} : Reader α).process d (some c) = (⟨.startField, [], []⟩ : Reader α).process d (some c) :=
    (if_neg hbreak).trans rfl
  cases hprocess : (⟨.startField, [], []⟩ : Reader α).process d (some c) with
  | error e => rw [resume_cons_error hprocess, resume_cons_error (hsame.trans hprocess)]
  | ok r => rw [resume_cons (not_endsLine hbreak _) hprocess, resume_cons (not_endsLine hbreak _) (hsame.trans hprocess)]

theorem rows_blank {rest : List α} {x : Result α} (hrest : rest ≠ []) (h : Behind d rest x) :
    rows d rest = emit [] x := by
  have hbreak : ∀ c, d.IsBreak c → ({} : Reader α).process d (some c) = .ok ⟨.eatCrnl, [], []⟩ := fun c hc => if_pos hc
  rw [rows_eq_resume hrest]
  exact resume_behind hbreak rfl h

theorem rows_line (hd : d.Plain) (line : Line d) (hrender : line.render ≠ []) {rest : List α} {x : Result α} (h : Behind d rest x) :
    rows d (line.render ++ rest) = if line.Fits then emit line.texts x else ([], some .fieldLimit) := by
  obtain ⟨c, tail, hhead⟩ := List.exists_cons_of_ne_nil hrender
  rw [rows_eq_resume (by simp [hrender]), hhead, List.cons_append, resume_startRecord (head_renderCells hhead),
    ← List.cons_append, ← hhead]
  exact resume_cells hd line.nonempty [] h

/-! ### The first line -/

/-- A text that begins with characters that end no line. -/
theorem lines_append {text : List α} (hne : text ≠ []) (htext : ∀ c ∈ text, ¬ d.IsBreak c) (rest : List α) :
    lines d (text ++ rest) = (text ++ (lines d rest).headD []) :: (lines d rest).tail := by
  induction text with
  | nil => exact absurd rfl hne
  | cons c text ih =>
    obtain ⟨hc, htext⟩ := List.forall_mem_cons.1 htext
    rw [List.cons_append, lines, if_neg (not_endsLine hc _)]
    by_cases hnil : text = []
    · subst hnil
      rw [List.nil_append]
      cases lines d rest <;> rfl
    · rw [ih hnil htext]
      rfl

/-- What ends a line, taken alone. -/
theorem Behind.cut {rest : List α} {x : Result α} (h : Behind d rest x) :
    (∀ c ∈ (lines d rest).headD [], d.IsBreak c) ∧ Behind d ((lines d rest).headD []) ([], none) ∧
      (lines d ((lines d rest).headD [])).tail = [] ∧
      (lines d ((lines d rest).headD [])).headD [] = (lines d rest).headD [] ∧
      rowsFrom d false {} (lines d rest).tail = x := by
  cases h with
  | nothing => exact ⟨by simp [lines], .nothing, rfl, rfl, rfl⟩
  | lf rest =>
    have hline (rest : List α) : lines d (d.lf :: rest) = [d.lf] :: lines d rest := by rw [lines, if_pos (.inl rfl)]
    rw [hline, List.headD_cons, hline, List.tail_cons, List.tail_cons]
    refine ⟨fun c hc => .inl (List.mem_singleton.1 hc), .lf [], rfl, rfl, rfl⟩
  | cr rest hhead =>
    have hline (rest : List α) (hhead : rest.head? ≠ some d.lf) : lines d (d.cr :: rest) = [d.cr] :: lines d rest := by
      rw [lines, if_pos (.inr ⟨rfl, hhead⟩)]
    rw [hline rest hhead, List.headD_cons, hline [] (by simp), List.tail_cons, List.tail_cons]
    exact ⟨fun c hc => .inr (List.mem_singleton.1 hc), .cr [] (by simp), rfl, rfl, rfl⟩
  | crlf rest =>
    have hline (rest : List α) : lines d (d.cr :: d.lf :: rest) = [d.cr, d.lf] :: lines d rest := by
      have hcr : ¬ d.EndsLine d.cr (d.lf :: rest) := by
        rintro (h | ⟨-, h⟩)
        · exact d.cr_ne_lf h
        · exact h rfl
      rw [lines, if_neg hcr, lines, if_pos (.inl rfl)]
    rw [hline, List.headD_cons, hline, List.tail_cons, List.tail_cons]
    refine ⟨fun c hc => ?_, .crlf [], rfl, rfl, rfl⟩
    rcases List.mem_cons.1 hc with rfl | hc
    · exact .inr rfl
    · exact .inl (List.mem_singleton.1 hc)

/-- The first line of a text, which is one row, and the rows of what comes behind it. -/
theorem lines_line (hd : d.Plain) (line : Line d) (hne : line.render ≠ []) (hline : ∀ c ∈ line.render, ¬ d.IsBreak c)
    {rest : List α} {x : Result α} (h : Behind d rest x) :
    ∃ ending more, lines d (line.render ++ rest) = (line.render ++ ending) :: more ∧ (∀ c ∈ ending, d.IsBreak c) ∧
      rowsFrom d false {} [line.render ++ ending] = (if line.Fits then ([line.texts], none) else ([], some .fieldLimit)) ∧
      rowsFrom d false {} more = x := by
  obtain ⟨hbreaks, hbehind, htail, hhead, hmore⟩ := h.cut
  refine ⟨_, _, lines_append hne hline rest, hbreaks, ?_, hmore⟩
  have hrows := rows_line hd line hne hbehind
  rwa [rows, lines_append hne hline, htail, hhead] at hrows

/-! ### Texts -/

/-- The same but for blank rows. -/
def Alike (p : List (List α) → Bool) (x y : Result α) : Prop := x.1.filter p = y.1.filter p ∧ x.2 = y.2

omit [DecidableEq α] in
theorem Alike.emit {p : List (List α) → Bool} {x y : Result α} (h : Alike p x y) (row : List (List α)) :
    Alike p (emit row x) (emit row y) := by
  refine ⟨?_, h.2⟩
  rw [Csv.emit, Csv.emit, List.filter_cons, List.filter_cons, h.1]

omit [DecidableEq α] in
theorem alike_emit {p : List (List α) → Bool} {row : List (List α)} (hrow : p row = false) (x : Result α) :
    Alike p (emit row x) x := ⟨by rw [emit, List.filter_cons_of_neg (by simp [hrow])], rfl⟩

/-- A line end and what comes behind it. A carriage return takes with it a line feed that ends an
empty row. -/
theorem exists_behind {p : List (List α) → Bool} (hnil : p [] = false) (e : Ending) (rest : List α) :
    ∃ x, Behind d (e.render d ++ rest) x ∧ Alike p x (rows d rest) := by
  cases e with
  | lf => exact ⟨_, .lf rest, rfl, rfl⟩
  | crlf => exact ⟨_, .crlf rest, rfl, rfl⟩
  | cr =>
    by_cases hhead : rest.head? = some d.lf
    · obtain ⟨rest, rfl⟩ : ∃ tail, rest = d.lf :: tail := by
        cases rest with
        | nil => cases hhead
        | cons c tail => exact ⟨tail, by rw [Option.some.inj hhead]⟩
      refine ⟨_, .crlf rest, ?_⟩
      rw [rows_blank (List.cons_ne_nil _ _) (.lf rest)]
      have h := alike_emit (x := rows d rest) hnil
      exact ⟨h.1.symm, h.2.symm⟩
    · exact ⟨_, .cr rest hhead, rfl, rfl⟩

/-- Only a bare empty cell renders to nothing. -/
theorem texts_of_render_nil {line : Line d} (h : line.render = []) : line.texts = [[]] := by
  obtain ⟨cells, hcells⟩ := line
  rcases cells with _ | ⟨⟨text, quoted, bare⟩, _ | ⟨next, cells⟩⟩
  · exact absurd rfl hcells
  · cases quoted with
    | true => simp [Line.render, renderCells, Cell.render] at h
    | false =>
      have htext : text = [] := h
      simp [Line.texts, htext]
  · simp [Line.render, renderCells] at h

theorem fits_of_render_nil {line : Line d} (h : line.render = []) : line.Fits := by
  have htexts := texts_of_render_nil h
  intro cell hcell
  have hmem : cell.text ∈ line.texts := List.mem_map_of_mem hcell
  rw [htexts, List.mem_singleton] at hmem
  simp [hmem]

/-- One line before others: what the rows of a text are, up to blank ones. -/
theorem rows_cons_line (hd : d.Plain) {p : List (List α) → Bool} (hnil : p [] = false) (hblank : p [[]] = false) (line : Line d)
    {rest : List α} {x : Result α} (h : Behind d rest x) :
    (line.Fits → Alike p (rows d (line.render ++ rest)) (emit line.texts x)) ∧
      (¬ line.Fits → rows d (line.render ++ rest) = ([], some .fieldLimit)) := by
  by_cases hrender : line.render = []
  · refine ⟨fun _ => ?_, fun hnot => absurd (fits_of_render_nil hrender) hnot⟩
    have htexts := alike_emit (x := x) hblank
    rw [hrender, List.nil_append, texts_of_render_nil hrender]
    by_cases hrest : rest = []
    · subst hrest
      cases h
      exact ⟨htexts.1.symm, htexts.2.symm⟩
    · have hrow := alike_emit (x := x) hnil
      rw [rows_blank hrest h]
      exact ⟨hrow.1.trans htexts.1.symm, rfl⟩
  · rw [rows_line hd line hrender h]
    exact ⟨fun hfits => by rw [if_pos hfits]; exact ⟨rfl, rfl⟩, fun hnot => if_neg hnot⟩

/-- The rows behind a line are the lines that follow, up to blank ones; a field that is too long is an
error. -/
theorem exists_rows (hd : d.Plain) {p : List (List α) → Bool} (hnil : p [] = false) (hblank : p [[]] = false)
    (more : List (Ending × Line d)) :
    ∃ x, Behind d (renderMore more) x ∧
      ((∀ l ∈ more.map Prod.snd, l.Fits) → Alike p x ((more.map Prod.snd).map Line.texts, none)) ∧
      ((∃ l ∈ more.map Prod.snd, ¬ l.Fits) → x.2 ≠ none) := by
  induction more with
  | nil =>
    refine ⟨_, .nothing, fun _ => ⟨rfl, rfl⟩, ?_⟩
    rintro ⟨l, hl, -⟩
    exact absurd hl List.not_mem_nil
  | cons item more ih =>
    obtain ⟨e, line⟩ := item
    obtain ⟨y, hmore, hall, hsome⟩ := ih
    obtain ⟨hfits, hnot⟩ := rows_cons_line hd hnil hblank line hmore
    obtain ⟨x, hbehind, hrows, herror⟩ := exists_behind hnil e (line.render ++ renderMore more)
    have hrender : renderMore ((e, line) :: more) = e.render d ++ (line.render ++ renderMore more) := by
      rw [renderMore, List.flatMap_cons, List.append_assoc]
      rfl
    rw [hrender, List.map_cons]
    refine ⟨x, hbehind, fun h => ?_, ?_⟩
    · obtain ⟨hline, hmorefits⟩ := List.forall_mem_cons.1 h
      obtain ⟨hrows', herror'⟩ := hfits hline
      obtain ⟨hemit, hemiterror⟩ := Alike.emit (hall hmorefits) line.texts
      exact ⟨hrows.trans (hrows'.trans hemit), herror.trans (herror'.trans hemiterror)⟩
    · rintro ⟨l, hl, hlong⟩
      rw [herror]
      by_cases hline : line.Fits
      · rcases List.mem_cons.1 hl with rfl | hl
        · exact absurd hline hlong
        · rw [(hfits hline).2]
          exact hsome ⟨l, hl, hlong⟩
      · rw [hnot hline]
        exact Option.some_ne_none _

end LogAnalytics.Lib.Csv
