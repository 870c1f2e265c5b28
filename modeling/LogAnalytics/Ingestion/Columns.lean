import LogAnalytics.Ingestion.Files
/-!
# Cells under their columns

`CsvFileSource.read` on well-formed text with the delimiter given: for which texts every cell of
every row arrives. The header is taken from the first line of the text, and the cells of a row go
into a dict under the names of their columns.
-/
open LogAnalytics.Lib

namespace LogAnalytics.CsvFileSource

/-! ## Rows -/

/-- Each cell is under the name of its column; those without a column are together. -/
def KeepsCells (names row : List Text) (record : Dict) : Prop :=
  (∀ item ∈ names.zip row, record.get? item.1 = some (.str item.2)) ∧
    (names.length < row.length →
      record.get? (Text.ofString "_extra") = some (.list ((row.drop names.length).map .str)))

/-- Columns of one name have one cell, and none is called as the cells without a column are. -/
def Unambiguous (names row : List Text) : Prop :=
  (∀ a ∈ names.zip row, ∀ b ∈ names.zip row, a.1 = b.1 → a.2 = b.2) ∧
    (names.length < row.length → Text.ofString "_extra" ∉ names)

theorem get?_zip {items : List (Text × Text)} (h : ∀ a ∈ items, ∀ b ∈ items, a.1 = b.1 → a.2 = b.2) :
    ∀ item ∈ items, Dict.get? (items.foldl (fun d item => d.set item.1 (.str item.2)) []) item.1 = some (.str item.2) := by
  induction items using List.reverseRecOn with
  | nil => simp
  | append_singleton items last ih =>
    intro item hitem
    rw [List.foldl_append, List.foldl_cons, List.foldl_nil, Dict.get?_set]
    by_cases hname : item.1 = last.1
    · rw [if_pos hname, h item hitem last (by simp) hname]
    · rw [if_neg hname]
      refine ih (fun a ha b hb => h a (by simp [ha]) b (by simp [hb])) item ?_
      rcases List.mem_append.1 hitem with hitem | hlast
      · exact hitem
      · rw [List.mem_singleton.1 hlast] at hname
        exact absurd rfl hname

theorem keepsCells_zip (names row : List Text) :
    (∀ item ∈ names.zip row, (zipRecord names row).get? item.1 = some (.str item.2)) ↔
      ∀ a ∈ names.zip row, ∀ b ∈ names.zip row, a.1 = b.1 → a.2 = b.2 := by
  refine ⟨fun h a ha b hb hname => ?_, fun h => get?_zip h⟩
  have hvalue := h a ha
  rw [hname, h b hb] at hvalue
  exact (Value.str.inj (Option.some.inj hvalue)).symm

theorem keepsCells_iff (names row : List Text) : KeepsCells names row (rowRecord names row) ↔ Unambiguous names row := by
  unfold KeepsCells Unambiguous rowRecord
  have hother (hextra : Text.ofString "_extra" ∉ names) (item : Text × Text) (hitem : item ∈ names.zip row) :
      item.1 ≠ Text.ofString "_extra" := by
    intro heq
    rw [← heq] at hextra
    exact hextra (List.of_mem_zip hitem).1
  by_cases hlong : names.length < row.length
  · simp only [hlong, if_true, forall_const, Dict.get?_set]
    constructor
    · rintro ⟨hcells, -⟩
      have hextra : Text.ofString "_extra" ∉ names := by
        intro hmem
        -- the column has a cell, over which the others are written
        obtain ⟨k, hk, hname⟩ := List.getElem_of_mem hmem
        have hitem : (names[k], row[k]) ∈ names.zip row :=
          List.mem_iff_getElem.2 ⟨k, by rw [List.length_zip]; omega, List.getElem_zip⟩
        have hcell := hcells _ hitem
        rw [if_pos hname] at hcell
        cases hcell
      refine ⟨(keepsCells_zip names row).1 fun item hitem => ?_, hextra⟩
      have hcell := hcells item hitem
      rwa [if_neg (hother hextra item hitem)] at hcell
    · rintro ⟨hcells, hextra⟩
      refine ⟨fun item hitem => ?_, trivial⟩
      rw [if_neg (hother hextra item hitem)]
      exact (keepsCells_zip names row).2 hcells item hitem
  · simp only [hlong, if_false, false_implies, and_true]
    exact keepsCells_zip names row

/-! ## Texts -/

/-- A source whose delimiter is given. -/
def delimited (path : Text) (delimiter : Delimiter) (maxFieldSize : Nat) : CsvFileSource :=
  { path := path, delimiter := some delimiter, maxFieldSize := maxFieldSize }

/-- The dialect of such a source, whatever the header. -/
abbrev forcedDialect (delimiter : Delimiter) (maxFieldSize : Nat) : Csv.Dialect CodePoint :=
  (CsvFormat.forced delimiter).dialect maxFieldSize

theorem forcedDialect_plain (delimiter : Delimiter) (maxFieldSize : Nat) : (forcedDialect delimiter maxFieldSize).Plain :=
  ⟨rfl, fun _ => rfl⟩

section

variable {delimiter : Delimiter} {maxFieldSize : Nat}

/-- The names of the columns. -/
def columns (header : Csv.Line (forcedDialect delimiter maxFieldSize)) : List Text := header.texts.map columnName

/-- The rows that are not blank. -/
def filledRows (more : List (Csv.Ending × Csv.Line (forcedDialect delimiter maxFieldSize))) : List (List Text) :=
  ((more.map Prod.snd).map Csv.Line.texts).filter isFilled

/-- The file holds a header row and more rows. -/
def textStream (header : Csv.Line (forcedDialect delimiter maxFieldSize))
    (more : List (Csv.Ending × Csv.Line (forcedDialect delimiter maxFieldSize))) : TextStream :=
  { lines := Csv.lines (forcedDialect delimiter maxFieldSize) (header.render ++ Csv.renderMore more) }

/-- A record for each row that is not blank, in order, with every cell of the row. -/
def Lossless (sniff : Text → Option CsvFormat) (path : Text) (header : Csv.Line (forcedDialect delimiter maxFieldSize))
    (more : List (Csv.Ending × Csv.Line (forcedDialect delimiter maxFieldSize))) : Prop :=
  let (result, reading) := (delimited path delimiter maxFieldSize).readStream sniff (textStream header more)
  result = .ok () ∧
    List.Forall₂ (fun row record => ∃ cells, record.payload = .mapping cells ∧ KeepsCells (columns header) row cells)
      (filledRows more) reading.records

/-- The header row has no line break. -/
def OnOneLine (header : Csv.Line (forcedDialect delimiter maxFieldSize)) : Prop :=
  ∀ c ∈ header.render, ¬ (forcedDialect delimiter maxFieldSize).IsBreak c

/-- The header is on one line and not blank unless there is nothing below it, no cell is too long,
and no two cells of a row want one place. -/
def Recoverable (header : Csv.Line (forcedDialect delimiter maxFieldSize))
    (more : List (Csv.Ending × Csv.Line (forcedDialect delimiter maxFieldSize))) : Prop :=
  OnOneLine header ∧
    if Text.strip header.render = [] then filledRows more = []
    else (∀ line ∈ header :: more.map Prod.snd, line.Fits) ∧ ∀ row ∈ filledRows more, Unambiguous (columns header) row

/-! ## Reading them -/

/-- The payloads of the rows that are not blank, in order. -/
theorem payloads_readRow (s : CsvFileSource) (names : List Text) (rows : List (List Text)) (k : Nat) (r : SourceReading) :
    ((rows.zipIdx k).foldl (s.readRow names) r).records.map RawRecord.payload =
      r.records.map RawRecord.payload ++ (rows.filter isFilled).map fun row => .mapping (rowRecord names row) := by
  induction rows generalizing k r with
  | nil => simp
  | cons row rows ih =>
    rw [List.zipIdx_cons, List.foldl_cons, ih, readRow]
    by_cases hfilled : isFilled row = true
    · rw [if_pos hfilled, List.filter_cons_of_pos hfilled]
      simp
    · rw [if_neg hfilled, List.filter_cons_of_neg hfilled]

/-- A header on one line is the first line. -/
theorem readHeader_oneLine (s : CsvFileSource) {header : Csv.Line (forcedDialect delimiter maxFieldSize)} {first : Text}
    (hrow : Csv.rowsFrom (forcedDialect delimiter maxFieldSize) false {} [first] =
      if header.Fits then ([header.texts], none) else ([], some .fieldLimit)) :
    s.readHeader (forcedDialect delimiter maxFieldSize) first =
      if header.Fits then .ok (columns header) else .error (s.csvError .fieldLimit) := by
  rw [readHeader, hrow]
  by_cases hfits : header.Fits
  · rw [if_pos hfits, if_pos hfits]
    obtain ⟨cell, cells, hcells⟩ := List.exists_cons_of_ne_nil header.nonempty
    have htexts : header.texts = cell.text :: cells.map Csv.Cell.text := by rw [Csv.Line.texts, hcells, List.map_cons]
    rw [columns, htexts]
  · rw [if_neg hfits, if_neg hfits]

/-- What a text with the header on one line yields, if the header is not blank. -/
theorem readStream_oneLine (sniff : Text → Option CsvFormat) (path : Text)
    {header : Csv.Line (forcedDialect delimiter maxFieldSize)} (hline : OnOneLine header)
    (hheader : Text.strip header.render ≠ []) (more : List (Csv.Ending × Csv.Line (forcedDialect delimiter maxFieldSize))) :
    ∃ x : Csv.Result CodePoint, (delimited path delimiter maxFieldSize).readStream sniff (textStream header more) =
        (if header.Fits then
          (raised (x.2.map (delimited path delimiter maxFieldSize).csvError),
            (x.1.zipIdx 2).foldl ((delimited path delimiter maxFieldSize).readRow (columns header)) {})
        else (.error ((delimited path delimiter maxFieldSize).csvError .fieldLimit), {})) ∧
      ((∀ line ∈ more.map Prod.snd, line.Fits) → x.1.filter isFilled = filledRows more ∧ x.2 = none) ∧
      ((∃ line ∈ more.map Prod.snd, ¬ line.Fits) → x.2 ≠ none) := by
  have hplain := forcedDialect_plain delimiter maxFieldSize
  have hne : header.render ≠ [] := by
    intro hnil
    rw [hnil] at hheader
    exact hheader rfl
  obtain ⟨x, hbehind, hall, hsome⟩ := Csv.exists_rows hplain (p := isFilled) rfl rfl more
  obtain ⟨ending, rest, hlines, -, hrow, hrows⟩ := Csv.lines_line hplain header hne hline hbehind
  refine ⟨x, ?_, hall, hsome⟩
  have hfirst : ¬ Text.strip (header.render ++ ending) = [] := by
    rw [Text.strip_eq_nil_iff]
    intro hspace
    exact hheader (Text.strip_eq_nil_iff.2 fun c hc => hspace c (List.mem_append_left _ hc))
  have hdialect : (delimited path delimiter maxFieldSize).dialect sniff (header.render ++ ending) =
      forcedDialect delimiter maxFieldSize := rfl
  unfold readStream textStream
  rw [hlines]
  dsimp only
  rw [if_neg hfirst, hdialect, readHeader_oneLine _ hrow]
  by_cases hfits : header.Fits
  · rw [if_pos hfits, if_pos hfits]
    dsimp only [Option.isSome_none]
    rw [hrows, Option.or_none]
  · rw [if_neg hfits, if_neg hfits]

/-- Under a blank header nothing is read. -/
theorem readStream_blank (sniff : Text → Option CsvFormat) (path : Text)
    {header : Csv.Line (forcedDialect delimiter maxFieldSize)} (hline : OnOneLine header)
    (hheader : Text.strip header.render = []) (more : List (Csv.Ending × Csv.Line (forcedDialect delimiter maxFieldSize))) :
    (delimited path delimiter maxFieldSize).readStream sniff (textStream header more) = (.ok (), {}) := by
  have hplain := forcedDialect_plain delimiter maxFieldSize
  obtain ⟨x, hbehind, -, -⟩ := Csv.exists_rows hplain (p := isFilled) rfl rfl more
  have hbreaks : ∀ c, (forcedDialect delimiter maxFieldSize).IsBreak c → Text.isSpace c = true := by
    rintro c (rfl | rfl) <;> rfl
  have hbehindSpace : ∀ c ∈ (Csv.lines (forcedDialect delimiter maxFieldSize) (Csv.renderMore more)).headD [],
      Text.isSpace c = true := fun c hc => hbreaks c (hbehind.cut.1 c hc)
  have hspace : ∀ c ∈ (textStream header more).lines.headD [], Text.isSpace c = true := by
    unfold textStream
    dsimp only
    by_cases hne : header.render = []
    · rw [hne, List.nil_append]
      exact hbehindSpace
    · rw [Csv.lines_append hne hline, List.headD_cons]
      intro c hc
      rcases List.mem_append.1 hc with hc | hc
      · exact Text.strip_eq_nil_iff.1 hheader c hc
      · exact hbehindSpace c hc
  unfold readStream
  cases hlines : (textStream header more).lines with
  | nil => rfl
  | cons first rest =>
    rw [hlines, List.headD_cons] at hspace
    exact if_pos (Text.strip_eq_nil_iff.2 hspace)

/-- A record for each row that is not blank, as its cells make it. -/
theorem forall₂_keepsCells {names : List Text} {rows : List (List Text)} {records : List (RawRecord Dict)}
    (h : records.map RawRecord.payload = rows.map fun row => .mapping (rowRecord names row)) :
    List.Forall₂ (fun row record => ∃ cells, record.payload = .mapping cells ∧ KeepsCells names row cells) rows records ↔
      ∀ row ∈ rows, Unambiguous names row := by
  have hpayload := List.forall₂_map_right_iff (R := fun row (payload : Payload Dict) =>
    ∃ cells, payload = .mapping cells ∧ KeepsCells names row cells) (f := RawRecord.payload) (l := rows) (u := records)
  rw [← hpayload, h, List.forall₂_map_right_iff, List.forall₂_same]
  refine forall₂_congr fun row _ => ?_
  rw [← keepsCells_iff]
  constructor
  · rintro ⟨cells, hcells, hkeeps⟩
    rwa [Payload.mapping.inj hcells]
  · exact fun hkeeps => ⟨_, rfl, hkeeps⟩

/-- With the header on one line. -/
theorem lossless_oneLine (sniff : Text → Option CsvFormat) (path : Text)
    {header : Csv.Line (forcedDialect delimiter maxFieldSize)} (hline : OnOneLine header)
    (more : List (Csv.Ending × Csv.Line (forcedDialect delimiter maxFieldSize))) :
    Lossless sniff path header more ↔ Recoverable header more := by
  unfold Lossless Recoverable
  rw [and_iff_right hline]
  by_cases hheader : Text.strip header.render = []
  · rw [if_pos hheader, readStream_blank sniff path hline hheader]
    dsimp only
    rw [List.forall₂_nil_right_iff]
    exact and_iff_right rfl
  · rw [if_neg hheader]
    obtain ⟨x, hread, hall, hsome⟩ := readStream_oneLine sniff path hline hheader more
    rw [hread]
    by_cases hfits : header.Fits
    · rw [if_pos hfits]
      dsimp only
      by_cases hmore : ∀ line ∈ more.map Prod.snd, line.Fits
      · obtain ⟨hrows, herror⟩ := hall hmore
        have hpayloads := payloads_readRow (delimited path delimiter maxFieldSize) (columns header) x.1 2 {}
        rw [hrows] at hpayloads
        rw [herror, forall₂_keepsCells (hpayloads.trans (List.nil_append _)), and_iff_right (List.forall_mem_cons.2 ⟨hfits, hmore⟩)]
        exact and_iff_right rfl
      · have hlong : ∃ line ∈ more.map Prod.snd, ¬ line.Fits := by
          by_contra hnone
          exact hmore fun line hmem => by_contra fun hnot => hnone ⟨line, hmem, hnot⟩
        obtain ⟨error, herror⟩ := Option.ne_none_iff_exists'.1 (hsome hlong)
        rw [herror]
        constructor
        · rintro ⟨hok, -⟩
          cases hok
        · rintro ⟨hall, -⟩
          exact absurd (fun line hmem => hall line (List.mem_cons_of_mem _ hmem)) hmore
    · rw [if_neg hfits]
      constructor
      · rintro ⟨hok, -⟩
        cases hok
      · rintro ⟨hall, -⟩
        exact absurd (hall header List.mem_cons_self) hfits

/-- Every cell of every row arrives if the text is recoverable; with the header on one line, only
then. -/
theorem lossless_iff (sniff : Text → Option CsvFormat) (path : Text)
    (header : Csv.Line (forcedDialect delimiter maxFieldSize))
    (more : List (Csv.Ending × Csv.Line (forcedDialect delimiter maxFieldSize))) :
    (Recoverable header more → Lossless sniff path header more) ∧
      (OnOneLine header → Lossless sniff path header more → Recoverable header more) :=
  ⟨fun h => (lossless_oneLine sniff path h.1 more).2 h, fun hline => (lossless_oneLine sniff path hline more).1⟩

end

/-! ## A name twice -/

def comma : Delimiter := ⟨Timeutil.char ',', comma_ne_quote, comma_ne_cr, comma_ne_lf⟩

def quotedCell {d : Csv.Dialect CodePoint} (text : String) : Csv.Cell d :=
  { text := Text.ofString text, quoted := true, bare := fun h => absurd h.symm Bool.false_ne_true }

def quotedPair {d : Csv.Dialect CodePoint} (first second : String) : Csv.Line d :=
  { cells := [quotedCell first, quotedCell second], nonempty := List.cons_ne_nil _ _ }

def repeatedHeader : Csv.Line (forcedDialect comma 1048576) := quotedPair "a" "a"

def repeatedRows : List (Csv.Ending × Csv.Line (forcedDialect comma 1048576)) := [(.lf, quotedPair "1" "2")]

/-- Of two columns named `a` only the second is kept. -/
theorem repeated_name_loses_cell :
    ¬ Lossless (fun _ => none) (Text.ofString "/logs/a.csv") repeatedHeader repeatedRows := by
  intro h
  have hread : ((delimited (Text.ofString "/logs/a.csv") comma 1048576).readStream (fun _ => none)
      (textStream repeatedHeader repeatedRows)).2.records.map RawRecord.payload =
      (filledRows repeatedRows).map fun row => .mapping (rowRecord (columns repeatedHeader) row) := by with_unfolding_all rfl
  have hcells := (forall₂_keepsCells hread).1 h.2 [Text.ofString "1", Text.ofString "2"] List.mem_cons_self
  have hsame := hcells.1 (Text.ofString "a", Text.ofString "1") List.mem_cons_self (Text.ofString "a", Text.ofString "2")
    (List.mem_cons_of_mem _ List.mem_cons_self) rfl
  exact absurd hsame (by decide)

end LogAnalytics.CsvFileSource
