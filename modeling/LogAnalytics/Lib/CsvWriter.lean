import LogAnalytics.Lib.Csv
/-!
# Writing delimited text

A writer that puts a cell in quotes when it has to: when it holds a character the reader would take
for something else, or is the one cell of its row and empty. What it writes, a reader of the same
dialect reads back.
-/

namespace LogAnalytics.Lib.Csv

variable {α : Type} [DecidableEq α] {d : Dialect α}

/-- The characters for which a writer quotes a cell; rows end with a line feed. -/
structure Writer (d : Dialect α) where
  special : α → Bool
  delimiter : special d.delimiter = true
  quote : special d.quote = true
  lf : special d.lf = true

namespace Writer

variable (w : Writer d)

/-- A cell that is the only one of its row is quoted when it is empty. -/
def quotes (alone : Bool) (text : List α) : Bool := text.any w.special || (alone && text.isEmpty)

def writeCell (alone : Bool) (text : List α) : List α :=
  if w.quotes alone text then d.quote :: (escape d text ++ [d.quote]) else text

def writeCells (alone : Bool) : List (List α) → List α
  | [] => []
  | [text] => w.writeCell alone text
  | text :: more => w.writeCell alone text ++ d.delimiter :: writeCells alone more

def writeRow (row : List (List α)) : List α := w.writeCells (row.length = 1) row ++ [d.lf]

def writeRows (rows : List (List (List α))) : List α := rows.flatMap w.writeRow

/-- A carriage return does not end the cell: it is in quotes. -/
def Guards (text : List α) : Prop := d.cr ∈ text → text.any w.special = true

/-- The cell of a text, as it is written. -/
def cell (alone : Bool) (text : List α) (h : w.Guards text) : Cell d where
  text := text
  quoted := w.quotes alone text
  bare hbare := by
    have hplain : ∀ c ∈ text, w.special c = false := by
      rw [quotes, Bool.or_eq_false_iff] at hbare
      simpa using hbare.1
    have hne {c x : α} (hc : c ∈ text) (hx : w.special x = true) : c ≠ x := by
      rintro rfl
      rw [hplain c hc] at hx
      cases hx
    refine ⟨fun c hc => ⟨hne hc w.delimiter, ?_⟩, fun hhead => ?_⟩
    · rintro (rfl | rfl)
      · exact hne hc w.lf rfl
      · obtain ⟨x, hx, hspecial⟩ := List.any_eq_true.1 (h hc)
        rw [hplain x hx] at hspecial
        cases hspecial
    · exact hne (List.mem_of_mem_head? hhead) w.quote rfl

theorem render_cell (alone : Bool) (text : List α) (h : w.Guards text) :
    (w.cell alone text h).render = w.writeCell alone text := rfl

end Writer

end LogAnalytics.Lib.Csv
