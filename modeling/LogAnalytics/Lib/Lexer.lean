import Mathlib.Data.List.Basic
/-!
# Reading the text of a query

A machine that cuts a text into tokens: words, quoted names, names of parameters behind a colon, and
symbols of one character. A text reads as a list of tokens if it does so wherever a token can end
behind it; the rules put such texts together.
-/

namespace LogAnalytics.Lib

variable {α : Type*}

inductive Token (α : Type*) where
  | word (letters : List α)
  | quoted (name : List α)
  | bind (name : List α)
  | symbol (c : α)
  deriving DecidableEq

/-- What the characters are for. -/
structure Lexis (α : Type*) where
  isSpace : α → Bool
  isWord : α → Bool
  quote : α
  colon : α
  quote_not_space : isSpace quote = false
  colon_not_space : isSpace colon = false
  word_not_space : ∀ c, isWord c = true → isSpace c = false
  quote_not_word : isWord quote = false
  colon_not_word : isWord colon = false
  quote_ne_colon : quote ≠ colon

namespace Lexis

section
variable (x : Lexis α)

/-- Where a token can end: no letter follows, and no quote. -/
def Boundary (text : List α) : Prop := ∀ c ∈ text.head?, x.isWord c = false ∧ c ≠ x.quote

/-- A character that is nothing else. -/
def IsSymbol (c : α) : Prop := x.isSpace c = false ∧ x.isWord c = false ∧ c ≠ x.quote ∧ c ≠ x.colon

variable {x}

theorem boundary_nil : x.Boundary [] := fun _ hc => nomatch hc

theorem boundary_append {text rest : List α} (h : x.Boundary text) (hrest : x.Boundary rest) : x.Boundary (text ++ rest) := by
  cases text with
  | nil => exact hrest
  | cons c text => exact h

theorem boundary_space {c : α} (hc : x.isSpace c = true) (text : List α) : x.Boundary (c :: text) := by
  rintro _ ⟨⟩
  constructor
  · refine Bool.eq_false_iff.2 fun hword => ?_
    rw [x.word_not_space c hword] at hc
    cases hc
  · rintro rfl
    rw [x.quote_not_space] at hc
    cases hc

theorem IsSymbol.boundary {c : α} (hc : x.IsSymbol c) (text : List α) : x.Boundary (c :: text) := by
  rintro _ ⟨⟩
  exact ⟨hc.2.1, hc.2.2.1⟩

end

inductive Mode (α : Type*) where
  | between
  | word (read : List α)
  | bind (read : List α)
  | quoted (read : List α)
  /-- A quote within quotes: the end, or the first of two that stand for one. -/
  | closing (read : List α)

variable [DecidableEq α] (x : Lexis α)

/-- The character that a token starts with. -/
def start (c : α) : Mode α × List (Token α) :=
  if x.isSpace c then (.between, [])
  else if c = x.quote then (.quoted [], [])
  else if c = x.colon then (.bind [], [])
  else if x.isWord c then (.word [c], [])
  else (.between, [.symbol c])

def step : Mode α → α → Mode α × List (Token α)
  | .between, c => x.start c
  | .word read, c => if x.isWord c then (.word (read ++ [c]), []) else ((x.start c).1, .word read :: (x.start c).2)
  | .bind read, c => if x.isWord c then (.bind (read ++ [c]), []) else ((x.start c).1, .bind read :: (x.start c).2)
  | .quoted read, c => if c = x.quote then (.closing read, []) else (.quoted (read ++ [c]), [])
  | .closing read, c =>
    if c = x.quote then (.quoted (read ++ [x.quote]), []) else ((x.start c).1, .quoted read :: (x.start c).2)

/-- The token that the end of the text ends; a name whose quotes are left open is none. -/
def finish : Mode α → Option (List (Token α))
  | .between => some []
  | .word read => some [.word read]
  | .bind read => some [.bind read]
  | .quoted _ => none
  | .closing read => some [.quoted read]

def lexFrom : Mode α → List α → Option (List (Token α))
  | mode, [] => finish mode
  | mode, c :: text => (lexFrom (x.step mode c).1 text).map ((x.step mode c).2 ++ ·)

def lex (text : List α) : Option (List (Token α)) := x.lexFrom .between text

/-- The text is these tokens, whatever follows them. -/
def Reads (text : List α) (tokens : List (Token α)) : Prop :=
  ∀ rest, x.Boundary rest → x.lex (text ++ rest) = (x.lex rest).map (tokens ++ ·)

variable {x} {text : List α} {tokens : List (Token α)}

theorem Reads.lex (h : x.Reads text tokens) : x.lex text = some tokens := by
  have hend := h [] boundary_nil
  rw [List.append_nil] at hend
  rw [hend, Lexis.lex, lexFrom, finish, Option.map_some, List.append_nil]

/-- Where a token ends, the next one starts as if nothing were before it. -/
theorem lexFrom_boundary (mode : Mode α) (token : Token α) (hfinish : finish mode = some [token])
    (hstep : ∀ c, x.isWord c = false → c ≠ x.quote → x.step mode c = ((x.start c).1, token :: (x.start c).2))
    {rest : List α} (hrest : x.Boundary rest) : x.lexFrom mode rest = (x.lex rest).map (token :: ·) := by
  cases rest with
  | nil =>
    rw [lexFrom, hfinish]
    rfl
  | cons c rest =>
    obtain ⟨hword, hquote⟩ := hrest c rfl
    rw [lexFrom, hstep c hword hquote, Lexis.lex, lexFrom, step, Option.map_map]
    rfl

/-! ## The rules -/

theorem reads_nil : x.Reads [] [] := fun rest _ => by
  rw [List.nil_append]
  exact Option.map_id'.symm

theorem Reads.append {text' : List α} {tokens' : List (Token α)} (h : x.Reads text tokens) (h' : x.Reads text' tokens')
    (hb : x.Boundary text') : x.Reads (text ++ text') (tokens ++ tokens') := by
  intro rest hrest
  rw [List.append_assoc, h _ (boundary_append hb hrest), h' rest hrest, Option.map_map]
  congr 1
  funext more
  exact (List.append_assoc ..).symm

theorem Reads.space {c : α} (hc : x.isSpace c = true) (h : x.Reads text tokens) : x.Reads (c :: text) tokens := by
  intro rest hrest
  rw [← h rest hrest, List.cons_append, Lexis.lex, lexFrom, step, start, if_pos hc]
  exact Option.map_id'

theorem Reads.symbol {c : α} (hc : x.IsSymbol c) (h : x.Reads text tokens) :
    x.Reads (c :: text) (.symbol c :: tokens) := by
  obtain ⟨hspace, hword, hquote, hcolon⟩ := hc
  intro rest hrest
  rw [List.cons_append, Lexis.lex, lexFrom, step, start, if_neg (Bool.eq_false_iff.1 hspace), if_neg hquote, if_neg hcolon,
    if_neg (Bool.eq_false_iff.1 hword), ← Lexis.lex, h rest hrest, Option.map_map]
  rfl

theorem lexFrom_word {w : List α} (hw : ∀ c ∈ w, x.isWord c = true) (read : List α) {rest : List α} (hrest : x.Boundary rest) :
    x.lexFrom (.word read) (w ++ rest) = (x.lex rest).map (.word (read ++ w) :: ·) := by
  induction w generalizing read with
  | nil =>
    rw [List.append_nil]
    exact lexFrom_boundary (.word read) (.word read) rfl (fun c hword _ => if_neg (Bool.eq_false_iff.1 hword)) hrest
  | cons c w ih =>
    rw [List.cons_append, lexFrom, step, if_pos (hw c List.mem_cons_self),
      ih (fun d hd => hw d (List.mem_cons_of_mem c hd)), List.append_assoc, List.singleton_append]
    exact Option.map_id'

theorem reads_word {w : List α} (hne : w ≠ []) (hw : ∀ c ∈ w, x.isWord c = true) : x.Reads w [.word w] := by
  intro rest hrest
  obtain ⟨c, w, rfl⟩ := List.exists_cons_of_ne_nil hne
  have hc := hw c List.mem_cons_self
  have hquote : c ≠ x.quote := by
    rintro rfl
    rw [x.quote_not_word] at hc
    cases hc
  have hcolon : c ≠ x.colon := by
    rintro rfl
    rw [x.colon_not_word] at hc
    cases hc
  rw [List.cons_append, Lexis.lex, lexFrom, step, start, if_neg (Bool.eq_false_iff.1 (x.word_not_space c hc)), if_neg hquote,
    if_neg hcolon, if_pos hc, lexFrom_word (fun d hd => hw d (List.mem_cons_of_mem c hd)) [c] hrest, Option.map_map]
  rfl

theorem lexFrom_bind {w : List α} (hw : ∀ c ∈ w, x.isWord c = true) (read : List α) {rest : List α} (hrest : x.Boundary rest) :
    x.lexFrom (.bind read) (w ++ rest) = (x.lex rest).map (.bind (read ++ w) :: ·) := by
  induction w generalizing read with
  | nil =>
    rw [List.append_nil]
    exact lexFrom_boundary (.bind read) (.bind read) rfl (fun c hword _ => if_neg (Bool.eq_false_iff.1 hword)) hrest
  | cons c w ih =>
    rw [List.cons_append, lexFrom, step, if_pos (hw c List.mem_cons_self),
      ih (fun d hd => hw d (List.mem_cons_of_mem c hd)), List.append_assoc, List.singleton_append]
    exact Option.map_id'

theorem reads_bind {w : List α} (hw : ∀ c ∈ w, x.isWord c = true) : x.Reads (x.colon :: w) [.bind w] := by
  intro rest hrest
  rw [List.cons_append, Lexis.lex, lexFrom, step, start, if_neg (Bool.eq_false_iff.1 x.colon_not_space),
    if_neg x.quote_ne_colon.symm, if_pos rfl, lexFrom_bind hw [] hrest, Option.map_map]
  rfl

theorem lexFrom_quoted {name : List α} (hname : x.quote ∉ name) (read : List α) {rest : List α} (hrest : x.Boundary rest) :
    x.lexFrom (.quoted read) (name ++ x.quote :: rest) = (x.lex rest).map (.quoted (read ++ name) :: ·) := by
  induction name generalizing read with
  | nil =>
    rw [List.nil_append, lexFrom, step, if_pos rfl, List.append_nil,
      lexFrom_boundary (.closing read) (.quoted read) rfl (fun c _ hquote => if_neg hquote) hrest]
    exact Option.map_id'
  | cons c name ih =>
    obtain ⟨hc, hname⟩ := not_or.1 (fun h => hname (List.mem_cons.2 h))
    rw [List.cons_append, lexFrom, step, if_neg (Ne.symm hc), ih hname, List.append_assoc, List.singleton_append]
    exact Option.map_id'

/-- Whatever a name is made of, it stays within its quotes if it has none of its own. -/
theorem reads_quoted {name : List α} (hname : x.quote ∉ name) : x.Reads (x.quote :: name ++ [x.quote]) [.quoted name] := by
  intro rest hrest
  rw [List.append_assoc, List.singleton_append, List.cons_append, Lexis.lex, lexFrom, step, start,
    if_neg (Bool.eq_false_iff.1 x.quote_not_space), if_pos rfl, lexFrom_quoted hname [] hrest, Option.map_map]
  rfl

end Lexis

end LogAnalytics.Lib
