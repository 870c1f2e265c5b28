import Mathlib.Data.Fintype.Option
import Mathlib.Data.Fintype.Basic
/-!
# Three-valued logic

Formulas over atoms that can be unknown, with the connectives of SQL. The truth of a formula is
known exactly when it is the same in every reading, where each unknown atom is read as true or as
false, each time it occurs on its own.
-/

namespace LogAnalytics.Lib

/-- True, false, or unknown. -/
abbrev Truth := Option Bool

namespace Truth

def not (t : Truth) : Truth := Option.map (!·) t

def and : Truth → Truth → Truth
  | some false, _ => some false
  | _, some false => some false
  | some true, some true => some true
  | _, _ => none

def or : Truth → Truth → Truth
  | some true, _ => some true
  | _, some true => some true
  | some false, some false => some false
  | _, _ => none

/-- It can be read as this. -/
def May (t : Truth) (b : Bool) : Prop := t = none ∨ t = some b

instance (t : Truth) (b : Bool) : Decidable (t.May b) := inferInstanceAs (Decidable (_ ∨ _))

theorem may_not : ∀ (t : Truth) (b : Bool), t.not.May b ↔ t.May !b := by decide

theorem may_and : ∀ (s t : Truth) (b : Bool), (s.and t).May b ↔ ∃ c d, s.May c ∧ t.May d ∧ (c && d) = b := by decide

theorem may_or : ∀ (s t : Truth) (b : Bool), (s.or t).May b ↔ ∃ c d, s.May c ∧ t.May d ∧ (c || d) = b := by decide

/-- Known is what can be read in one way only. -/
theorem known_iff : ∀ t : Truth, t ≠ none ↔ ∀ b c, t.May b → t.May c → b = c := by decide

end Truth

inductive Formula (A : Type) where
  | atom (a : A)
  | not (f : Formula A)
  | conj (fs : List (Formula A))
  | disj (fs : List (Formula A))

namespace Formula

variable {A : Type}

mutual

def eval (v : A → Truth) : Formula A → Truth
  | atom a => v a
  | not f => (eval v f).not
  | conj fs => evalConj v fs
  | disj fs => evalDisj v fs

def evalConj (v : A → Truth) : List (Formula A) → Truth
  | [] => some true
  | f :: fs => (eval v f).and (evalConj v fs)

def evalDisj (v : A → Truth) : List (Formula A) → Truth
  | [] => some false
  | f :: fs => (eval v f).or (evalDisj v fs)

end

mutual

/-- The atoms of a formula, as often as they occur. -/
def atoms : Formula A → List A
  | atom a => [a]
  | not f => atoms f
  | conj fs => atomsAll fs
  | disj fs => atomsAll fs

def atomsAll : List (Formula A) → List A
  | [] => []
  | f :: fs => atoms f ++ atomsAll fs

end

mutual

/-- A two-valued reading of a formula: an atom is read as it is, or at will when it is unknown. -/
inductive Reads (v : A → Truth) : Formula A → Bool → Prop
  | atom {a : A} {b : Bool} (agrees : (v a).May b) : Reads v (.atom a) b
  | not {f : Formula A} {b : Bool} (read : Reads v f b) : Reads v (.not f) !b
  | conj {fs : List (Formula A)} {bs : List Bool} (read : ReadsAll v fs bs) : Reads v (.conj fs) (bs.all id)
  | disj {fs : List (Formula A)} {bs : List Bool} (read : ReadsAll v fs bs) : Reads v (.disj fs) (bs.any id)

inductive ReadsAll (v : A → Truth) : List (Formula A) → List Bool → Prop
  | nil : ReadsAll v [] []
  | cons {f : Formula A} {b : Bool} {fs : List (Formula A)} {bs : List Bool} (read : Reads v f b)
      (rest : ReadsAll v fs bs) : ReadsAll v (f :: fs) (b :: bs)

end

variable {v : A → Truth}

mutual

/-- The readings of a formula are those of its truth. -/
theorem reads_iff : ∀ (f : Formula A) (b : Bool), Reads v f b ↔ (f.eval v).May b
  | atom a, b => by
    rw [eval]
    refine ⟨?_, .atom⟩
    rintro (agrees | _ | _ | _)
    exact agrees
  | not f, b => by
    rw [eval, Truth.may_not, ← reads_iff f]
    constructor
    · rintro (_ | read | _ | _)
      rwa [Bool.not_not]
    · intro read
      rw [← Bool.not_not b]
      exact .not read
  | conj fs, b => by
    rw [eval, ← readsAll_conj fs b]
    constructor
    · rintro (_ | _ | read | _)
      exact ⟨_, read, rfl⟩
    · rintro ⟨bs, read, rfl⟩
      exact .conj read
  | disj fs, b => by
    rw [eval, ← readsAll_disj fs b]
    constructor
    · rintro (_ | _ | _ | read)
      exact ⟨_, read, rfl⟩
    · rintro ⟨bs, read, rfl⟩
      exact .disj read

theorem readsAll_conj : ∀ (fs : List (Formula A)) (b : Bool),
    (∃ bs, ReadsAll v fs bs ∧ bs.all id = b) ↔ (evalConj v fs).May b
  | [], b => by
    constructor
    · rintro ⟨_, ⟨⟩, rfl⟩
      exact .inr rfl
    · rintro (h | h) <;> cases h
      exact ⟨[], .nil, rfl⟩
  | f :: fs, b => by
    rw [evalConj, Truth.may_and]
    constructor
    · rintro ⟨_, _ | ⟨read, rest⟩, rfl⟩
      exact ⟨_, _, (reads_iff f _).1 read, (readsAll_conj fs _).1 ⟨_, rest, rfl⟩, rfl⟩
    · rintro ⟨c, d, hread, hrest, rfl⟩
      obtain ⟨bs, rest, rfl⟩ := (readsAll_conj fs d).2 hrest
      exact ⟨c :: bs, .cons ((reads_iff f c).2 hread) rest, rfl⟩

theorem readsAll_disj : ∀ (fs : List (Formula A)) (b : Bool),
    (∃ bs, ReadsAll v fs bs ∧ bs.any id = b) ↔ (evalDisj v fs).May b
  | [], b => by
    constructor
    · rintro ⟨_, ⟨⟩, rfl⟩
      exact .inr rfl
    · rintro (h | h) <;> cases h
      exact ⟨[], .nil, rfl⟩
  | f :: fs, b => by
    rw [evalDisj, Truth.may_or]
    constructor
    · rintro ⟨_, _ | ⟨read, rest⟩, rfl⟩
      exact ⟨_, _, (reads_iff f _).1 read, (readsAll_disj fs _).1 ⟨_, rest, rfl⟩, rfl⟩
    · rintro ⟨c, d, hread, hrest, rfl⟩
      obtain ⟨bs, rest, rfl⟩ := (readsAll_disj fs d).2 hrest
      exact ⟨c :: bs, .cons ((reads_iff f c).2 hread) rest, rfl⟩

end

/-- The truth of a formula is known when all its readings agree. -/
theorem eval_known_iff (f : Formula A) : f.eval v ≠ none ↔ ∀ b c, Reads v f b → Reads v f c → b = c := by
  simp only [reads_iff]
  exact Truth.known_iff _

mutual

theorem eval_known : ∀ f : Formula A, (∀ a ∈ f.atoms, v a ≠ none) → f.eval v ≠ none
  | atom a, h => h a (by simp [atoms])
  | not f, h => by
    rw [eval, Truth.not, Ne, Option.map_eq_none_iff]
    exact eval_known f h
  | conj fs, h => (evalAll_known fs h).1
  | disj fs, h => (evalAll_known fs h).2

theorem evalAll_known : ∀ fs : List (Formula A), (∀ a ∈ atomsAll fs, v a ≠ none) →
    evalConj v fs ≠ none ∧ evalDisj v fs ≠ none
  | [], _ => ⟨by simp [evalConj], by simp [evalDisj]⟩
  | f :: fs, h => by
    have hand : ∀ s t : Truth, s ≠ none → t ≠ none → s.and t ≠ none ∧ s.or t ≠ none := by decide
    rw [atomsAll] at h
    have hf := eval_known f fun a ha => h a (List.mem_append_left _ ha)
    obtain ⟨hconj, hdisj⟩ := evalAll_known fs fun a ha => h a (List.mem_append_right _ ha)
    exact ⟨(hand _ _ hf hconj).1, (hand _ _ hf hdisj).2⟩

end

end Formula

end LogAnalytics.Lib
