import Mathlib.Data.List.Sort
import LogAnalytics.Exn
import LogAnalytics.Lib.Table
/-!
# The plugin registry

`Registry`: the classes by name, and the names by alias, in two dictionaries of which the second is
looked at first. `add` refuses a name that is taken; an alias it takes as it comes.
-/
open LogAnalytics.Lib

namespace LogAnalytics

/-- What the registry asks of a string. -/
structure Naming where
  /-- `str.lower` -/
  lower : String → String
  /-- `!r` in a message -/
  repr : String → String

structure Registry (T : Type) where
  kind : String
  items : Table String T := []
  aliases : Table String String := []

/-- `PluginNotFoundError` -/
structure PluginNotFound where
  message : String
  requested : String
  available : List String
  deriving DecidableEq

/-- What a call of `add` is given, `override` apart. -/
structure Registration (T : Type) where
  name : String
  cls : T
  aliases : List String

namespace Registry

variable {T : Type} (py : Naming)

def add (r : Registry T) (call : Registration T) (override : Bool) : Except Exn (Registry T) :=
  let key := py.lower call.name
  if key ∈ Table.keys r.items ∧ override = false then
    .error ⟨.valueError, r.kind ++ " " ++ py.repr call.name ++ " is already registered"⟩
  else .ok { r with
    items := Table.put key call.cls r.items
    aliases := call.aliases.foldl (fun known aka => Table.put (py.lower aka) key known) r.aliases }

/-- `self._aliases.get(key, key)` of the name in lower case. -/
def keyOf (r : Registry T) (name : String) : String :=
  let key := py.lower name
  (Table.get r.aliases key).getD key

def resolve (r : Registry T) (name : String) : Except PluginNotFound T :=
  match Table.get r.items (keyOf py r name) with
  | some cls => .ok cls
  | none => .error {
    message := "unknown " ++ r.kind ++ " " ++ py.repr name
    requested := name
    available := (Table.keys r.items).insertionSort (· ≤ ·) }

/-- `__contains__`; an object that is no string is not in there. -/
def contains (r : Registry T) (name : Option String) : Bool := name.any fun name => keyOf py r name ∈ Table.keys r.items

/-- One call of `add` after the other, none with `override`. -/
def addAll (r : Registry T) (calls : List (Registration T)) : Except Exn (Registry T) :=
  calls.foldlM (fun r call => add py r call false) r

/-- Every name and every alias leads to the class of its call. -/
def NamesKept (r : Registry T) (calls : List (Registration T)) : Prop :=
  ∀ call ∈ calls, resolve py r call.name = .ok call.cls ∧ ∀ aka ∈ call.aliases, resolve py r aka = .ok call.cls

/-- In lower case, the alias is the name or an alias of the call. -/
def Names (aka : String) (call : Registration T) : Prop :=
  py.lower aka = py.lower call.name ∨ py.lower aka ∈ call.aliases.map py.lower

theorem contains_iff (r : Registry T) (name : String) :
    contains py r (some name) = true ↔ ∃ cls, resolve py r name = .ok cls := by
  simp only [contains, Option.any_some, decide_eq_true_eq, resolve]
  cases hfound : Table.get r.items (keyOf py r name) with
  | none => simp [Table.get_eq_none.1 hfound]
  | some cls =>
    have hmem : keyOf py r name ∈ Table.keys r.items := by
      by_contra hnot
      rw [Table.get_eq_none.2 hnot] at hfound
      cases hfound
    simp [hmem]

/-! ## What the dictionaries hold -/

/-- After the calls: every name is there with its class, and an alias belongs to one of the calls
that gave it. -/
structure Holds (r : Registry T) (calls : List (Registration T)) : Prop where
  named : ∀ call ∈ calls, Table.get r.items (py.lower call.name) = some call.cls
  known : ∀ call ∈ calls, ∀ aka ∈ call.aliases, ∃ key, Table.get r.aliases (py.lower aka) = some key
  given : ∀ aka key, Table.get r.aliases aka = some key →
    ∃ call ∈ calls, aka ∈ call.aliases.map py.lower ∧ key = py.lower call.name

theorem holds_new (kind : String) : Holds py (T := T) { kind := kind } [] where
  named := fun _ h => by cases h
  known := fun _ h => by cases h
  given := fun _ _ h => by cases h

variable {py}

/-- All that a call without `override` does when it raises nothing. -/
theorem add_ok {r r' : Registry T} {call : Registration T} (h : add py r call false = .ok r') :
    py.lower call.name ∉ Table.keys r.items ∧
      r' = { r with
        items := Table.put (py.lower call.name) call.cls r.items
        aliases := call.aliases.foldl (fun known aka => Table.put (py.lower aka) (py.lower call.name) known) r.aliases } := by
  by_cases htaken : py.lower call.name ∈ Table.keys r.items
  · rw [add, if_pos ⟨htaken, rfl⟩] at h
    cases h
  · rw [add, if_neg fun hand => htaken hand.1] at h
    cases h
    exact ⟨htaken, rfl⟩

/-- The aliases of one call over those there are. -/
theorem get_addAliases (key : String) (aliases : List String) (known : Table String String) (aka : String) :
    Table.get (aliases.foldl (fun known a => Table.put (py.lower a) key known) known) aka =
      if aka ∈ aliases.map py.lower then some key else Table.get known aka := by
  induction aliases generalizing known with
  | nil => simp
  | cons a aliases ih =>
    rw [List.foldl_cons, ih, Table.get_put, List.map_cons]
    by_cases hlater : aka ∈ aliases.map py.lower
    · rw [if_pos hlater, if_pos (List.mem_cons_of_mem _ hlater)]
    · by_cases hhere : aka = py.lower a
      · rw [if_neg hlater, if_pos hhere, if_pos (hhere ▸ List.mem_cons_self)]
      · have hnone : aka ∉ py.lower a :: aliases.map py.lower := by simp [hhere, hlater]
        rw [if_neg hlater, if_neg hhere, if_neg hnone]

theorem Holds.add {r r' : Registry T} {calls : List (Registration T)} {call : Registration T} (h : Holds py r calls)
    (hadd : add py r call false = .ok r') : Holds py r' (calls ++ [call]) := by
  obtain ⟨hnew, rfl⟩ := add_ok hadd
  refine ⟨fun other hother => ?_, fun other hother aka haka => ?_, fun aka key hkey => ?_⟩
  · rw [Table.get_put]
    rcases List.mem_append.1 hother with hold | hlast
    · have hthere := h.named other hold
      have hne : py.lower other.name ≠ py.lower call.name := by
        intro he
        rw [he, Table.get_eq_none.2 hnew] at hthere
        cases hthere
      rw [if_neg hne, hthere]
    · rw [List.mem_singleton.1 hlast, if_pos rfl]
  · rw [get_addAliases]
    split
    · exact ⟨_, rfl⟩
    · next hnot =>
      rcases List.mem_append.1 hother with hold | hlast
      · exact h.known other hold aka haka
      · rw [List.mem_singleton.1 hlast] at haka
        exact absurd (List.mem_map_of_mem haka) hnot
  · rw [get_addAliases] at hkey
    split at hkey
    · next hgiven =>
      cases hkey
      exact ⟨call, by simp, hgiven, rfl⟩
    · obtain ⟨other, hother, hgiven, rfl⟩ := h.given aka key hkey
      exact ⟨other, List.mem_append_left _ hother, hgiven, rfl⟩

theorem Holds.addAll {later : List (Registration T)} : ∀ {r r' : Registry T} {calls : List (Registration T)},
    Holds py r calls → addAll py r later = .ok r' → Holds py r' (calls ++ later) := by
  induction later with
  | nil =>
    intro r r' calls h hadd
    cases hadd
    rwa [List.append_nil]
  | cons call later ih =>
    intro r r' calls h hadd
    rw [Registry.addAll, List.foldlM_cons] at hadd
    cases hfirst : Registry.add py r call false with
    | error exn => rw [hfirst] at hadd; cases hadd
    | ok middle =>
      rw [hfirst] at hadd
      rw [List.append_cons]
      exact ih (h.add hfirst) hadd

theorem resolve_eq_ok {r : Registry T} {name : String} {cls : T} :
    resolve py r name = .ok cls ↔ Table.get r.items (keyOf py r name) = some cls := by
  unfold resolve
  cases Table.get r.items (keyOf py r name) <;> simp

/-- Only the lower case of a name matters. -/
theorem resolve_congr {r : Registry T} {name name' : String} {cls : T} (h : py.lower name = py.lower name') :
    resolve py r name = .ok cls ↔ resolve py r name' = .ok cls := by
  rw [resolve_eq_ok, resolve_eq_ok, keyOf, keyOf, h]

/-- A name in use leads to the class of a call that gave it, and if it is an alias, as an alias. -/
theorem Holds.resolve {r : Registry T} {calls : List (Registration T)} (h : Holds py r calls) {name : String}
    {call : Registration T} (hcall : call ∈ calls) (hname : Names py name call) :
    resolve py r name = .ok call.cls ∨
      ∃ other ∈ calls, py.lower name ∈ other.aliases.map py.lower ∧ resolve py r name = .ok other.cls := by
  cases hknown : Table.get r.aliases (py.lower name) with
  | some key =>
    obtain ⟨other, hother, hgiven, rfl⟩ := h.given _ _ hknown
    exact .inr ⟨other, hother, hgiven, resolve_eq_ok.2 (by simp [keyOf, hknown, h.named other hother])⟩
  | none =>
    rcases hname with hsame | hgiven
    · exact .inl (resolve_eq_ok.2 (by rw [keyOf, hknown, Option.getD_none, hsame, h.named call hcall]))
    · obtain ⟨aka, haka, hlower⟩ := List.mem_map.1 hgiven
      obtain ⟨key, hkey⟩ := h.known call hcall aka haka
      rw [hlower, hknown] at hkey
      cases hkey

/-- What a call has named leads to its class, if all is as registered. -/
theorem NamesKept.resolve {r : Registry T} {calls : List (Registration T)} (h : NamesKept py r calls)
    {call : Registration T} (hcall : call ∈ calls) {name : String} (hname : Names py name call) :
    Registry.resolve py r name = .ok call.cls := by
  rcases hname with hsame | hgiven
  · exact (resolve_congr hsame).2 (h call hcall).1
  · obtain ⟨aka, haka, hlower⟩ := List.mem_map.1 hgiven
    exact (resolve_congr hlower).1 ((h call hcall).2 aka haka)

/-- The names and aliases of the calls stay theirs exactly when an alias that is also a name or an
alias of another call stands for the same class there. -/
theorem namesKept_iff {kind : String} {calls : List (Registration T)} {r : Registry T}
    (hadd : Registry.addAll py { kind := kind } calls = .ok r) :
    NamesKept py r calls ↔
      ∀ call ∈ calls, ∀ other ∈ calls, ∀ aka ∈ call.aliases, Names py aka other → call.cls = other.cls := by
  have h : Holds py r calls := (holds_new py kind).addAll hadd
  constructor
  · intro hkept call hcall other hother aka haka hname
    have hcls := hkept.resolve hcall (.inr (List.mem_map_of_mem haka))
    rw [hkept.resolve hother hname] at hcls
    exact (Except.ok.inj hcls).symm
  · intro hclash call hcall
    have hleads : ∀ name, Names py name call → Registry.resolve py r name = .ok call.cls := by
      intro name hname
      rcases h.resolve hcall hname with hok | ⟨other, hother, hgiven, hok⟩
      · exact hok
      · obtain ⟨aka, haka, hlower⟩ := List.mem_map.1 hgiven
        have hnamed : Names py aka call := by rwa [Names, hlower]
        rw [hok, hclash other hother call hcall aka haka hnamed]
    exact ⟨hleads _ (.inl rfl), fun aka haka => hleads _ (.inr (List.mem_map_of_mem haka))⟩

/-- Names in lower case are left as they are. -/
def lowerNames : Naming := ⟨id, fun name => "'" ++ name ++ "'"⟩

/-- Two of the built-in parsers. -/
def jsonAndCsv : List (Registration Nat) := [⟨"json", 0, ["jsonl", "ndjson"]⟩, ⟨"csv", 1, ["tsv"]⟩]

theorem namesKept_iff_builtin :
    ∃ r, Registry.addAll lowerNames { kind := "parser" } jsonAndCsv = .ok r ∧
      (NamesKept lowerNames r jsonAndCsv ↔ ∀ call ∈ jsonAndCsv, ∀ other ∈ jsonAndCsv, ∀ aka ∈ call.aliases,
        Names lowerNames aka other → call.cls = other.cls) :=
  ⟨_, rfl, namesKept_iff rfl⟩

/-- A plugin that gives the name of another one as an alias is what the name leads to. -/
theorem alias_hijacks_name :
    ∃ r : Registry Nat, Registry.addAll lowerNames { kind := "parser" } [⟨"json", 0, []⟩, ⟨"ecs", 1, ["json"]⟩] = .ok r ∧
      ¬NamesKept lowerNames r [⟨"json", 0, []⟩, ⟨"ecs", 1, ["json"]⟩] :=
  ⟨_, rfl, fun h => absurd (h ⟨"json", 0, []⟩ List.mem_cons_self).1 (by decide)⟩

end Registry

end LogAnalytics
