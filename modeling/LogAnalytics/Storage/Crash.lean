import LogAnalytics.Storage.Text
/-!
# Killing a flush

Both stores publish a file in the same three steps: close its writer, remove the final file if
there is one, and rename. `Publish` has these steps over any kind of file, with the states a
flush can be killed in, and says which of them have lost a published file; the two stores'
loops are instances.
-/
open LogAnalytics.Lib

namespace LogAnalytics

/-- A text file on disk: the rows written to it, of which some can be missing while its handle
is open. -/
structure TextFile (E : Type) where
  rows : List E
  complete : Bool := false

/-- Files of content `C`: what closing a writer makes of its file, and which files can be read. -/
structure Medium (C : Type) where
  closed : C → C
  complete : C → Bool
  closed_complete : ∀ c, complete (closed c) = true

def parquetMedium (E : Type) : Medium (ParquetFile E) where
  closed f := { f with complete := true }
  complete := ParquetFile.complete
  closed_complete _ := rfl

def textMedium (E : Type) : Medium (TextFile E) where
  closed f := { f with complete := true }
  complete := TextFile.complete
  closed_complete _ := rfl

/-- How far the work on one writer has come. -/
inductive PublishStage where
  | start | closed
  /-- The old final file is gone, the new one not yet in its place. -/
  | unlinked
  deriving DecidableEq

namespace Publish

variable {D C : Type} [DecidableEq D]

abbrev Fault := Option (FinaliseStep × Exn)

def close (m : Medium C) (files : Files (DataPath D) C) (path : PartName D) : Files (DataPath D) C :=
  match files.lookup (.temp path) with
  | none => files
  | some c => files.insert (.temp path) (m.closed c)

def replace (fault : Fault) (files : Files (DataPath D) C) (path : PartName D) :
    Except Exn Unit × Files (DataPath D) C :=
  match fault with
  | some (.replace, exn) => (.error exn, files)
  | _ => (.ok (), files.rename (.temp path) (.final path))

/-- The `try` body of the loop of `flush`. -/
def finalise (m : Medium C) (fault : Fault) (files : Files (DataPath D) C) (path : PartName D) :
    Except Exn Unit × Files (DataPath D) C :=
  match fault with
  | some (.close, exn) => (.error exn, files)
  | _ =>
    let files := close m files path
    match fault with
    | some (.probe, exn) => (.error exn, files)
    | _ =>
      if (files.lookup (.temp path)).isNone then (.ok (), files)
      else if (files.lookup (.final path)).isNone then replace fault files path
      else
        match fault with
        | some (.unlink, exn) => (.error exn, files)
        | _ => replace fault (files.erase (.final path)) path

/-- The files while the writer is worked on, if it comes that far. -/
def during (m : Medium C) (fault : Fault) (files : Files (DataPath D) C) (path : PartName D) :
    PublishStage → Option (Files (DataPath D) C)
  | .start => some files
  | .closed =>
    match fault with
    | some (.close, _) => none
    | _ => some (close m files path)
  | .unlinked =>
    match fault with
    | some (.close, _) | some (.probe, _) | some (.unlink, _) => none
    | _ =>
      if (files.lookup (.temp path)).isSome ∧ (files.lookup (.final path)).isSome then
        some ((close m files path).erase (.final path))
      else none

/-- The files and the writers left after the first `n` writers, unless an exception has ended
the flush. -/
def after (m : Medium C) (faults : Nat → Fault) :
    Nat → Files (DataPath D) C → List (PartName D) → Nat → Option (Files (DataPath D) C × List (PartName D))
  | _, files, writers, 0 => some (files, writers)
  | _, _, [], _ + 1 => none
  | k, files, path :: rest, n + 1 =>
    match finalise m (faults k) files path with
    | (.ok (), files) => after m faults (k + 1) files rest n
    | (.error exn, files) => if exn.isOSError then after m faults (k + 1) files rest n else none

/-- The files when the flush is killed at a stage of the writer behind the first `n`. -/
def killed (m : Medium C) (faults : Nat → Fault) (files : Files (DataPath D) C) (writers : List (PartName D)) (n : Nat)
    (stage : PublishStage) : Option (Files (DataPath D) C) :=
  match after m faults 0 files writers n with
  | none => none
  | some (files, []) => if stage = .start then some files else none
  | some (files, path :: _) => during m (faults n) files path stage

/-- The file at a final path is the one it had, or the one its writer closed. -/
def OldOrNew (m : Medium C) (files : Files (DataPath D) C) (path : PartName D) (c : C) : Prop :=
  files.lookup (.final path) = some c ∨ ∃ t, files.lookup (.temp path) = some t ∧ c = m.closed t

/-- Every final path that had a file has a complete one, the old or the new, and no final path
has a partial file. -/
structure Intact (m : Medium C) (files files' : Files (DataPath D) C) : Prop where
  kept : ∀ path c, files.lookup (.final path) = some c →
    ∃ c', files'.lookup (.final path) = some c' ∧ m.complete c' = true ∧ OldOrNew m files path c'
  whole : ∀ path c, files'.lookup (.final path) = some c → m.complete c = true

/-- The old file of a writer is removed and the rename fails. -/
def Stranded (fault : Fault) (files : Files (DataPath D) C) (path : PartName D) : Prop :=
  (∃ exn, fault = some (.replace, exn)) ∧ (files.lookup (.temp path)).isSome ∧ (files.lookup (.final path)).isSome

/-! ## One writer -/

section
variable (m : Medium C) (fault : Fault) (files : Files (DataPath D) C) (path : PartName D)

theorem close_lookup_ne {p : DataPath D} (h : p ≠ .temp path) : (close m files path).lookup p = files.lookup p := by
  unfold close
  split
  · rfl
  · exact AList.lookup_insert_ne h

theorem close_lookup_temp : (close m files path).lookup (.temp path) = (files.lookup (.temp path)).map m.closed := by
  unfold close
  split
  · next h => rw [h]; rfl
  · next h => rw [h]; exact AList.lookup_insert _

/-- What working on one writer leaves at the paths of the others. -/
theorem finalise_frame {p : DataPath D} (htemp : p ≠ .temp path) (hfinal : p ≠ .final path) :
    (finalise m fault files path).2.lookup p = files.lookup p := by
  have hclose := close_lookup_ne m files path htemp
  have hreplace : ∀ fs : Files (DataPath D) C, fs.lookup p = files.lookup p → (replace fault fs path).2.lookup p = files.lookup p := by
    intro fs h
    unfold replace
    split
    · exact h
    · rw [← h]; exact Files.lookup_rename_of_ne htemp hfinal
  unfold finalise
  split
  · rfl
  · dsimp only
    split
    · exact hclose
    · split
      · exact hclose
      · split
        · exact hreplace _ hclose
        · split
          · exact hclose
          · exact hreplace _ (by rw [AList.lookup_erase_ne hfinal]; exact hclose)

/-- A rename in the place of the old file, or of none, leaves the closed file there. -/
theorem replace_final {fs : Files (DataPath D) C} {c : C} (htemp : fs.lookup (.temp path) = some c)
    (hfault : ∀ exn, fault ≠ some (.replace, exn)) : (replace fault fs path).2.lookup (.final path) = some c := by
  have h : replace fault fs path = (.ok (), fs.rename (.temp path) (.final path)) := by
    unfold replace
    split
    · next exn => exact absurd rfl (hfault exn)
    · rfl
  rw [h]
  exact Files.lookup_rename htemp

theorem replace_failed (fs : Files (DataPath D) C) (exn : Exn) :
    replace (some (.replace, exn)) fs path = (.error exn, fs) := rfl

/-- What working on a writer leaves at its own final path. -/
theorem finalise_final :
    (∀ c, (finalise m fault files path).2.lookup (.final path) = some c → OldOrNew m files path c) ∧
    ((files.lookup (.final path)).isSome →
      (((finalise m fault files path).2.lookup (.final path)).isSome ↔ ¬ Stranded fault files path)) := by
  have htemp := close_lookup_temp m files path
  have hfinal : (close m files path).lookup (.final path) = files.lookup (.final path) :=
    close_lookup_ne m files path (by simp)
  -- whichever step raises, the path has the old file, the closed one or, when stranded, none
  have hcases : (finalise m fault files path).2.lookup (.final path) = files.lookup (.final path) ∧ ¬ Stranded fault files path ∨
      (∃ t, files.lookup (.temp path) = some t ∧ (finalise m fault files path).2.lookup (.final path) = some (m.closed t)) ∧
        ¬ Stranded fault files path ∨
      (finalise m fault files path).2.lookup (.final path) = none ∧ Stranded fault files path := by
    cases ht : files.lookup (.temp path) with
    | none =>
      rw [ht] at htemp
      refine .inl ⟨?_, by simp [Stranded, ht]⟩
      rcases fault with _ | ⟨_ | _ | _ | _, exn⟩ <;> simp [finalise, htemp, hfinal]
    | some t =>
      rw [ht, Option.map_some] at htemp
      have htemp' : ((close m files path).erase (.final path)).lookup (.temp path) = some (m.closed t) := by
        rw [AList.lookup_erase_ne (by simp)]
        exact htemp
      cases hf : files.lookup (.final path) with
      | none =>
        rw [hf] at hfinal
        rcases fault with _ | ⟨step, exn⟩
        · exact .inr (.inl ⟨⟨t, rfl, by simpa [finalise, htemp, hfinal] using replace_final none path htemp (by simp)⟩,
            by simp [Stranded]⟩)
        · cases step with
          | close => exact .inl ⟨by simp [finalise, hf], by simp [Stranded]⟩
          | probe => exact .inl ⟨by simp [finalise, hfinal], by simp [Stranded]⟩
          | unlink =>
            exact .inr (.inl ⟨⟨t, rfl, by simpa [finalise, htemp, hfinal] using replace_final _ path htemp (by simp)⟩,
              by simp [Stranded]⟩)
          | replace => exact .inl ⟨by simp [finalise, htemp, hfinal, replace_failed], by simp [Stranded, hf]⟩
      | some c =>
        rw [hf] at hfinal
        rcases fault with _ | ⟨step, exn⟩
        · exact .inr (.inl ⟨⟨t, rfl, by simpa [finalise, htemp, hfinal] using replace_final none path htemp' (by simp)⟩,
            by simp [Stranded]⟩)
        · cases step with
          | close => exact .inl ⟨by simp [finalise, hf], by simp [Stranded]⟩
          | probe => exact .inl ⟨by simp [finalise, hfinal], by simp [Stranded]⟩
          | unlink => exact .inl ⟨by simp [finalise, htemp, hfinal], by simp [Stranded]⟩
          | replace => exact .inr (.inr ⟨by simp [finalise, htemp, hfinal, replace_failed], ⟨⟨exn, rfl⟩, by simp [ht], by simp [hf]⟩⟩)
  rcases hcases with ⟨h, hs⟩ | ⟨⟨t, ht, h⟩, hs⟩ | ⟨h, hs⟩
  · rw [h]
    exact ⟨fun _ => .inl, fun hsome => ⟨fun _ => hs, fun _ => hsome⟩⟩
  · rw [h]
    refine ⟨?_, fun _ => ⟨fun _ => hs, fun _ => rfl⟩⟩
    rintro c hc
    cases hc
    exact .inr ⟨t, ht, rfl⟩
  · rw [h]
    exact ⟨by simp, fun _ => ⟨by simp, fun hn => absurd hs hn⟩⟩

end

/-! ## The writers before the kill -/

theorem after_spec (m : Medium C) (faults : Nat → Fault) (n : Nat) : ∀ (k : Nat) (files : Files (DataPath D) C)
    (writers : List (PartName D)), writers.Nodup →
    ∀ files' rest, after m faults k files writers n = some (files', rest) →
      rest = writers.drop n ∧
      (∀ p c, files'.lookup (.final p) = some c → OldOrNew m files p c) ∧
      (∀ p, p ∉ writers.take n → files'.lookup (.final p) = files.lookup (.final p) ∧
        files'.lookup (.temp p) = files.lookup (.temp p)) ∧
      (∀ j p, j < n → writers[j]? = some p → (files.lookup (.final p)).isSome →
        ((files'.lookup (.final p)).isSome ↔ ¬ Stranded (faults (k + j)) files p)) := by
  induction n with
  | zero =>
    intro k files writers _ files' rest h
    cases h
    exact ⟨rfl, fun _ _ => .inl, fun _ _ => ⟨rfl, rfl⟩, fun j _ hj => absurd hj (by omega)⟩
  | succ n ih =>
    intro k files writers hnodup files' rest h
    cases writers with
    | nil => cases h
    | cons path writers =>
      obtain ⟨hpath, hnodup⟩ := List.nodup_cons.1 hnodup
      obtain ⟨horigin, hown⟩ := finalise_final m (faults k) files path
      have hframe : ∀ p, p ≠ path →
          (finalise m (faults k) files path).2.lookup (.final p) = files.lookup (.final p) ∧
          (finalise m (faults k) files path).2.lookup (.temp p) = files.lookup (.temp p) := fun p hp =>
        ⟨finalise_frame m _ files path (by simp) (by simpa using hp),
          finalise_frame m _ files path (by simpa using hp) (by simp)⟩
      have hrest : after m faults (k + 1) (finalise m (faults k) files path).2 writers n = some (files', rest) := by
        revert h
        rw [after]
        rcases finalise m (faults k) files path with ⟨exn | _, fs⟩
        · dsimp only
          split
          · exact id
          · intro h; cases h
        · exact id
      obtain ⟨hdrop, horigin', hout, hin⟩ := ih (k + 1) _ writers hnodup files' rest hrest
      refine ⟨hdrop, ?_, ?_, ?_⟩
      · intro p c hc
        by_cases hp : p = path
        · subst hp
          rw [(hout p fun h => hpath (List.mem_of_mem_take h)).1] at hc
          exact horigin c hc
        · have h := horigin' p c hc
          rwa [OldOrNew, (hframe p hp).1, (hframe p hp).2] at h
      · intro p hp
        rw [List.take_succ_cons, List.mem_cons, not_or] at hp
        exact ⟨(hout p hp.2).1.trans (hframe p hp.1).1, (hout p hp.2).2.trans (hframe p hp.1).2⟩
      · intro j p hj hp hsome
        cases j with
        | zero =>
          cases hp
          have hmem : path ∉ writers.take n := fun h => hpath (List.mem_of_mem_take h)
          rw [(hout path hmem).1]
          exact hown hsome
        | succ j =>
          rw [List.getElem?_cons_succ] at hp
          have hne : p ≠ path := by rintro rfl; exact hpath (List.mem_of_getElem? hp)
          have h := hin j p (by omega) hp (by rw [(hframe p hne).1]; exact hsome)
          have hsame : Stranded (faults (k + 1 + j)) (finalise m (faults k) files path).2 p ↔
              Stranded (faults (k + (j + 1))) files p := by
            rw [Stranded, Stranded, (hframe p hne).1, (hframe p hne).2, Nat.add_assoc, Nat.add_comm 1 j]
          rw [h, hsame]

/-- Some final file is missing exactly when its writer was stranded. -/
theorem intact_iff {m : Medium C} {faults : Nat → Fault} {n : Nat} {files files' state : Files (DataPath D) C}
    {writers rest : List (PartName D)} (hnodup : writers.Nodup)
    (hpub : ∀ p c, files.lookup (.final p) = some c → m.complete c = true)
    (hafter : after m faults 0 files writers n = some (files', rest))
    (hstate : ∀ p, state.lookup (.final p) = files'.lookup (.final p)) :
    Intact m files state ↔ ∀ j p, j < n → writers[j]? = some p → ¬ Stranded (faults j) files p := by
  obtain ⟨-, horigin, hout, hin⟩ := after_spec m faults n 0 files writers hnodup files' rest hafter
  have hwhole : ∀ p c, files'.lookup (.final p) = some c → m.complete c = true := by
    intro p c hc
    rcases horigin p c hc with h | ⟨t, -, rfl⟩
    · exact hpub p c h
    · exact m.closed_complete t
  simp only [Nat.zero_add] at hin
  constructor
  · intro h j p hj hp hs
    obtain ⟨c, hc⟩ := Option.isSome_iff_exists.1 hs.2.2
    obtain ⟨c', hc', -⟩ := h.kept p c hc
    exact (hin j p hj hp hs.2.2).1 (by rw [← hstate, hc']; rfl) hs
  · intro h
    refine ⟨fun p c hc => ?_, fun p c hc => hwhole p c (by rw [← hstate]; exact hc)⟩
    by_cases hmem : p ∈ writers.take n
    · obtain ⟨j, hj⟩ := List.getElem?_of_mem hmem
      rw [List.getElem?_take] at hj
      split at hj
      · next hlt =>
        have hsome := (hin j p hlt hj (by rw [hc]; rfl)).2 (h j p hlt hj)
        obtain ⟨c', hc'⟩ := Option.isSome_iff_exists.1 hsome
        exact ⟨c', by rw [hstate, hc'], hwhole p c' hc', horigin p c' hc'⟩
      · cases hj
    · exact ⟨c, by rw [hstate, (hout p hmem).1, hc], hpub p c hc, .inl hc⟩

/-- A killed flush has kept every published file exactly when it was not killed between the
removal of one and the rename, and no rename failed after a removal before that. -/
theorem killed_intact {m : Medium C} {faults : Nat → Fault} {n : Nat} {stage : PublishStage}
    {files state : Files (DataPath D) C} {writers : List (PartName D)} (hnodup : writers.Nodup)
    (hpub : ∀ p c, files.lookup (.final p) = some c → m.complete c = true)
    (hkilled : killed m faults files writers n stage = some state) :
    Intact m files state ↔ stage ≠ .unlinked ∧ ∀ j p, j < n → writers[j]? = some p → ¬ Stranded (faults j) files p := by
  unfold killed at hkilled
  split at hkilled
  · cases hkilled
  · next files' hafter =>
    split at hkilled
    · next hstart =>
      cases hkilled
      rw [intact_iff hnodup hpub hafter fun _ => rfl, hstart]
      simp
    · cases hkilled
  · next files' path rest hafter =>
    cases stage with
    | start =>
      cases hkilled
      rw [intact_iff hnodup hpub hafter fun _ => rfl]
      simp
    | closed =>
      have hstate : state = close m files' path := by
        unfold during at hkilled
        dsimp only at hkilled
        split at hkilled
        · cases hkilled
        · cases hkilled; rfl
      rw [intact_iff hnodup hpub hafter fun p => by rw [hstate]; exact close_lookup_ne m files' path (by simp)]
      simp
    | unlinked =>
      simp only [ne_eq, not_true, false_and, iff_false]
      have hlost : (files'.lookup (.final path)).isSome ∧ state.lookup (.final path) = none := by
        unfold during at hkilled
        dsimp only at hkilled
        split at hkilled
        · cases hkilled
        · cases hkilled
        · cases hkilled
        · split at hkilled
          · next h =>
            cases hkilled
            exact ⟨h.2, AList.lookup_erase _ _⟩
          · cases hkilled
      obtain ⟨hdrop, -, hout, -⟩ := after_spec m faults n 0 files writers hnodup _ _ hafter
      have hmem : path ∉ writers.take n := by
        intro h
        rw [← List.take_append_drop n writers, ← hdrop, List.nodup_append] at hnodup
        exact hnodup.2.2 path h path List.mem_cons_self rfl
      intro h
      have hsome := hlost.1
      rw [(hout path hmem).1] at hsome
      obtain ⟨c, hc⟩ := Option.isSome_iff_exists.1 hsome
      obtain ⟨c', hc', -⟩ := h.kept path c hc
      rw [hlost.2] at hc'
      cases hc'

end Publish

/-! ## The stores -/

variable {D E : Type} [DecidableEq D]

namespace ParquetStore

theorem complete_eq (files : Files (DataPath D) (ParquetFile E)) (path : PartName D) :
    complete files path = Publish.close (parquetMedium E) files path := by
  unfold complete Publish.close
  cases files.lookup (.temp path) <;> rfl

theorem finalise_eq (fault : Publish.Fault) (files : Files (DataPath D) (ParquetFile E)) (path : PartName D) :
    finalise fault files path = Publish.finalise (parquetMedium E) fault files path := by
  rcases fault with _ | ⟨_ | _ | _ | _, exn⟩ <;>
    simp only [finalise, Publish.finalise, replace, Publish.replace, complete_eq]

/-- `flush` comes through the states it is killed in. -/
theorem flushWriters_after (faults : ParquetFaults) (n : Nat) : ∀ (k : Nat) (files : Files (DataPath D) (ParquetFile E))
    (writers : List (PartName D)) (errors : List String) (files' rest),
    Publish.after (parquetMedium E) faults.finalise k files writers n = some (files', rest) →
      ∃ errors', flushWriters faults k files writers errors = flushWriters faults (k + n) files' rest errors' := by
  induction n with
  | zero =>
    intro k files writers errors files' rest h
    cases h
    exact ⟨errors, rfl⟩
  | succ n ih =>
    intro k files writers errors files' rest h
    cases writers with
    | nil => cases h
    | cons path writers =>
      rw [Publish.after, ← finalise_eq] at h
      rw [flushWriters, show k + (n + 1) = k + 1 + n by omega]
      generalize finalise (faults.finalise k) files path = r at h ⊢
      obtain ⟨exn | _, fs⟩ := r
      · dsimp only at h ⊢
        by_cases hos : exn.isOSError = true
        · rw [if_pos hos] at h ⊢
          exact ih (k + 1) fs writers _ files' rest h
        · rw [if_neg hos] at h
          cases h
      · exact ih (k + 1) fs writers errors files' rest h

/-- The files when `flush` is killed. -/
def killed (faults : ParquetFaults) (s : ParquetStore D E) (n : Nat) (stage : PublishStage) :
    Option (Files (DataPath D) (ParquetFile E)) :=
  Publish.killed (parquetMedium E) faults.finalise s.files s.writers n stage

end ParquetStore

namespace TextStore

/-- The store's rows are those of the files on disk. -/
def OnDisk (disk : Files (DataPath D) (TextFile E)) (files : Files (DataPath D) (List E)) : Prop :=
  ∀ p, files.lookup p = (disk.lookup p).map TextFile.rows

theorem OnDisk.close {disk : Files (DataPath D) (TextFile E)} {files : Files (DataPath D) (List E)}
    (h : OnDisk disk files) (path : PartName D) : OnDisk (Publish.close (textMedium E) disk path) files := by
  intro p
  by_cases hp : p = .temp path
  · subst hp
    rw [Publish.close_lookup_temp, h, Option.map_map]
    rfl
  · rw [Publish.close_lookup_ne _ _ _ hp, h]

theorem OnDisk.erase {disk : Files (DataPath D) (TextFile E)} {files : Files (DataPath D) (List E)}
    (h : OnDisk disk files) (q : DataPath D) : OnDisk (disk.erase q) (files.erase q) := by
  intro p
  by_cases hp : p = q
  · subst hp
    rw [AList.lookup_erase, AList.lookup_erase]
    rfl
  · rw [AList.lookup_erase_ne hp, AList.lookup_erase_ne hp, h]

theorem OnDisk.rename {disk : Files (DataPath D) (TextFile E)} {files : Files (DataPath D) (List E)}
    (h : OnDisk disk files) (q r : DataPath D) : OnDisk (disk.rename q r) (files.rename q r) := by
  have hq := h q
  unfold Files.rename
  cases hd : disk.lookup q with
  | none =>
    rw [hd] at hq
    rw [hq]
    exact h
  | some f =>
    rw [hd, Option.map_some] at hq
    rw [hq]
    intro p
    by_cases hp : p = r
    · subst hp
      rw [AList.lookup_insert, AList.lookup_insert]
      rfl
    · rw [AList.lookup_insert_ne hp, AList.lookup_insert_ne hp, h.erase q p]

/-- A writer's steps on disk are those of the store. -/
theorem OnDisk.finalise {disk : Files (DataPath D) (TextFile E)} {files : Files (DataPath D) (List E)}
    (h : OnDisk disk files) (fault : Publish.Fault) (path : PartName D) :
    (Publish.finalise (textMedium E) fault disk path).1 = (TextStore.finalise fault files path).1 ∧
    OnDisk (Publish.finalise (textMedium E) fault disk path).2 (TextStore.finalise fault files path).2 := by
  have hclose := h.close path
  have htemp : ((Publish.close (textMedium E) disk path).lookup (.temp path)).isNone = (files.lookup (.temp path)).isNone := by
    rw [hclose, Option.isNone_map]
  have hfinal : ((Publish.close (textMedium E) disk path).lookup (.final path)).isNone = (files.lookup (.final path)).isNone := by
    rw [hclose, Option.isNone_map]
  have hreplace : ∀ (d : Files (DataPath D) (TextFile E)) (fs : Files (DataPath D) (List E)), OnDisk d fs →
      (Publish.replace fault d path).1 = (replace fault fs path).1 ∧
        OnDisk (Publish.replace fault d path).2 (replace fault fs path).2 := by
    intro d fs hd
    rcases fault with _ | ⟨_ | _ | _ | _, exn⟩ <;>
      first | exact ⟨rfl, hd⟩ | exact ⟨rfl, hd.rename _ _⟩
  rcases fault with _ | ⟨step, exn⟩
  · simp only [Publish.finalise, TextStore.finalise, htemp, hfinal]
    split
    · exact ⟨rfl, hclose⟩
    · split
      · exact hreplace _ _ hclose
      · exact hreplace _ _ (hclose.erase _)
  · cases step with
    | close => exact ⟨rfl, h⟩
    | probe => exact ⟨rfl, hclose⟩
    | unlink =>
      simp only [Publish.finalise, TextStore.finalise, htemp, hfinal]
      split
      · exact ⟨rfl, hclose⟩
      · split
        · exact hreplace _ _ hclose
        · exact ⟨rfl, hclose⟩
    | replace =>
      simp only [Publish.finalise, TextStore.finalise, htemp, hfinal]
      split
      · exact ⟨rfl, hclose⟩
      · split
        · exact hreplace _ _ hclose
        · exact hreplace _ _ (hclose.erase _)

/-- `flush` comes through the states it is killed in. -/
theorem flushHandles_after (faults : TextFaults) (n : Nat) : ∀ (k : Nat) (disk : Files (DataPath D) (TextFile E))
    (files : Files (DataPath D) (List E)) (handles : List (PartName D)) (errors : List String) (disk' rest), OnDisk disk files →
    Publish.after (textMedium E) faults.finalise k disk handles n = some (disk', rest) →
      ∃ files' errors', OnDisk disk' files' ∧
        flushHandles faults k files handles errors = flushHandles faults (k + n) files' rest errors' := by
  induction n with
  | zero =>
    intro k disk files handles errors disk' rest hd h
    cases h
    exact ⟨files, errors, hd, rfl⟩
  | succ n ih =>
    intro k disk files handles errors disk' rest hd h
    cases handles with
    | nil => cases h
    | cons path handles =>
      obtain ⟨hr, hd'⟩ := hd.finalise (faults.finalise k) path
      rw [Publish.after] at h
      rw [flushHandles, show k + (n + 1) = k + 1 + n by omega]
      generalize Publish.finalise (textMedium E) (faults.finalise k) disk path = r at h hr hd'
      generalize TextStore.finalise (faults.finalise k) files path = r' at hr hd' ⊢
      obtain ⟨r, d⟩ := r
      obtain ⟨_, fs⟩ := r'
      cases hr
      cases r with
      | ok => exact ih (k + 1) d fs handles errors disk' rest hd' h
      | error exn =>
        dsimp only at h ⊢
        by_cases hos : exn.isOSError = true
        · rw [if_pos hos] at h ⊢
          exact ih (k + 1) d fs handles _ disk' rest hd' h
        · rw [if_neg hos] at h
          cases h

/-- The files on disk when `flush` is killed. -/
def killed (faults : TextFaults) (disk : Files (DataPath D) (TextFile E)) (handles : List (PartName D)) (n : Nat)
    (stage : PublishStage) : Option (Files (DataPath D) (TextFile E)) :=
  Publish.killed (textMedium E) faults.finalise disk handles n stage

end TextStore

/-! ## Crash atomicity -/

/-- No final path has a partial file. -/
def Whole {C : Type} (m : Medium C) (files : Files (DataPath D) C) : Prop :=
  ∀ p c, files.lookup (.final p) = some c → m.complete c = true

/-- Neither store's flush can be killed without losing a published file: it is lost when the
kill comes between its removal and the rename, or when that rename failed before. -/
theorem flush_crash_atomic (n : Nat) (stage : PublishStage) :
    (∀ (s : ParquetStore D E) (faults : ParquetFaults) state, s.writers.Nodup → Whole (parquetMedium E) s.files →
      ParquetStore.killed faults s n stage = some state →
      (Publish.Intact (parquetMedium E) s.files state ↔
        stage ≠ .unlinked ∧ ∀ j p, j < n → s.writers[j]? = some p → ¬ Publish.Stranded (faults.finalise j) s.files p)) ∧
    (∀ (disk : Files (DataPath D) (TextFile E)) (handles : List (PartName D)) (faults : TextFaults) state,
      handles.Nodup → Whole (textMedium E) disk → TextStore.killed faults disk handles n stage = some state →
      (Publish.Intact (textMedium E) disk state ↔
        stage ≠ .unlinked ∧ ∀ j p, j < n → handles[j]? = some p → ¬ Publish.Stranded (faults.finalise j) disk p)) :=
  ⟨fun _ _ _ hnodup hwhole hkilled => Publish.killed_intact hnodup hwhole hkilled,
    fun _ _ _ _ hnodup hwhole hkilled => Publish.killed_intact hnodup hwhole hkilled⟩

/-- A run's part is open and nothing has been published under its name. -/
def firstRun : ParquetStore Unit Nat where
  files := AList.insert (.temp ((), "run")) { rows := [1] } ∅
  writers := [((), "run")]

def firstRunText : Files (DataPath Unit) (TextFile Nat) := AList.insert (.temp ((), "run")) { rows := [1] } ∅

theorem flush_crash_atomic_first_run :
    (Publish.Intact (parquetMedium Nat) firstRun.files
        (AList.insert (.temp ((), "run")) { rows := [1], complete := true } ∅) ↔
      PublishStage.closed ≠ .unlinked ∧ ∀ j p, j < 0 → firstRun.writers[j]? = some p →
        ¬ Publish.Stranded (({} : ParquetFaults).finalise j) firstRun.files p) ∧
    (Publish.Intact (textMedium Nat) firstRunText
        (AList.insert (.temp ((), "run")) { rows := [1], complete := true } ∅) ↔
      PublishStage.closed ≠ .unlinked ∧ ∀ j p, j < 0 → [((), "run")][j]? = some p →
        ¬ Publish.Stranded (({} : TextFaults).finalise j) firstRunText p) :=
  ⟨(flush_crash_atomic 0 .closed).1 firstRun {} _ (List.nodup_singleton _) (by rintro ⟨⟨⟩, r⟩ c h; cases h) rfl,
    (flush_crash_atomic 0 .closed).2 firstRunText [((), "run")] {} _ (List.nodup_singleton _)
      (by rintro ⟨⟨⟩, r⟩ c h; cases h) rfl⟩

/-- The same part, published before under the same run id. -/
def secondRun : ParquetStore Unit Nat where
  files := AList.insert (.final ((), "run")) { rows := [1], complete := true }
    (AList.insert (.temp ((), "run")) { rows := [1, 2] } ∅)
  writers := [((), "run")]

/-- A kill right after the old file is removed: it is gone, and the new one has no final name. -/
theorem flush_loses_published_file : ∃ state, ParquetStore.killed {} secondRun 0 .unlinked = some state ∧
    ¬ Publish.Intact (parquetMedium Nat) secondRun.files state := by
  refine ⟨_, rfl, fun h => ?_⟩
  obtain ⟨c', hc', -⟩ := h.kept ((), "run") { rows := [1], complete := true } rfl
  cases hc'

end LogAnalytics
