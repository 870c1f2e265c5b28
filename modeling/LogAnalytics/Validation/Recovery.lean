import LogAnalytics.Lib.Counts
import LogAnalytics.Lib.JsonPrefix
import LogAnalytics.Lib.Loops
import LogAnalytics.Validation.Threads
/-!
# Rejections after a crash

A process that is killed leaves of each of its files the bytes that have come to the disk, so that a
file can end inside a row and inside a character. What `iter_rejected` reads then, and what
`replay_rejected` and `rejection_stats` make of it.
-/
open LogAnalytics.Lib

namespace LogAnalytics

variable {P : Type} {w : DlqWriter P}

/-! ## Files cut short -/

namespace Text

/-- How many bytes a character has in UTF-8. -/
def utf8Size (c : CodePoint) : Nat :=
  if c.val < 0x80 then 1 else if c.val < 0x800 then 2 else if c.val < 0x10000 then 3 else 4

def utf8Length (text : Text) : Nat := (text.map utf8Size).sum

/-- The characters in the first `n` bytes of a text, and whether a part of another is behind them. -/
def tear : Nat → Text → Text × Bool
  | _, [] => ([], false)
  | n, c :: text =>
    if utf8Size c ≤ n then
      let (kept, broken) := tear (n - utf8Size c) text
      (c :: kept, broken)
    else ([], decide (0 < n))

theorem utf8Size_pos (c : CodePoint) : 0 < utf8Size c := by
  unfold utf8Size
  split
  · exact Nat.one_pos
  · split
    · exact Nat.two_pos
    · split <;> omega

theorem utf8Length_cons (c : CodePoint) (text : Text) : utf8Length (c :: text) = utf8Size c + utf8Length text := rfl

theorem utf8Length_append (a b : Text) : utf8Length (a ++ b) = utf8Length a + utf8Length b := by
  rw [utf8Length, List.map_append, List.sum_append]
  rfl

theorem tear_append {n : Nat} {a : Text} (h : utf8Length a ≤ n) (b : Text) :
    tear n (a ++ b) = (a ++ (tear (n - utf8Length a) b).1, (tear (n - utf8Length a) b).2) := by
  induction a generalizing n with
  | nil => rfl
  | cons c a ih =>
    rw [utf8Length_cons] at h
    rw [List.cons_append, tear, if_pos (by omega), ih (by omega), utf8Length_cons, Nat.sub_add_eq]
    rfl

theorem tear_lt {n : Nat} {a : Text} (h : n < utf8Length a) (b : Text) :
    ∃ k < a.length, (tear n (a ++ b)).1 = a.take k := by
  induction a generalizing n with
  | nil => cases h
  | cons c a ih =>
    rw [utf8Length_cons] at h
    rw [List.cons_append, tear]
    split
    · next hfits =>
      obtain ⟨k, hk, heq⟩ := ih (n := n - utf8Size c) (by omega)
      exact ⟨k + 1, Nat.succ_lt_succ hk, congrArg (c :: ·) heq⟩
    · exact ⟨0, Nat.succ_pos _, rfl⟩

end Text

namespace DlqStore

/-- A file as a crash leaves it. -/
abbrev TornFile := FilePath × Text × Bool

/-- What is left of the files, with so many bytes of each on the disk. -/
def crash (kept : FilePath → Nat) (files : List (FilePath × Text)) : List TornFile :=
  files.map fun file => (file.1, file.2.tear (kept file.1))

/-! ## Reading them -/

/-- What is in front of the last line end. A carriage return at the very end is held back by the
decoder of line ends. -/
def wholeLines (text : Text) : Text :=
  let seen := if text.getLast? = some (CodePoint.ofChar '\r') then text.dropLast else text
  (seen.reverse.dropWhile fun c => !isBreak c).reverse

/-- The records in a file. The end of one that ends inside a character cannot be decoded, so only what
is in front of it comes out line by line. -/
def tornRecords (file : Text × Bool) : List Json.Value := if file.2 then records (wholeLines file.1) else records file.1

def truncated : Exn := ⟨.other "UnicodeDecodeError", "'utf-8' codec can't decode bytes: unexpected end of data"⟩

def readFiles (since : Option Clock) : List TornFile → Except Exn Unit × List Json.Value
  | [] => (.ok (), [])
  | file :: files =>
    match yieldFrom since (tornRecords file.2) with
    | (.error exn, yielded) => (.error exn, yielded)
    | (.ok (), yielded) =>
      if file.2.2 then (.error truncated, yielded)
      else
        let (result, more) := readFiles since files
        (result, yielded ++ more)

/-- `iter_rejected` of files that a crash has left. -/
def iterTorn (since : Option Clock) (files : List TornFile) : Except Exn Unit × List Json.Value :=
  readFiles since ((files.filter fun file => isRejectedFile file.1).mergeSort fun a b => a.1 ≤ b.1)

theorem yieldFrom_append (since : Option Clock) (a b : List Json.Value) :
    yieldFrom since (a ++ b) =
      match yieldFrom since a with
      | (.error exn, yielded) => (.error exn, yielded)
      | (.ok (), yielded) => ((yieldFrom since b).1, yielded ++ (yieldFrom since b).2) := by
  induction a with
  | nil => rfl
  | cons record a ih =>
    rw [List.cons_append, yieldFrom, yieldFrom]
    cases isSince since record with
    | error exn => rfl
    | ok recent =>
      dsimp only
      rw [ih]
      rcases yieldFrom since a with ⟨exn | ⟨⟩, yielded⟩
      · rfl
      · cases recent <;> rfl

/-- Files that are whole are read as they were. -/
theorem readFiles_whole (since : Option Clock) (files : List (FilePath × Text)) :
    readFiles since (files.map fun file => (file.1, file.2, false)) = yieldFrom since (files.flatMap fun file => records file.2) := by
  induction files with
  | nil => rfl
  | cons file files ih =>
    rw [List.map_cons, readFiles, List.flatMap_cons, yieldFrom_append, ih]
    have hrecords : tornRecords (file.2, false) = records file.2 := rfl
    dsimp only
    rw [hrecords]
    rcases yieldFrom since (records file.2) with ⟨exn | ⟨⟩, yielded⟩ <;> rfl

theorem iterTorn_whole (since : Option Clock) (files : List (FilePath × Text)) :
    iterTorn since (files.map fun file => (file.1, file.2, false)) = iterRejected since files := by
  have hfilter : (files.map fun file => ((file.1, file.2, false) : TornFile)).filter (fun file => isRejectedFile file.1) =
      (files.filter fun file => isRejectedFile file.1).map fun file => (file.1, file.2, false) := List.filter_map
  have hsort := List.map_mergeSort (f := fun file : FilePath × Text => ((file.1, file.2, false) : TornFile))
    (r := fun a b => a.1 ≤ b.1) (s := fun a b => a.1 ≤ b.1) (l := files.filter fun file => isRejectedFile file.1)
    fun _ _ _ _ => rfl
  unfold iterTorn iterRejected
  dsimp only
  rw [hfilter, ← hsort, readFiles_whole]

/-! ## Rows cut short -/

/-- The rows that have come to the disk as far as their closing brace, of a file of which the first `n`
bytes are there. -/
def survivors (w : DlqWriter P) : Nat → List (RejectedRecord P Clock) → List (RejectedRecord P Clock)
  | _, [] => []
  | n, r :: rows =>
    if Text.utf8Length (Json.dumps (r.toRow w)) ≤ n then r :: survivors w (n - Text.utf8Length (r.text w)) rows else []

theorem utf8Length_text (r : RejectedRecord P Clock) :
    Text.utf8Length (r.text w) = Text.utf8Length (Json.dumps (r.toRow w)) + 1 := by
  rw [RejectedRecord.text, Text.utf8Length_append]
  rfl

/-- A row begins with a brace, and no character of it is a line end. -/
theorem dumps_row (w : DlqWriter P) (r : RejectedRecord P Clock) :
    (∃ rest, Json.dumps (r.toRow w) = CodePoint.ofChar '{' :: rest) ∧ ∀ c ∈ Json.dumps (r.toRow w), isBreak c = false := by
  refine ⟨⟨_, rfl⟩, fun c hc => ?_⟩
  have hwritten := (Json.written_dumps hc).1
  by_contra hbreak
  rw [Bool.not_eq_false, isBreak, Bool.or_eq_true, decide_eq_true_eq, decide_eq_true_eq] at hbreak
  rcases hbreak with rfl | rfl <;> exact absurd hwritten (by decide)

theorem records_line {r : RejectedRecord P Clock} (h : r.Storable) : records (Json.dumps (r.toRow w)) = [r.toValue w] := by
  have hbreak := (dumps_row w r).2
  have hline : records (r.text w ++ []) = records (Json.dumps (r.toRow w)) := by
    unfold records RejectedRecord.text
    rw [List.append_assoc, List.singleton_append, List.splitOnP_append_cons_of_forall_mem hbreak _ rfl,
      List.splitOnP_eq_singleton hbreak, ← List.singleton_append, List.filterMap_append]
    exact List.append_nil _
  rw [← hline, records_text h]
  rfl

/-- Without its end a row is no record. -/
theorem records_cut {r : RejectedRecord P Clock} (h : r.Storable) {k : Nat} (hk : k < (Json.dumps (r.toRow w)).length) :
    records ((Json.dumps (r.toRow w)).take k) = [] := by
  obtain ⟨⟨rest, hrest⟩, hbreak⟩ := dumps_row w r
  have hsplit : ((Json.dumps (r.toRow w)).take k).splitOnP isBreak = [(Json.dumps (r.toRow w)).take k] :=
    List.splitOnP_eq_singleton fun c hc => hbreak c (List.mem_of_mem_take hc)
  -- no blank is in front, so what is stripped off comes from the end
  have hhead : ∀ c ∈ ((Json.dumps (r.toRow w)).take k).head?, Text.isSpace c = false := by
    rw [hrest]
    intro c hc
    cases k with
    | zero => cases hc
    | succ k =>
      obtain rfl : CodePoint.ofChar '{' = c := Option.some.inj hc
      decide
  have hprefix : Text.strip ((Json.dumps (r.toRow w)).take k) <+: Json.dumps (r.toRow w) := by
    rw [Text.strip, Text.dropWhile_eq_self hhead, ← List.reverse_suffix, List.reverse_reverse]
    exact (List.dropWhile_suffix _).trans (List.reverse_suffix.2 (List.take_prefix _ _))
  have hlength : (Text.strip ((Json.dumps (r.toRow w)).take k)).length ≤ k := by
    rw [Text.strip, Text.dropWhile_eq_self hhead, List.length_reverse]
    refine (List.dropWhile_suffix _).length_le.trans ?_
    rw [List.length_reverse]
    exact List.length_take_le _ _
  have hcut : Json.loads (Text.strip ((Json.dumps (r.toRow w)).take k)) = none := by
    rw [List.prefix_iff_eq_take.1 hprefix]
    exact Json.loads_dumps_cut (List.cons_ne_nil _ _) (RejectedRecord.toRow_readable w h) (RejectedRecord.toRow_keys w r)
      (Nat.lt_of_le_of_lt hlength hk)
  rw [records, hsplit, List.filterMap_cons, hcut, ite_self]
  rfl

/-! ## Whole lines -/

theorem wholeLines_append {c : CodePoint} (hc : c = CodePoint.ofChar '\n') (a rest : Text) :
    wholeLines (a ++ c :: rest) = a ++ c :: wholeLines rest := by
  subst hc
  have hdrop : ∀ seen : Text, ((a ++ CodePoint.ofChar '\n' :: seen).reverse.dropWhile fun c => !isBreak c).reverse =
      a ++ CodePoint.ofChar '\n' :: (seen.reverse.dropWhile fun c => !isBreak c).reverse := by
    intro seen
    have hreverse : (a ++ CodePoint.ofChar '\n' :: seen).reverse = seen.reverse ++ CodePoint.ofChar '\n' :: a.reverse := by simp
    have hstop : (CodePoint.ofChar '\n' :: a.reverse).dropWhile (fun c => !isBreak c) = CodePoint.ofChar '\n' :: a.reverse := rfl
    rw [hreverse, List.dropWhile_append]
    split
    · next hempty =>
      rw [hstop, List.isEmpty_iff.1 hempty]
      simp
    · simp
  cases rest with
  | nil =>
    have hlast : (a ++ [CodePoint.ofChar '\n']).getLast? ≠ some (CodePoint.ofChar '\r') := by
      rw [List.getLast?_concat]
      decide
    unfold wholeLines
    dsimp only
    rw [if_neg hlast, hdrop]
    rfl
  | cons d rest =>
    have hlast : (a ++ CodePoint.ofChar '\n' :: d :: rest).getLast? = (d :: rest).getLast? := by
      simp [List.getLast?_cons]
    have hinit : (a ++ CodePoint.ofChar '\n' :: d :: rest).dropLast = a ++ CodePoint.ofChar '\n' :: (d :: rest).dropLast := by
      rw [List.dropLast_append_of_ne_nil (List.cons_ne_nil _ _), List.dropLast_cons_of_ne_nil (List.cons_ne_nil _ _)]
    unfold wholeLines
    dsimp only
    rw [hlast, hinit]
    split
    · exact hdrop _
    · exact hdrop _

theorem wholeLines_nil {text : Text} (h : ∀ c ∈ text, isBreak c = false) : wholeLines text = [] := by
  have hall : ∀ seen : Text, (∀ c ∈ seen, c ∈ text) → (seen.reverse.dropWhile fun c => !isBreak c) = [] := by
    intro seen hseen
    rw [List.dropWhile_eq_nil_iff]
    intro c hc
    rw [h c (hseen c (List.mem_reverse.1 hc))]
    rfl
  unfold wholeLines
  dsimp only
  split
  · rw [hall _ fun c hc => List.dropLast_subset _ hc, List.reverse_nil]
  · rw [hall _ fun c hc => hc, List.reverse_nil]

/-! ## What is read of them -/

theorem survivors_zero (w : DlqWriter P) (rows : List (RejectedRecord P Clock)) : survivors w 0 rows = [] := by
  cases rows with
  | nil => rfl
  | cons r rows =>
    obtain ⟨rest, hrest⟩ := (dumps_row w r).1
    refine if_neg ?_
    rw [hrest, Text.utf8Length_cons]
    have hpos := Text.utf8Size_pos (CodePoint.ofChar '{')
    omega

/-- Of a file cut anywhere the rows that are there up to the closing brace are read, and no others. -/
theorem tornRecords_rows {rows : List (RejectedRecord P Clock)} (h : ∀ r ∈ rows, r.Storable) (n : Nat) :
    tornRecords ((fileText w rows).tear n) = (survivors w n rows).map (RejectedRecord.toValue w) := by
  induction rows generalizing n with
  | nil => rfl
  | cons r rows ih =>
    obtain ⟨hr, hrows⟩ := List.forall_mem_cons.1 h
    have htext : fileText w (r :: rows) = Json.dumps (r.toRow w) ++ CodePoint.ofChar '\n' :: fileText w rows := by
      rw [fileText, List.flatMap_cons, RejectedRecord.text, List.append_assoc]
      rfl
    rw [htext]
    by_cases hfits : Text.utf8Length (Json.dumps (r.toRow w)) ≤ n
    · rw [Text.tear_append hfits, survivors, if_pos hfits, utf8Length_text, Nat.sub_add_eq]
      rcases hleft : n - Text.utf8Length (Json.dumps (r.toRow w)) with _ | m
      · -- the line end is missing
        rw [survivors_zero]
        have htear : Text.tear 0 (CodePoint.ofChar '\n' :: fileText w rows) = ([], false) := rfl
        rw [htear, List.append_nil, tornRecords, if_neg Bool.false_ne_true, records_line hr, List.map_singleton]
      · have htear : Text.tear (m + 1) (CodePoint.ofChar '\n' :: fileText w rows) =
            (CodePoint.ofChar '\n' :: ((fileText w rows).tear m).1, ((fileText w rows).tear m).2) := rfl
        have hfirst : ∀ rest, records (Json.dumps (r.toRow w) ++ CodePoint.ofChar '\n' :: rest) = r.toValue w :: records rest := by
          intro rest
          have hrecords := records_text (w := w) hr rest
          rw [RejectedRecord.text, List.append_assoc] at hrecords
          exact hrecords
        rw [htear, Nat.add_sub_cancel, List.map_cons, ← ih hrows m]
        unfold tornRecords
        dsimp only
        cases ((fileText w rows).tear m).2 with
        | false => rw [if_neg Bool.false_ne_true, if_neg Bool.false_ne_true, hfirst]
        | true => rw [if_pos rfl, if_pos rfl, wholeLines_append rfl, hfirst]
    · obtain ⟨k, hk, hcut⟩ := Text.tear_lt (Nat.not_le.1 hfits) (CodePoint.ofChar '\n' :: fileText w rows)
      have hbreak : ∀ c ∈ (Json.dumps (r.toRow w)).take k, isBreak c = false := fun c hc =>
        (dumps_row w r).2 c (List.mem_of_mem_take hc)
      rw [survivors, if_neg hfits, tornRecords, hcut]
      split
      · rw [wholeLines_nil hbreak]
        rfl
      · exact records_cut hr hk

/-- The groups up to the first that is broken. -/
def upTo {α : Type} (broken : α → Bool) : List α → List α
  | [] => []
  | x :: xs => if broken x then [x] else x :: upTo broken xs

/-- The file of the group ends inside a character. -/
def isTorn (w : DlqWriter P) (kept : FilePath → Nat) (group : FilePath × List (RejectedRecord P Clock)) : Bool :=
  ((fileText w group.2).tear (kept group.1)).2

/-- The rows that a reader gets to, in the order in which it does. -/
def recovered (w : DlqWriter P) (kept : FilePath → Nat) (groups : List (FilePath × List (RejectedRecord P Clock))) :
    List (RejectedRecord P Clock) :=
  (upTo (isTorn w kept) (inOrder groups)).flatMap fun group => survivors w (kept group.1) group.2

theorem readFiles_crash (since : Option Clock) (kept : FilePath → Nat)
    {groups : List (FilePath × List (RejectedRecord P Clock))} (hrows : ∀ group ∈ groups, ∀ r ∈ group.2, r.Storable) :
    readFiles since (crash kept (filesOf w groups)) =
      (if groups.any (isTorn w kept) then .error truncated else .ok (),
        (((upTo (isTorn w kept) groups).flatMap fun group => survivors w (kept group.1) group.2).filter (isRecent since)).map
          (RejectedRecord.toValue w)) := by
  induction groups with
  | nil => rfl
  | cons group groups ih =>
    obtain ⟨hgroup, hrows⟩ := List.forall_mem_cons.1 hrows
    have hcrash : crash kept (filesOf w (group :: groups)) =
        (group.1, (fileText w group.2).tear (kept group.1)) :: crash kept (filesOf w groups) := rfl
    rw [hcrash, readFiles, tornRecords_rows hgroup, yieldFrom_rows, ih hrows, List.any_cons, upTo]
    dsimp only
    cases htorn : isTorn w kept group with
    | true =>
      have hflag : ((fileText w group.2).tear (kept group.1)).2 = true := htorn
      rw [if_pos hflag, if_pos rfl, List.flatMap_singleton]
      rfl
    | false =>
      have hflag : ((fileText w group.2).tear (kept group.1)).2 = false := htorn
      rw [hflag, if_neg Bool.false_ne_true, if_neg Bool.false_ne_true, List.flatMap_cons, List.filter_append, List.map_append,
        Bool.false_or]

theorem iterTorn_crash (since : Option Clock) (kept : FilePath → Nat)
    {groups : List (FilePath × List (RejectedRecord P Clock))} (hnames : ∀ group ∈ groups, isRejectedFile group.1 = true)
    (hrows : ∀ group ∈ groups, ∀ r ∈ group.2, r.Storable) :
    iterTorn since (crash kept (filesOf w groups)) =
      (if groups.any (isTorn w kept) then .error truncated else .ok (),
        ((recovered w kept groups).filter (isRecent since)).map (RejectedRecord.toValue w)) := by
  have hperm : (inOrder groups).Perm groups := List.mergeSort_perm _ _
  have hfound : (crash kept (filesOf w groups)).filter (fun file => isRejectedFile file.1) = crash kept (filesOf w groups) := by
    refine List.filter_eq_self.2 fun file hfile => ?_
    rw [crash, filesOf, List.map_map] at hfile
    obtain ⟨group, hgroup, rfl⟩ := List.mem_map.1 hfile
    exact hnames group hgroup
  have hsorted : (crash kept (filesOf w groups)).mergeSort (fun a b => a.1 ≤ b.1) = crash kept (filesOf w (inOrder groups)) := by
    have hmap := List.map_mergeSort
      (f := fun group : FilePath × List (RejectedRecord P Clock) => (group.1, (fileText w group.2).tear (kept group.1)))
      (r := fun a b => a.1 ≤ b.1) (s := fun a b => a.1 ≤ b.1) (l := groups) fun _ _ _ _ => rfl
    rw [crash, crash, filesOf, filesOf, List.map_map, List.map_map]
    exact hmap.symm
  rw [iterTorn, hfound, hsorted, readFiles_crash since kept fun group hgroup => hrows group (hperm.mem_iff.1 hgroup), hperm.any_eq]
  rfl

/-- The rows that survive are the first ones: as many as have come to the disk, the last of them maybe
without its line end. -/
theorem survivors_spec (w : DlqWriter P) (n : Nat) (rows : List (RejectedRecord P Clock)) :
    ∃ k ≤ rows.length, survivors w n rows = rows.take k ∧ Text.utf8Length (fileText w (rows.take k)) ≤ n + 1 ∧
      (k < rows.length → n + 1 < Text.utf8Length (fileText w (rows.take (k + 1)))) := by
  induction rows generalizing n with
  | nil => exact ⟨0, Nat.le_refl 0, rfl, Nat.zero_le _, fun h => absurd h (Nat.lt_irrefl 0)⟩
  | cons r rows ih =>
    have hbytes : ∀ k, Text.utf8Length (fileText w ((r :: rows).take (k + 1))) =
        Text.utf8Length (Json.dumps (r.toRow w)) + 1 + Text.utf8Length (fileText w (rows.take k)) := by
      intro k
      rw [List.take_succ_cons, fileText, List.flatMap_cons, Text.utf8Length_append, utf8Length_text]
      rfl
    rw [survivors]
    split
    · next hfits =>
      obtain ⟨k, hk, heq, hwithin, hbeyond⟩ := ih (n - Text.utf8Length (r.text w))
      rw [utf8Length_text] at heq hwithin hbeyond
      rcases Nat.lt_or_ge n (Text.utf8Length (Json.dumps (r.toRow w)) + 1) with hlast | hmore
      · -- the last row there is
        have hzero : n - (Text.utf8Length (Json.dumps (r.toRow w)) + 1) = 0 := by omega
        refine ⟨1, Nat.le_add_left 1 _, ?_, ?_, fun hlt => ?_⟩
        · rw [utf8Length_text, hzero, survivors_zero]
          rfl
        · rw [hbytes 0]
          have hnil : Text.utf8Length (fileText w (rows.take 0)) = 0 := rfl
          omega
        · obtain ⟨next, more, rfl⟩ := List.exists_cons_of_ne_nil (List.length_pos_iff.1 (Nat.lt_of_succ_lt_succ hlt))
          have hnext : Text.utf8Length (fileText w ((next :: more).take 1)) = Text.utf8Length (next.text w) := by
            rw [List.take_succ_cons, List.take_zero, fileText, List.flatMap_singleton]
          rw [hbytes 1, hnext, utf8Length_text next]
          omega
      · refine ⟨k + 1, Nat.succ_le_succ hk, ?_, ?_, fun hlt => ?_⟩
        · rw [utf8Length_text, heq, List.take_succ_cons]
        · rw [hbytes]
          omega
        · have hbeyond := hbeyond (Nat.lt_of_succ_lt_succ hlt)
          rw [hbytes]
          omega
    · next hfits =>
      refine ⟨0, Nat.zero_le _, rfl, Nat.zero_le _, fun _ => ?_⟩
      rw [hbytes]
      omega

/-! ## Replay -/

/-- What Python makes of values that no row has: whether the number in a text is zero, and `str`. -/
structure PyValues where
  isZero : Text → Bool
  str : Json.Value → Text

/-- `record.get(key)` -/
def getKey (key : String) : Json.Value → Except Exn (Option Json.Value)
  | .obj members => .ok (members.lookup (Text.ofString key))
  | _ => .error ⟨.attributeError, "object has no attribute 'get'"⟩

/-- `record.get("reason") in wanted` -/
def isWanted (wanted : List RejectReason) : Option Json.Value → Except Exn Bool
  | some (.str reason) => .ok (wanted.any fun r => Text.ofString r.toStr = reason)
  | some (.arr _) => .error ⟨.typeError, "unhashable type: 'list'"⟩
  | some (.obj _) => .error ⟨.typeError, "unhashable type: 'dict'"⟩
  | _ => .ok false

/-- `bool(value)` -/
def isTrue (py : PyValues) : Json.Value → Bool
  | .null => false
  | .bool b => b
  | .int z => z ≠ 0
  | .float text => !py.isZero text
  | .str text => text ≠ []
  | .arr items => !items.isEmpty
  | .obj members => !members.isEmpty

/-- The reasons that are replayed if none are asked for. -/
def transient : List RejectReason := [.storageError, .transformError, .unknown]

/-- `reasons or transient` -/
def wantedReasons : Option (List RejectReason) → List RejectReason
  | some (reason :: reasons) => reason :: reasons
  | _ => transient

/-- What one record is replayed as, if it is. -/
def replayed (py : PyValues) (wanted : List RejectReason) (record : Json.Value) :
    Except Exn (Option (Json.Value × Json.Value)) := do
  if ← isWanted wanted (← getKey "reason" record) then
    match ← getKey "raw" record with
    | some raw => .ok (if isTrue py raw then some (raw, record) else none)
    | none => .ok none
  else .ok none

def replayFrom (py : PyValues) (wanted : List RejectReason) : List Json.Value → Except Exn Unit × List (Json.Value × Json.Value)
  | [] => (.ok (), [])
  | record :: records =>
    match replayed py wanted record with
    | .error exn => (.error exn, [])
    | .ok found =>
      let (result, more) := replayFrom py wanted records
      (result, found.toList ++ more)

/-- `replay_rejected`: what is yielded, up to an exception. -/
def replayRejected (py : PyValues) (reasons : Option (List RejectReason)) (files : List TornFile) :
    Except Exn Unit × List (Json.Value × Json.Value) :=
  let (result, records) := iterTorn none files
  match replayFrom py (wantedReasons reasons) records with
  | (.error exn, yielded) => (.error exn, yielded)
  | (.ok (), yielded) => (result, yielded)

/-- `str(record.get("reason", "unknown"))` -/
def reasonText (py : PyValues) (record : Json.Value) : Except Exn Text := do
  match ← getKey "reason" record with
  | none => .ok (Text.ofString "unknown")
  | some (.str reason) => .ok reason
  | some value => .ok (py.str value)

/-- `rejection_stats` -/
def rejectionStats (py : PyValues) (files : List TornFile) : Except Exn (List (Text × Nat)) := do
  let (result, records) := iterTorn none files
  let counter ← records.foldlM (fun counter record => do .ok (increment (← reasonText py record) counter)) []
  result
  .ok (counter.mergeSort fun a b => a.1 ≤ b.1)

theorem getKey_row (w : DlqWriter P) (r : RejectedRecord P Clock) :
    getKey "reason" (r.toValue w) = .ok (some (.str (Text.ofString r.reason.toStr))) ∧
      getKey "raw" (r.toValue w) = .ok (some (.str r.raw)) := by
  have hkeys : (((r.toRow w).map fun member => (member.1, member.2.toValue)).map Prod.fst).Nodup := by
    rw [List.map_map]
    exact RejectedRecord.toRow_keys w r
  have hmember : ∀ {key : String} {value : Json.Scalar}, (Text.ofString key, value) ∈ r.toRow w →
      getKey key (r.toValue w) = .ok (some value.toValue) := fun {key value} h =>
    congrArg Except.ok (lookup_of_nodup hkeys (List.mem_map.2 ⟨(Text.ofString key, value), h, rfl⟩))
  refine ⟨@hmember "reason" (.str _) ?_, @hmember "raw" (.str _) ?_⟩ <;> simp [RejectedRecord.toRow]

/-- Every reason has its text. -/
theorem toStr_injective : Function.Injective RejectReason.toStr := by
  have hread : ∀ reason, ([.unparseable, .emptyLine, .lineTooLong, .encodingError, .missingTimestamp, .invalidTimestamp,
      .timestampOutOfRange, .missingMessage, .messageTooLong, .invalidIp, .invalidStatusCode, .invalidLevel,
      .invalidResponseTime, .schemaViolation, .duplicate, .transformError, .storageError, .unknown] : List RejectReason).find?
        (·.toStr = reason.toStr) = some reason := by
    intro reason
    cases reason <;> decide
  intro a b h
  have ha := hread a
  rw [h, hread b] at ha
  exact (Option.some.inj ha).symm

/-- The row is one that is replayed. -/
def isReplayed (wanted : List RejectReason) (r : RejectedRecord P Clock) : Bool := r.reason ∈ wanted && r.raw ≠ []

theorem replayed_row (py : PyValues) (wanted : List RejectReason) (r : RejectedRecord P Clock) :
    replayed py wanted (r.toValue w) = .ok (if isReplayed wanted r then some (.str r.raw, r.toValue w) else none) := by
  obtain ⟨hreason, hraw⟩ := getKey_row w r
  have hwanted : (wanted.any fun reason => Text.ofString reason.toStr = Text.ofString r.reason.toStr) = decide (r.reason ∈ wanted) := by
    rw [List.any_eq, decide_eq_decide]
    simp only [decide_eq_true_eq]
    exact ⟨fun ⟨reason, hmem, heq⟩ => toStr_injective (Text.ofString_injective heq) ▸ hmem, fun h => ⟨r.reason, h, rfl⟩⟩
  have hisWanted : isWanted wanted (some (.str (Text.ofString r.reason.toStr))) = .ok (decide (r.reason ∈ wanted)) :=
    congrArg Except.ok hwanted
  rw [replayed, hreason, ok_bind, hisWanted, ok_bind, isReplayed]
  by_cases hmem : r.reason ∈ wanted
  · rw [decide_eq_true hmem, if_pos rfl, hraw, ok_bind, Bool.true_and]
    rfl
  · rw [decide_eq_false hmem, if_neg Bool.false_ne_true, Bool.false_and, if_neg Bool.false_ne_true]

theorem replayFrom_rows (py : PyValues) (wanted : List RejectReason) (rows : List (RejectedRecord P Clock)) :
    replayFrom py wanted (rows.map (RejectedRecord.toValue w)) =
      (.ok (), (rows.filter (isReplayed wanted)).map fun r => (.str r.raw, r.toValue w)) := by
  induction rows with
  | nil => rfl
  | cons r rows ih =>
    rw [List.map_cons, replayFrom, replayed_row, ih]
    dsimp only
    by_cases hr : isReplayed wanted r = true
    · rw [if_pos hr, List.filter_cons_of_pos hr]
      rfl
    · rw [if_neg hr, List.filter_cons_of_neg hr]
      rfl

theorem tally_rows (py : PyValues) (rows : List (RejectedRecord P Clock)) (counter : List (Text × Nat)) :
    (rows.map (RejectedRecord.toValue w)).foldlM
        (fun counter record => do .ok (increment (← reasonText py record) counter)) counter =
      (.ok ((rows.map fun r => Text.ofString r.reason.toStr).foldl (fun counter reason => increment reason counter) counter) :
        Except Exn _) := by
  induction rows generalizing counter with
  | nil => rfl
  | cons r rows ih =>
    have hreason : reasonText py (r.toValue w) = .ok (Text.ofString r.reason.toStr) := by
      rw [reasonText, (getKey_row w r).1]
      rfl
    rw [List.map_cons, List.foldlM_cons, hreason]
    exact ih _

end DlqStore

/-! ## Crashes of a running queue -/

namespace SharedQueue

variable {c : DlqConfig P} {inputs : List (QueueInput P)} {t : SharedQueue P} {returned : List (RejectedRecord P Clock)}

theorem consistent_empty (c : DlqConfig P) (w : DlqWriter P) : Consistent c w {} [] :=
  ⟨fun _ hitem => absurd hitem List.not_mem_nil, fun _ hr => absurd hr List.not_mem_nil, {}, DlqStore.simulates_empty w,
    fun _ => rfl, rfl, List.take_nil.symm, (Nat.zero_min _).symm, rfl⟩

/-- The files after any run. -/
theorem run_files (henabled : c.enabled = true) (h : runs (step c w) {} inputs = some (t, returned)) :
    (∀ r ∈ returned.take c.maxRecords, r.Storable) ∧
      t.store.files = DlqStore.filesOf w (DlqStore.byFile w (returned.take c.maxRecords)) := by
  obtain ⟨-, hreturned, q, hsimulates, hexact⟩ :=
    runs_inv (Consistent c w) (fun s x s' o tr hI hs => step_consistent henabled hI hs) (consistent_empty c w) h
  exact ⟨fun r hr => hreturned r (List.mem_of_mem_take hr), by rw [hsimulates.files, hexact.rows]⟩

/-- What is read after a crash. -/
theorem iterTorn_run (henabled : c.enabled = true) (h : runs (step c w) {} inputs = some (t, returned)) (kept : FilePath → Nat) :
    DlqStore.iterTorn none (DlqStore.crash kept t.store.files) =
      (if (DlqStore.byFile w (returned.take c.maxRecords)).any (DlqStore.isTorn w kept) then .error DlqStore.truncated else .ok (),
        (DlqStore.recovered w kept (DlqStore.byFile w (returned.take c.maxRecords))).map (RejectedRecord.toValue w)) := by
  obtain ⟨hstorable, hfiles⟩ := run_files henabled h
  have hall : ∀ r : RejectedRecord P Clock, DlqStore.isRecent none r = true := fun _ => rfl
  rw [hfiles, DlqStore.iterTorn_crash none kept (DlqStore.byFile_names w _) (DlqStore.byFile_storable hstorable),
    List.filter_eq_self.2 fun r _ => hall r]

/-- Killed at any moment of any run, with any part of each file on the disk: what is read afterwards are
the rows that have come there, file by file, up to a file that ends inside a character. -/
theorem crash_read (henabled : c.enabled = true) (h : runs (step c w) {} inputs = some (t, returned)) (kept : FilePath → Nat) :
    DlqStore.iterTorn none (DlqStore.crash kept t.store.files) =
        (if (DlqStore.byFile w (returned.take c.maxRecords)).any (DlqStore.isTorn w kept) then .error DlqStore.truncated else .ok (),
          (DlqStore.recovered w kept (DlqStore.byFile w (returned.take c.maxRecords))).map (RejectedRecord.toValue w)) ∧
      ∀ group ∈ DlqStore.byFile w (returned.take c.maxRecords), ∃ k ≤ group.2.length,
        DlqStore.survivors w (kept group.1) group.2 = group.2.take k ∧
        Text.utf8Length (DlqStore.fileText w (group.2.take k)) ≤ kept group.1 + 1 ∧
        (k < group.2.length → kept group.1 + 1 < Text.utf8Length (DlqStore.fileText w (group.2.take (k + 1)))) :=
  ⟨iterTorn_run henabled h kept, fun group _ => DlqStore.survivors_spec w (kept group.1) group.2⟩

/-- Of the rows that are read those with a wanted reason and a text are replayed, and each is counted
under its reason. A file that ends inside a character ends the replay, and there are no counts. -/
theorem crash_replay (henabled : c.enabled = true) (h : runs (step c w) {} inputs = some (t, returned)) (kept : FilePath → Nat)
    (py : DlqStore.PyValues) (reasons : Option (List RejectReason)) :
    DlqStore.replayRejected py reasons (DlqStore.crash kept t.store.files) =
        (if (DlqStore.byFile w (returned.take c.maxRecords)).any (DlqStore.isTorn w kept) then .error DlqStore.truncated else .ok (),
          ((DlqStore.recovered w kept (DlqStore.byFile w (returned.take c.maxRecords))).filter
            (DlqStore.isReplayed (DlqStore.wantedReasons reasons))).map fun r => (.str r.raw, r.toValue w)) ∧
      DlqStore.rejectionStats py (DlqStore.crash kept t.store.files) =
        if (DlqStore.byFile w (returned.take c.maxRecords)).any (DlqStore.isTorn w kept) then .error DlqStore.truncated
        else .ok (countBy ((DlqStore.recovered w kept (DlqStore.byFile w (returned.take c.maxRecords))).map fun r =>
          Text.ofString r.reason.toStr)) := by
  refine ⟨?_, ?_⟩
  · rw [DlqStore.replayRejected, iterTorn_run henabled h kept]
    dsimp only
    rw [DlqStore.replayFrom_rows]
  · rw [DlqStore.rejectionStats, iterTorn_run henabled h kept]
    dsimp only
    rw [DlqStore.tally_rows, ok_bind, foldl_increment, ← sort_tally]
    split <;> rfl

/-! ## A crash inside the first row -/

set_option maxRecDepth 4000 in
theorem crash_read_overtaking : ∃ t returned, runs (step oneRecord plainWriter) {} overtaking = some (t, returned) ∧
    DlqStore.iterTorn none (DlqStore.crash (fun _ => 30) t.store.files) =
      (if (DlqStore.byFile plainWriter (returned.take 1)).any (DlqStore.isTorn plainWriter fun _ => 30) then .error DlqStore.truncated
        else .ok (), (DlqStore.recovered plainWriter (fun _ => 30) (DlqStore.byFile plainWriter (returned.take 1))).map
          (RejectedRecord.toValue plainWriter)) := by
  have henabled : oneRecord.enabled = true := rfl
  obtain ⟨t, returned, hrun⟩ : ∃ t returned, runs (step oneRecord plainWriter) {} overtaking = some (t, returned) :=
    ⟨_, _, rfl⟩
  exact ⟨t, returned, hrun, (crash_read henabled hrun fun _ => 30).1⟩

set_option maxRecDepth 4000 in
theorem crash_replay_overtaking : ∃ t returned, runs (step oneRecord plainWriter) {} overtaking = some (t, returned) ∧
    DlqStore.rejectionStats ⟨fun _ => false, fun _ => []⟩ (DlqStore.crash (fun _ => 30) t.store.files) =
      if (DlqStore.byFile plainWriter (returned.take 1)).any (DlqStore.isTorn plainWriter fun _ => 30) then .error DlqStore.truncated
      else .ok (countBy ((DlqStore.recovered plainWriter (fun _ => 30) (DlqStore.byFile plainWriter (returned.take 1))).map fun r =>
        Text.ofString r.reason.toStr)) := by
  have henabled : oneRecord.enabled = true := rfl
  obtain ⟨t, returned, hrun⟩ : ∃ t returned, runs (step oneRecord plainWriter) {} overtaking = some (t, returned) :=
    ⟨_, _, rfl⟩
  exact ⟨t, returned, hrun, (crash_replay henabled hrun (fun _ => 30) ⟨fun _ => false, fun _ => []⟩ none).2⟩

end SharedQueue

end LogAnalytics
