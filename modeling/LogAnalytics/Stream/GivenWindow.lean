import Mathlib.Data.List.DropRight
import LogAnalytics.Stream.Effects
/-!
# The window a processor is given

`window or LiveWindow()` takes the default where the window is false, and a window has a length: an
empty one is false. The processor then fills a window of its own.
-/
open LogAnalytics.Stream.StreamProcessor

namespace LogAnalytics.Stream

variable {R E K τ F σ : Type}

/-- `LiveWindow()` -/
def defaultWindow : LiveWindow E := { maxEvents := 10000 }

/-- `window or LiveWindow()` -/
def windowOr : Option (LiveWindow E) → LiveWindow E
  | some w => if w.events = [] then defaultWindow else w
  | none => defaultWindow

/-- The window the caller has passed, when the processor has come to be `p`: the processor's own
where it was taken, else as it was. -/
def passedWindow (w : LiveWindow E) (p : StreamProcessor E K σ) : LiveWindow E := if w.events = [] then w else p.window

/-- A call between construction and now. -/
inductive Call (R τ F : Type) where
  | handle (m : Message R) (env : HandleEnv τ)
  | flush (env : FlushEnv F)

section

variable [DecidableEq K] (st : Stages R E K τ) (b : StorageBackend E F σ)

/-- The events accepted in the course of the calls, and the processor after them; what a call
raises is its caller's. -/
def handleAll : StreamProcessor E K σ → List (Call R τ F) → List E × StreamProcessor E K σ
  | p, [] => ([], p)
  | p, .handle m env :: rest =>
    match handle st env.now env.dlqRaises p m with
    | (.ok (some e), p) => let (accepted, p) := handleAll p rest; (e :: accepted, p)
    | (_, p) => handleAll p rest
  | p, .flush env :: rest => handleAll (flush b env p).2 rest

variable {st b}

/-- The window has the last `maxEvents` of what came in. -/
theorem add_events {w : LiveWindow E} {came : List E} (h : w.events = came.rtake w.maxEvents) (e : E) :
    (w.add e).events = (came ++ [e]).rtake w.maxEvents := by
  have hevents : w.events ++ [e] = (came ++ [e]).drop (came.length - w.maxEvents) := by
    rw [h, List.rtake, List.drop_append_of_le_length (Nat.sub_le _ _)]
  have hlen : w.events.length = came.length - (came.length - w.maxEvents) := by rw [h, List.rtake, List.length_drop]
  rw [LiveWindow.add, hevents, List.drop_drop, List.rtake, List.length_append, List.length_singleton, hlen]
  exact congrArg (List.drop · _) (by omega)

omit [DecidableEq K] in
theorem window_flush {env : FlushEnv F} {p q : StreamProcessor E K σ} {r : Except Exn Nat} (h : FlushEffect b env p r q) :
    q.window = p.window := by
  cases h <;> rfl

/-- A message that is accepted, and no other, comes into the window. -/
theorem window_handle {now : τ} {m : Message R} {p q : StreamProcessor E K σ} {r : Except Exn (Option E)}
    (h : HandleEffect st now m p r q) :
    (∃ e, r = .ok (some e) ∧ q.window = p.window.add e) ∨ (∀ e, r ≠ .ok (some e)) ∧ q.window = p.window := by
  cases h with
  | rejected _ _ _ _ _ _ _ _ hnone hq => exact .inr ⟨hnone, by rw [hq]⟩
  | raised exn _ => exact .inr ⟨fun _ => nofun, rfl⟩
  | duplicate e _ _ => exact .inr ⟨fun _ => nofun, rfl⟩
  | accepted e _ _ => exact .inl ⟨e, rfl, rfl⟩

/-- A processor's window gets the accepted events, in order. -/
theorem handleAll_window (calls : List (Call R τ F)) : ∀ {p : StreamProcessor E K σ} {came : List E},
    p.window.events = came.rtake p.window.maxEvents →
      (handleAll st b p calls).2.window.maxEvents = p.window.maxEvents ∧
      (handleAll st b p calls).2.window.events = (came ++ (handleAll st b p calls).1).rtake p.window.maxEvents := by
  induction calls with
  | nil => exact fun h => ⟨rfl, h.trans (by rw [handleAll, List.append_nil])⟩
  | cons call rest ih =>
    intro p came h
    cases call with
    | flush env =>
      have hwindow := window_flush (flush_effect b env p)
      rw [handleAll, ← hwindow]
      exact ih (hwindow ▸ h)
    | handle m env =>
      have hcase := window_handle (handle_effect st env.now env.dlqRaises p m)
      generalize hresult : StreamProcessor.handle st env.now env.dlqRaises p m = result at hcase
      obtain ⟨r, q⟩ := result
      rcases hcase with ⟨e, rfl, hwindow⟩ | ⟨hnone, hwindow⟩
      · dsimp only at hwindow
        have hadd : q.window.events = (came ++ [e]).rtake q.window.maxEvents := by
          rw [hwindow]
          exact add_events h e
        have hrest := ih hadd
        have hmax : q.window.maxEvents = p.window.maxEvents := by rw [hwindow]; rfl
        rw [hmax, List.append_assoc] at hrest
        rw [handleAll, hresult]
        exact hrest
      · dsimp only at hwindow hnone
        have hrest : handleAll st b p (.handle m env :: rest) = handleAll st b q rest := by
          rw [handleAll, hresult]
          cases r with
          | error exn => rfl
          | ok event =>
            cases event with
            | none => rfl
            | some e => exact absurd rfl (hnone e)
        rw [hrest, ← hwindow]
        exact ih (hwindow ▸ h)

/-- The window passed to the constructor gets the accepted events, in order and within its bound,
exactly when it has an event already, or no room for one, or none is accepted. -/
theorem passedWindow_iff (monotonic : ℚ) (d : Deduplicator K) (store : σ) {w : LiveWindow E} (hw : w.events.length ≤ w.maxEvents)
    (calls : List (Call R τ F)) :
    let result := handleAll st b (new monotonic d (windowOr (some w)) store) calls
    ((passedWindow w result.2).maxEvents = w.maxEvents ∧
        (passedWindow w result.2).events = (w.events ++ result.1).rtake w.maxEvents) ↔
      w.events ≠ [] ∨ w.maxEvents = 0 ∨ result.1 = [] := by
  intro result
  by_cases hempty : w.events = []
  · rw [passedWindow, if_pos hempty, hempty, List.nil_append, and_iff_right rfl]
    have hfalse : ¬([] : List E) ≠ [] := fun h => h rfl
    rw [iff_false_intro hfalse, false_or, eq_comm, List.rtake, List.drop_eq_nil_iff, ← List.length_eq_zero_iff]
    omega
  · have hstart : (new monotonic d (windowOr (some w)) store).window = w := if_neg hempty
    have hwindow : w.events = w.events.rtake w.maxEvents := by
      rw [List.rtake, Nat.sub_eq_zero_of_le hw, List.drop_zero]
    obtain ⟨hmax, hevents⟩ := @handleAll_window _ _ _ _ _ _ _ st b calls
      (new monotonic d (windowOr (some w)) store) w.events (by rw [hstart]; exact hwindow)
    rw [hstart] at hmax hevents
    rw [passedWindow, if_neg hempty]
    exact iff_of_true ⟨hmax, hevents⟩ (.inl hempty)

end

/-- The constructor over the small instance, with a window of two. -/
def echoGiven (events : List String) : StreamProcessor String String (MemoryStore String) :=
  .new 0 echoProcessor.deduplicator (windowOr (some { maxEvents := 2, events := events })) {}

theorem passedWindow_iff_echo :
    ((passedWindow { maxEvents := 2, events := ["a"] }
          (handleAll echoStages (memoryBackend String) (echoGiven ["a"]) [.handle (.text "b") ⟨(), none⟩]).2).maxEvents = 2 ∧
        (passedWindow { maxEvents := 2, events := ["a"] }
          (handleAll echoStages (memoryBackend String) (echoGiven ["a"]) [.handle (.text "b") ⟨(), none⟩]).2).events =
          (["a"] ++ (handleAll echoStages (memoryBackend String) (echoGiven ["a"]) [.handle (.text "b") ⟨(), none⟩]).1).rtake 2) ↔
      ["a"] ≠ [] ∨ 2 = 0 ∨
        (handleAll echoStages (memoryBackend String) (echoGiven ["a"]) [.handle (.text "b") ⟨(), none⟩]).1 = [] :=
  @passedWindow_iff Unit String String Unit (Option Exn) (MemoryStore String) _ echoStages (memoryBackend String) 0
    echoProcessor.deduplicator {} { maxEvents := 2, events := ["a"] } (by decide) [.handle (.text "b") ⟨(), none⟩]

/-- An empty window is passed and a message accepted, and the window stays empty. -/
theorem empty_window_not_filled :
    (handleAll echoStages (memoryBackend String) (echoGiven []) [.handle (.text "b") ⟨(), none⟩]).1 = ["b"] ∧
      (passedWindow { maxEvents := 2, events := [] }
        (handleAll echoStages (memoryBackend String) (echoGiven []) [.handle (.text "b") ⟨(), none⟩]).2).events ≠
        ([] ++ (handleAll echoStages (memoryBackend String) (echoGiven []) [.handle (.text "b") ⟨(), none⟩]).1).rtake 2 := by
  decide

end LogAnalytics.Stream
