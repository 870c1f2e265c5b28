import LogAnalytics.Pipeline.Conservation
/-!
# Several targets

`LogPipeline.run_many` runs its targets one after the other, each with a copy of the options,
and merges their results. The copy is taken from `opts.__dict__`, which a dataclass with
`slots=True` does not have.
-/

namespace LogAnalytics

variable {R E K P F σ τ T W : Type}

/-- `PipelineOptions` with the fields that choose a run's parser, store and file names. -/
structure RunOptions extends PipelineOptions where
  parser : Option String := none
  service : Option Text := none
  environment : Option String := none
  keepRaw : Bool := true
  layer : String := "processed"
  runId : String

/-- `opts.__dict__` -/
def RunOptions.dict (_ : RunOptions) : Except Exn RunOptions :=
  .error ⟨.attributeError, "'PipelineOptions' object has no attribute '__dict__'"⟩

/-- A store that keeps what it is given and never fails. -/
def EventStore.collect (E F : Type) : EventStore E F (List E) where
  batchSize := 1
  writeBatch _ s batch := (.ok (), s ++ batch)
  finish s := s
  flush _ s := (.ok (), s)
  recordsWritten s := s.length
  touched _ := []
  filesWritten _ := []
  writeBatch_counts _ _ _ _ := List.length_append
  finish_counts _ := rfl
  flush_counts _ _ := rfl

/-- A pipeline over targets `T`; `W` is what is on disk between two runs. -/
structure Workspace (R E K P F σ τ T W : Type) where
  stages : RunOptions → T → Stages R E K P τ
  store : RunOptions → EventStore E F σ
  source : T → LogPipeline.Run R F τ
  /-- What a run starts from: its context, dead-letter queue, deduplicator and store. -/
  opens : RunOptions → T → W → PipelineState E K P σ τ
  leaves : PipelineState E K P σ τ → W
  threshold : ℚ
  /-- The events a reader of the store sees. -/
  visible : W → Multiset E

namespace LogPipeline

variable [DecidableEq K]

/-- `run` on one target. -/
def runTarget (p : Workspace R E K P F σ τ T W) (opts : RunOptions) (target : T) (w : W) :
    Except Exn PipelineResult × W :=
  let (r, s) := run (p.stages opts target) (p.store opts) opts.toPipelineOptions p.threshold (p.source target)
    (p.opens opts target w)
  (r, p.leaves s)

/-- The events of a target that pass every stage. -/
def accepted (p : Workspace R E K P F σ τ T W) (opts : RunOptions) (target : T) (w : W) : List E :=
  let s := p.opens opts target w
  (run (p.stages opts target) (EventStore.collect E F) opts.toPipelineOptions p.threshold (p.source target)
    { toParseState := s.toParseState, deduplicator := s.deduplicator, store := [] }).2.store

/-- The loop of `run_many`. -/
def runTargets (p : Workspace R E K P F σ τ T W) (opts : RunOptions) :
    PipelineResult → List T → W → Except Exn PipelineResult × W
  | combined, [], w => (.ok combined, w)
  | combined, target :: targets, w =>
    match opts.dict with
    | .error exn => (.error exn, w)
    | .ok copy =>
      match runTarget p { copy with runId := opts.runId } target w with
      | (.error exn, w) => (.error exn, w)
      | (.ok result, w) => runTargets p opts (combined.merge result) targets w

def runMany (p : Workspace R E K P F σ τ T W) (opts : RunOptions) (targets : List T) (w : W) :
    Except Exn PipelineResult × W :=
  runTargets p opts {} targets w

/-- The runs of the targets one after the other, with their results and accepted events. -/
inductive Runs (p : Workspace R E K P F σ τ T W) (opts : RunOptions) :
    List T → W → List PipelineResult → List E → W → Prop
  | nil (w : W) : Runs p opts [] w [] [] w
  | cons {target : T} {targets : List T} {w w' w'' : W} {result : PipelineResult} {results : List PipelineResult}
      {events : List E} (returns : runTarget p opts target w = (.ok result, w'))
      (rest : Runs p opts targets w' results events w'') :
      Runs p opts (target :: targets) w (result :: results) (accepted p opts target w ++ events) w''

/-- `run_many` completes, every accepted record can be read, and the counters are the sums of
those of the runs. -/
def RunManyComplete (p : Workspace R E K P F σ τ T W) (opts : RunOptions) (targets : List T) (w : W) : Prop :=
  ∃ result results events w', runMany p opts targets w = (.ok result, w') ∧ Runs p opts targets w results events w' ∧
    (∀ e ∈ events, e ∈ p.visible w') ∧ ∀ c, PipelineResult.IsCounter c → c result = (results.map c).sum

/-- The first target already ends `run_many`, before it is opened. -/
theorem runMany_cons (p : Workspace R E K P F σ τ T W) (opts : RunOptions) (target : T) (targets : List T) (w : W) :
    runMany p opts (target :: targets) w =
      (.error ⟨.attributeError, "'PipelineOptions' object has no attribute '__dict__'"⟩, w) := rfl

theorem not_runManyComplete_cons (p : Workspace R E K P F σ τ T W) (opts : RunOptions) (target : T)
    (targets : List T) (w : W) : ¬ RunManyComplete p opts (target :: targets) w := by
  rintro ⟨result, results, events, w', hreturn, -⟩
  rw [runMany_cons] at hreturn
  cases hreturn

/-- `run_many` does what it is for exactly when there is nothing to do. -/
theorem runMany_complete (p : Workspace R E K P F σ τ T W) (opts : RunOptions) (targets : List T) (w : W) :
    RunManyComplete p opts targets w ↔ targets = [] := by
  constructor
  · intro h
    cases targets with
    | nil => rfl
    | cons target targets => exact absurd h (not_runManyComplete_cons p opts target targets w)
  · rintro rfl
    refine ⟨{}, [], [], w, rfl, .nil w, by simp, ?_⟩
    intro c hc
    cases hc <;> rfl

/-- Lines read into a JSONL dataset; a target is a list of lines. -/
def lineWorkspace : Workspace Unit Text Text Unit TextFaults (TextWrite Unit Text) Unit (List String)
    (Lib.Files (DataPath Unit) (List Text)) where
  stages _ _ := lineStages
  store opts := TextStore.events { unicode := asciiUnicode, format := .jsonl, partition := fun _ => () } opts.runId (·.2)
  source := lineRun
  opens _ _ files := start {} {} (SeenKeys.empty 10 SeenKeys.one_le_ten) { store := { files := files } }
  leaves s := s.store.store.files
  threshold := 1 / 2
  visible files := files.total fun path rows => match path with
    | .final _ => (rows : Multiset Text)
    | .temp _ => 0

/-- One target of one good line already fails. -/
theorem runMany_one_target : ¬ RunManyComplete lineWorkspace { runId := "run" } [["a"]] ∅ :=
  not_runManyComplete_cons _ _ _ _ _

end LogPipeline

end LogAnalytics
