import EkaCI.Lib.Handler
import EkaCI.Scheduler.System

/-! The ingress worker and the recorder send to each other's bounded queues. Some of
these sends wait for room, others give the task up. -/

namespace EkaCI

open Lib

variable {DrvId : Type}

def ingressTaskBuffer : Nat := 50000

def recorderTaskBuffer : Nat := 1000

/-- A task of the ingress worker, or a rebuild that an operator asks for. -/
inductive IngressRequest (DrvId : Type) where
  | task (task : IngressTask DrvId)
  | rebuildFailed (drvId : DrvId)
  | rebuildAllFailed

/-- What the ingress worker asks from nix, the graph, the builders and the database. -/
inductive IngressCall (DrvId : Type) : Type → Type where
  | recover : IngressCall DrvId (List (Nat × IngressRequest DrvId))
  | persist (request : IngressRequest DrvId) : IngressCall DrvId Nat
  | acknowledge (id : Nat) : IngressCall DrvId Unit
  | isBuildable (drvId : DrvId) : IngressCall DrvId Bool
  | getNode (drvId : DrvId) : IngressCall DrvId (Option (CachedNode DrvId))
  | getBuildState (drvId : DrvId) : IngressCall DrvId (Option DrvBuildState)
  | updateState (drvId : DrvId) (state : DrvBuildState) : IngressCall DrvId Unit
  | dryRunRealise (drvId : DrvId) : IngressCall DrvId (DryRunReport DrvId)
  /-- The drvs that the traversal from a cached root comes to mark; it reads the graph
  as it goes. -/
  | cachedRequisites (drvId : DrvId) (report : DryRunReport DrvId) : IngressCall DrvId (List DrvId)
  /-- The failed drvs that a rebuild resets, dependencies first. -/
  | failedRequisites (drvId : DrvId) : IngressCall DrvId (List DrvId)
  | getAllFailedDrvs : IngressCall DrvId (List DrvId)
  | sweepCandidates : IngressCall DrvId (List DrvId)
  | sendBuild (drvId : DrvId) : IngressCall DrvId Unit
  | trySendBuild (drvId : DrvId) : IngressCall DrvId Unit

/-- A handler of the ingress worker; its tasks are for the recorder. -/
abbrev IngressHandler (DrvId A : Type) := Handler (IngressCall DrvId) Unit (RecorderTask DrvId) A

namespace IngressHandler

open Handler

def handleCheckBuildableTask (features : BuilderFeatureSnapshot) (drvId : DrvId) : IngressHandler DrvId Unit := do
  if ← ask (.isBuildable drvId) then
    match ← ask (.getNode drvId) with
    | none => .done (.error ())
    | some node =>
      if features.canBuild node.requiredSystemFeatures then
        if node.buildState ≠ .failedRetry then ask (.updateState drvId .buildable)
        let _ ← attempt (ask (.trySendBuild drvId))
      else tell ⟨drvId, .unsatisfiableRequirements⟩

def handleCheckSubstitutionTaskWithReport (drvId : DrvId) (report : DryRunReport DrvId) : IngressHandler DrvId Unit := do
  let cached ← ask (.cachedRequisites drvId report)
  cached.forM fun requisite => tell ⟨requisite, .completed .success⟩

def sweepBuildableDrvs (features : BuilderFeatureSnapshot) : IngressHandler DrvId Unit := do
  let candidates ← ask .sweepCandidates
  candidates.forM fun drvId => do
    let _ ← attempt (handleCheckBuildableTask features drvId)

variable [DecidableEq DrvId]

def handleCheckSubstitutionTask (drvId : DrvId) : IngressHandler DrvId Unit := do
  let report ← ask (.dryRunRealise drvId)
  if drvId ∉ report.willBuild then handleCheckSubstitutionTaskWithReport drvId report

def handleEvalTask (features : BuilderFeatureSnapshot) (drvId : DrvId) : IngressHandler DrvId Unit := do
  let state ← ask (.getBuildState drvId)
  if (state.map DrvBuildState.isTerminal).getD false then return
  match ← attempt (ask (.dryRunRealise drvId)) with
  | .error _ => handleCheckBuildableTask features drvId
  | .ok report =>
    if drvId ∉ report.willBuild then handleCheckSubstitutionTaskWithReport drvId report
    else if report.willBuild = {drvId} then
      match ← ask (.getNode drvId) with
      | some _ => ask (.sendBuild drvId)
      | none => handleCheckBuildableTask features drvId
    else handleCheckBuildableTask features drvId

def handleRebuildFailedTask (features : BuilderFeatureSnapshot) (drvId : DrvId) : IngressHandler DrvId Unit := do
  let failed ← ask (.failedRequisites drvId)
  failed.forM fun requisite => do
    ask (.updateState requisite .queued)
    handleCheckBuildableTask features requisite

def handleIngressRequest (features : BuilderFeatureSnapshot) : IngressRequest DrvId → IngressHandler DrvId Unit
  | .task (.evalRequest drvId) => handleEvalTask features drvId
  | .task (.checkBuildable drvId) => handleCheckBuildableTask features drvId
  | .task (.checkSubstitution drvId) => do
    let _ ← attempt (handleCheckSubstitutionTask drvId)
  | .rebuildFailed drvId => handleRebuildFailedTask features drvId
  | .rebuildAllFailed => do
    let failed ← ask .getAllFailedDrvs
    failed.forM fun drvId => handleRebuildFailedTask features drvId

def ingestRequest (features : BuilderFeatureSnapshot) (request : IngressRequest DrvId) : IngressHandler DrvId Unit := do
  let id ← attempt (ask (.persist request))
  match ← attempt (handleIngressRequest features request), id with
  | .ok (), .ok id => do
    let _ ← attempt (ask (.acknowledge id))
  | _, _ => pure ()

def replayJournal (features : BuilderFeatureSnapshot) : IngressHandler DrvId Unit := do
  match ← attempt (ask .recover) with
  | .error _ => pure ()
  | .ok recovered =>
    recovered.forM fun entry => do
      match ← attempt (handleIngressRequest features entry.2) with
      | .error _ => pure ()
      | .ok () => do
        let _ ← attempt (ask (.acknowledge entry.1))

end IngressHandler

/-- What the recorder asks from the database, the graph and the other services. -/
inductive RecorderCall (DrvId : Type) : Type → Type where
  | recover : RecorderCall DrvId (List (Nat × RecorderTask DrvId))
  | persist (task : RecorderTask DrvId) : RecorderCall DrvId Nat
  | acknowledge (id : Nat) : RecorderCall DrvId Unit
  | getDrv (drvId : DrvId) : RecorderCall DrvId (Option DrvBuildState)
  | getJobInfoForDrv (drvId : DrvId) : RecorderCall DrvId (List Nat)
  | updateAndBroadcast (drvId : DrvId) (old new : DrvBuildState) : RecorderCall DrvId Unit
  /-- Hooks, runtime references and sizes of a drv that was built here. -/
  | postBuild (drvId : DrvId) : RecorderCall DrvId Unit
  | clearTransitiveFailures (drvId : DrvId) : RecorderCall DrvId Unit
  | clearGraphFailure (drvId : DrvId) : RecorderCall DrvId (List DrvId)
  | getDependentsFromView (drvId : DrvId) : RecorderCall DrvId (List DrvId)
  | propagateGraphFailure (drvId : DrvId) : RecorderCall DrvId (List DrvId)
  | insertTransitiveFailures (drvId : DrvId) (blocked : List DrvId) : RecorderCall DrvId Unit
  /-- The tasks for the forge; whether the drv has check runs. -/
  | notifyForge (task : RecorderTask DrvId) : RecorderCall DrvId Bool
  /-- The jobs of a jobset whose drvs are queued. -/
  | queuedJobs (jobsetId : Nat) : RecorderCall DrvId (List DrvId)
  | checkJobsetCompletion (drvId : DrvId) : RecorderCall DrvId Unit
  | broadcastJobStats (jobsetId : Nat) : RecorderCall DrvId Unit

/-- A handler of the recorder; its tasks are for the ingress worker. -/
abbrev RecorderHandler (DrvId A : Type) := Handler (RecorderCall DrvId) Unit (IngressRequest DrvId) A

namespace RecorderHandler

open Handler

/-- The row that the decision is made on. A failed build has to have one. -/
def currentRow (task : RecorderTask DrvId) (first : Option DrvBuildState) : RecorderHandler DrvId (Option DrvBuildState) :=
  match task.result with
  | .completed .failure | .interrupted _ => do
    match ← ask (.getDrv task.derivation) with
    | none => .done (.error ())
    | some state => return some state
  | .unsatisfiableRequirements => ask (.getDrv task.derivation)
  | _ => return first

/-- Only the retry waits for room in the queue of the ingress worker. -/
def follow (drvId : DrvId) (old : DrvBuildState) : FollowUp → RecorderHandler DrvId Unit
  | .retry => tell (.task (.checkBuildable drvId))
  | .propagate => do
    let blocked ← ask (.propagateGraphFailure drvId)
    if blocked.isEmpty = false then ask (.insertTransitiveFailures drvId blocked)
  | .clear => do
    if old = .building then
      let _ ← attempt (ask (.postBuild drvId))
    ask (.clearTransitiveFailures drvId)
    let unblocked ← ask (.clearGraphFailure drvId)
    unblocked.forM fun other => do
      let _ ← tryTell (.task (.checkBuildable other))
    let referrers ← ask (.getDependentsFromView drvId)
    referrers.forM fun other => do
      let _ ← tryTell (.task (.checkBuildable other))

def notifyForgeAndChannels (task : RecorderTask DrvId) (jobsets : List Nat) : RecorderHandler DrvId Unit := do
  let hasCheckRuns ← ask (.notifyForge task)
  if hasCheckRuns && task.result = .completed .success then
    jobsets.forM fun jobset => do
      let queued ← ask (.queuedJobs jobset)
      queued.forM fun other => do
        let _ ← tryTell (.task (.evalRequest other))
  if task.result.isTerminal then ask (.checkJobsetCompletion task.derivation)

def handleRecorderRequest (task : RecorderTask DrvId) : RecorderHandler DrvId Unit := do
  let first ← ask (.getDrv task.derivation)
  let jobsets ← ask (.getJobInfoForDrv task.derivation)
  let row ← currentRow task first
  match recordDecision row task.result with
  | none => pure ()
  | some (state, followUp) =>
    let old := row.getD .queued
    ask (.updateAndBroadcast task.derivation old state)
    follow task.derivation old followUp
  notifyForgeAndChannels task jobsets
  jobsets.forM fun jobset => do
    let _ ← attempt (ask (.broadcastJobStats jobset))

def ingestRequest (task : RecorderTask DrvId) : RecorderHandler DrvId Unit := do
  let id ← attempt (ask (.persist task))
  match ← attempt (handleRecorderRequest task), id with
  | .ok (), .ok id => do
    let _ ← attempt (ask (.acknowledge id))
  | _, _ => pure ()

def replayJournal : RecorderHandler DrvId Unit := do
  match ← attempt (ask .recover) with
  | .error _ => pure ()
  | .ok recovered =>
    recovered.forM fun entry => do
      match ← attempt (handleRecorderRequest entry.2) with
      | .error _ => pure ()
      | .ok () => do
        let _ ← attempt (ask (.acknowledge entry.1))

end RecorderHandler

abbrev IngressWorker (DrvId : Type) := Worker (IngressCall DrvId) Unit (RecorderTask DrvId)

abbrev RecorderWorker (DrvId : Type) := Worker (RecorderCall DrvId) Unit (IngressRequest DrvId)

structure Pipeline (DrvId : Type) where
  ingressQueue : List (IngressRequest DrvId) := []
  recorderQueue : List (RecorderTask DrvId) := []
  ingress : IngressWorker DrvId := .down
  recorder : RecorderWorker DrvId := .down

inductive PipelineAction (DrvId : Type) where
  /-- By the other producers of the two queues. -/
  | submit (request : IngressRequest DrvId)
  | report (task : RecorderTask DrvId)
  | startIngress
  | startRecorder
  | ingest
  | sweep
  | record
  | advanceIngress (world : (R : Type) → IngressCall DrvId R → Except Unit R)
  | advanceRecorder (world : (R : Type) → RecorderCall DrvId R → Except Unit R)
  | crash

namespace Pipeline

/-- The ingress worker after a step, which may have sent to the recorder. -/
def withIngress (pipeline : Pipeline DrvId) (result : List (RecorderTask DrvId) × IngressWorker DrvId) : Pipeline DrvId :=
  { pipeline with recorderQueue := result.1, ingress := result.2 }

def withRecorder (pipeline : Pipeline DrvId) (result : List (IngressRequest DrvId) × RecorderWorker DrvId) :
    Pipeline DrvId :=
  { pipeline with ingressQueue := result.1, recorder := result.2 }

def runIngress (pipeline : Pipeline DrvId) (handler : IngressHandler DrvId Unit) : Pipeline DrvId :=
  pipeline.withIngress (Worker.enter recorderTaskBuffer pipeline.recorderQueue handler)

def runRecorder (pipeline : Pipeline DrvId) (handler : RecorderHandler DrvId Unit) : Pipeline DrvId :=
  pipeline.withRecorder (Worker.enter ingressTaskBuffer pipeline.ingressQueue handler)

variable [DecidableEq DrvId] (features : BuilderFeatureSnapshot)

def step (pipeline : Pipeline DrvId) : PipelineAction DrvId → Option (Pipeline DrvId)
  | .submit request =>
    if pipeline.ingressQueue.length < ingressTaskBuffer then
      some { pipeline with ingressQueue := pipeline.ingressQueue ++ [request] }
    else none
  | .report task =>
    if pipeline.recorderQueue.length < recorderTaskBuffer then
      some { pipeline with recorderQueue := pipeline.recorderQueue ++ [task] }
    else none
  | .startIngress =>
    match pipeline.ingress with
    | .down => some (pipeline.runIngress (IngressHandler.replayJournal features))
    | _ => none
  | .startRecorder =>
    match pipeline.recorder with
    | .down => some (pipeline.runRecorder RecorderHandler.replayJournal)
    | _ => none
  | .ingest =>
    match pipeline.ingress, pipeline.ingressQueue with
    | .idle, request :: rest =>
      some ({ pipeline with ingressQueue := rest }.runIngress (IngressHandler.ingestRequest features request))
    | _, _ => none
  | .sweep =>
    match pipeline.ingress with
    | .idle => some (pipeline.runIngress (IngressHandler.sweepBuildableDrvs features))
    | _ => none
  | .record =>
    match pipeline.recorder, pipeline.recorderQueue with
    | .idle, task :: rest => some ({ pipeline with recorderQueue := rest }.runRecorder (RecorderHandler.ingestRequest task))
    | _, _ => none
  | .advanceIngress world =>
    (pipeline.ingress.advance recorderTaskBuffer pipeline.recorderQueue world).map pipeline.withIngress
  | .advanceRecorder world =>
    (pipeline.recorder.advance ingressTaskBuffer pipeline.ingressQueue world).map pipeline.withRecorder
  | .crash => some {}

/-- Each worker is at a task for the other one, whose queue is full. -/
def MutualWait (pipeline : Pipeline DrvId) : Prop :=
  (pipeline.recorder.sends = true ∧ ingressTaskBuffer ≤ pipeline.ingressQueue.length) ∧
    pipeline.ingress.sends = true ∧ recorderTaskBuffer ≤ pipeline.recorderQueue.length

/-- A worker that comes to a task which it waits to send finds room for it, unless the
other worker is not at such a task. -/
def givesWay (pipeline : Pipeline DrvId) : PipelineAction DrvId → Bool
  | .advanceIngress world =>
    !pipeline.recorder.sends || pipeline.ingress.fits recorderTaskBuffer pipeline.recorderQueue.length world
  | .advanceRecorder world =>
    !pipeline.ingress.sends || pipeline.recorder.fits ingressTaskBuffer pipeline.ingressQueue.length world
  | _ => true

/-- At most one of the workers is at a task that it waits to send. -/
def OneSends (pipeline : Pipeline DrvId) : Prop :=
  pipeline.recorder.sends = false ∨ pipeline.ingress.sends = false

variable {features} {pipeline next : Pipeline DrvId} {action : PipelineAction DrvId}

theorem step_oneSends (one : pipeline.OneSends) (gives : pipeline.givesWay action = true)
    (taken : pipeline.step features action = some next) : next.OneSends := by
  cases action with
  | submit request =>
    simp only [step] at taken
    split at taken
    · cases taken
      exact one
    · cases taken
  | report task =>
    simp only [step] at taken
    split at taken
    · cases taken
      exact one
    · cases taken
  | startIngress =>
    simp only [step] at taken
    split at taken
    · cases taken
      exact .inr Worker.sends_enter
    · cases taken
  | startRecorder =>
    simp only [step] at taken
    split at taken
    · cases taken
      exact .inl Worker.sends_enter
    · cases taken
  | ingest | sweep =>
    simp only [step] at taken
    split at taken
    · cases taken
      exact .inr Worker.sends_enter
    · cases taken
  | record =>
    simp only [step] at taken
    split at taken
    · cases taken
      exact .inl Worker.sends_enter
    · cases taken
  | advanceIngress world =>
    obtain ⟨result, advanced, rfl⟩ := Option.map_eq_some_iff.mp taken
    rcases Bool.or_eq_true_iff.mp gives with quiet | room
    · exact .inl (Bool.not_eq_true' _ |>.mp quiet)
    · exact .inr (Worker.advance_sends advanced room)
  | advanceRecorder world =>
    obtain ⟨result, advanced, rfl⟩ := Option.map_eq_some_iff.mp taken
    rcases Bool.or_eq_true_iff.mp gives with quiet | room
    · exact .inr (Bool.not_eq_true' _ |>.mp quiet)
    · exact .inl (Worker.advance_sends advanced room)
  | crash =>
    cases taken
    exact .inl rfl

/-- Once the workers wait for each other, both queues are full and only the end of the
process is possible. -/
theorem MutualWait.forever (waiting : pipeline.MutualWait) (taken : pipeline.step features action = some next) :
    action = .crash := by
  obtain ⟨⟨recorder, ingressFull⟩, ingress, recorderFull⟩ := waiting
  cases action with
  | submit request =>
    rw [step, if_neg (Nat.not_lt.mpr ingressFull)] at taken
    cases taken
  | report task =>
    rw [step, if_neg (Nat.not_lt.mpr recorderFull)] at taken
    cases taken
  | startIngress =>
    simp only [step] at taken
    split at taken
    · rename_i down
      rw [down] at ingress
      cases ingress
    · cases taken
  | startRecorder =>
    simp only [step] at taken
    split at taken
    · rename_i down
      rw [down] at recorder
      cases recorder
    · cases taken
  | ingest =>
    simp only [step] at taken
    split at taken
    · rename_i idle _
      rw [idle] at ingress
      cases ingress
    · cases taken
  | sweep =>
    simp only [step] at taken
    split at taken
    · rename_i idle
      rw [idle] at ingress
      cases ingress
    · cases taken
  | record =>
    simp only [step] at taken
    split at taken
    · rename_i idle _
      rw [idle] at recorder
      cases recorder
    · cases taken
  | advanceIngress world =>
    rw [step, Worker.advance_of_sends ingress recorderFull] at taken
    cases taken
  | advanceRecorder world =>
    rw [step, Worker.advance_of_sends recorder ingressFull] at taken
    cases taken
  | crash => rfl

/-- The workers never wait for each other, in every run in which a worker comes to a
task for a full queue only while the other one is not at a task for it. -/
theorem run_neverMutualWait (features : BuilderFeatureSnapshot) {actions : List (PipelineAction DrvId)}
    {final : Pipeline DrvId} (run : Run (step features) (fun pipeline action => pipeline.givesWay action) {} actions final) :
    ¬ final.MutualWait := by
  have one : final.OneSends := by
    apply run.invariant (p := OneSends) (.inl rfl)
    intro pipeline action next one gives taken
    exact step_oneSends one gives taken
  rintro ⟨⟨recorder, -⟩, ingress, -⟩
  rcases one with quiet | quiet
  · rw [recorder] at quiet
    cases quiet
  · rw [ingress] at quiet
    cases quiet

theorem exec_submit (request : IngressRequest DrvId) {count : Nat}
    (room : pipeline.ingressQueue.length + count ≤ ingressTaskBuffer) :
    exec (step features) pipeline (List.replicate count (.submit request)) =
      some { pipeline with ingressQueue := pipeline.ingressQueue ++ List.replicate count request } := by
  have grows : ∀ queue : List (IngressRequest DrvId), queue.length < ingressTaskBuffer →
      step features { pipeline with ingressQueue := queue } (.submit request) =
        some { pipeline with ingressQueue := queue ++ [request] } := fun _ less => if_pos less
  exact exec_fill grows room

theorem exec_report (task : RecorderTask DrvId) {count : Nat}
    (room : pipeline.recorderQueue.length + count ≤ recorderTaskBuffer) :
    exec (step features) pipeline (List.replicate count (.report task)) =
      some { pipeline with recorderQueue := pipeline.recorderQueue ++ List.replicate count task } := by
  have grows : ∀ queue : List (RecorderTask DrvId), queue.length < recorderTaskBuffer →
      step features { pipeline with recorderQueue := queue } (.report task) =
        some { pipeline with recorderQueue := queue ++ [task] } := fun _ less => if_pos less
  exact exec_fill grows room

def cachedDrv : (R : Type) → IngressCall Nat R → Except Unit R
  | _, .recover => .ok []
  | _, .persist _ => .ok 0
  | _, .getBuildState _ => .ok (some .queued)
  | _, .dryRunRealise _ => .ok ⟨∅⟩
  | _, .cachedRequisites drvId _ => .ok [drvId]
  | _, _ => .error ()

/-- The drv is being built for the first time. -/
def buildingDrv : (R : Type) → RecorderCall Nat R → Except Unit R
  | _, .recover => .ok []
  | _, .persist _ => .ok 0
  | _, .getDrv _ => .ok (some .building)
  | _, .getJobInfoForDrv _ => .ok []
  | _, .updateAndBroadcast _ _ _ => .ok ()
  | _, _ => .error ()

/-- The ingress worker handles a cached drv and the recorder a first failure, each up
to its last call before it sends. -/
def cacheHitAndRetry : List (PipelineAction Nat) :=
  [.startIngress, .advanceIngress cachedDrv, .advanceIngress cachedDrv,
    .startRecorder, .advanceRecorder buildingDrv, .advanceRecorder buildingDrv,
    .submit (.task (.evalRequest 1)), .ingest, .advanceIngress cachedDrv, .advanceIngress cachedDrv, .advanceIngress cachedDrv,
    .report ⟨2, .completed .failure⟩, .record, .advanceRecorder buildingDrv, .advanceRecorder buildingDrv,
    .advanceRecorder buildingDrv, .advanceRecorder buildingDrv]

/-- Both tasks are sent if there is room. -/
theorem cacheHitAndRetry_neverMutualWait : ∃ final,
    Run (step ⟨[]⟩) (fun pipeline action => pipeline.givesWay action) {}
        (cacheHitAndRetry ++ [.advanceIngress cachedDrv, .advanceRecorder buildingDrv]) final ∧
      (final.ingressQueue.length = 1 ∧ final.recorderQueue.length = 1) ∧ ¬ final.MutualWait :=
  exists_run_and_of_checkRun (by decide) fun _ run => run_neverMutualWait ⟨[]⟩ run

/-- If both queues have filled up in the meantime, the workers wait for each other. -/
theorem cacheHitAndRetry_mutualWait : ¬ ∀ (features : BuilderFeatureSnapshot) (actions : List (PipelineAction Nat))
    (final : Pipeline Nat), AnyRun (step features) {} actions final → ¬ final.MutualWait := by
  intro never
  obtain ⟨pipeline, performed, ⟨noRequest, noTask⟩, ⟨R, question, next, ingress, hit, rest, hits⟩,
      R', question', next', recorder, retry, rest', retries⟩ : ∃ pipeline : Pipeline Nat,
      exec (step ⟨[]⟩) {} cacheHitAndRetry = some pipeline ∧ (pipeline.ingressQueue = [] ∧ pipeline.recorderQueue = []) ∧
        (∃ (R : Type) (question : IngressCall Nat R) (next : _), pipeline.ingress = .running (.call question next) ∧
          ∃ task rest, next (cachedDrv R question) = .send task rest) ∧
        ∃ (R : Type) (question : RecorderCall Nat R) (next : _), pipeline.recorder = .running (.call question next) ∧
          ∃ task rest, next (buildingDrv R question) = .send task rest :=
    ⟨_, rfl, ⟨rfl, rfl⟩, ⟨_, _, _, rfl, _, _, rfl⟩, _, _, _, rfl, _, _, rfl⟩
  have submitted := @exec_submit _ _ ⟨[]⟩ pipeline .rebuildAllFailed ingressTaskBuffer (by simp [noRequest])
  obtain ⟨busy, same⟩ : ∃ busy : Pipeline Nat, busy = { pipeline with
      ingressQueue := pipeline.ingressQueue ++ List.replicate ingressTaskBuffer .rebuildAllFailed } := ⟨_, rfl⟩
  rw [← same] at submitted
  have reported := @exec_report _ _ ⟨[]⟩ busy ⟨3, .completed .success⟩ recorderTaskBuffer (by simp [same, noTask])
  obtain ⟨full, same'⟩ : ∃ full : Pipeline Nat, full = { busy with
      recorderQueue := busy.recorderQueue ++ List.replicate recorderTaskBuffer ⟨3, .completed .success⟩ } := ⟨_, rfl⟩
  rw [← same'] at reported
  have requests : full.ingressQueue.length = ingressTaskBuffer := by simp [same, same', noRequest]
  have tasks : full.recorderQueue.length = recorderTaskBuffer := by simp [same, same', noTask]
  have first : full.step ⟨[]⟩ (.advanceIngress cachedDrv) = some (full.runIngress (.send hit rest)) := by
    have running : full.ingress = .running (.call question next) := by rw [same', same, ingress]
    rw [← hits]
    simp only [step, running]
    rfl
  have second : (full.runIngress (.send hit rest)).step ⟨[]⟩ (.advanceRecorder buildingDrv) =
      some ((full.runIngress (.send hit rest)).runRecorder (.send retry rest')) := by
    have running : (full.runIngress (.send hit rest)).recorder = .running (.call question' next') := by
      rw [runIngress, withIngress, same', same, recorder]
    rw [← retries]
    simp only [step, running]
    rfl
  have run : AnyRun (step ⟨[]⟩) {} (cacheHitAndRetry ++ List.replicate ingressTaskBuffer (.submit .rebuildAllFailed) ++
      List.replicate recorderTaskBuffer (.report ⟨3, .completed .success⟩) ++
        [.advanceIngress cachedDrv, .advanceRecorder buildingDrv])
      ((full.runIngress (.send hit rest)).runRecorder (.send retry rest')) := by
    apply run_of_exec
    rw [exec_append, exec_append, exec_append, performed, Option.bind_some, submitted, Option.bind_some, reported,
      Option.bind_some, exec, first, Option.bind_some, exec, second]
    rfl
  have hitWaits : (Worker.enter recorderTaskBuffer full.recorderQueue (.send hit rest)).2.sends = true := by
    rw [Worker.sends_enter, Handler.fits, tasks]
    simp
  have retryWaits : (Worker.enter ingressTaskBuffer full.ingressQueue (.send retry rest')).2.sends = true := by
    rw [Worker.sends_enter, Handler.fits, requests]
    simp
  exact never _ _ _ run ⟨⟨retryWaits, Handler.deliver_full retryWaits⟩, hitWaits, Handler.deliver_full hitWaits⟩

end Pipeline

end EkaCI
