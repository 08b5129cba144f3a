import EkaCI.Scheduler.Completion
import Mathlib.Data.List.Rotate

/-! The check runs of the forge, which show the states of drvs. The recorder sends the
tasks that create and update them, and the service handles these in their order. Here
the forge answers every request. -/

namespace EkaCI

open Lib

variable {DrvId : Type}

/-- Higher is worse. -/
def buildStateSeverity : DrvBuildState → Nat
  | .completed .success => 0
  | .interrupted .cancelled => 1
  | .queued | .buildable | .blocked => 2
  | .failedRetry | .building => 3
  | .interrupted .timeout => 4
  | .completed .failure | .transitiveFailure | .unsatisfiableRequirements => 5
  | .interrupted .outOfMemory | .interrupted .processDeath | .interrupted .schedulerDeath => 5

/-- The worst of the states, and the last one among equals. -/
def aggregateBuildState (states : List DrvBuildState) : DrvBuildState :=
  (states.reverse.maxOn? buildStateSeverity).getD .queued

inductive CheckRunStatus where
  | queued
  | inProgress
  | completed
  deriving DecidableEq, Repr

inductive CheckRunConclusion where
  | success
  | failure
  | neutral
  | timedOut
  | actionRequired
  deriving DecidableEq, Repr

abbrev CheckRunDisplay := CheckRunStatus × Option CheckRunConclusion

def buildStateToGraphql : DrvBuildState → CheckRunDisplay
  | .queued | .buildable => (.queued, none)
  | .failedRetry | .building => (.inProgress, none)
  | .completed .success => (.completed, some .success)
  | .completed .failure => (.completed, some .failure)
  | .transitiveFailure => (.completed, some .failure)
  | .interrupted .timeout => (.completed, some .timedOut)
  | .interrupted .cancelled => (.completed, some .neutral)
  | .interrupted _ => (.completed, some .failure)
  | .blocked => (.completed, some .failure)
  | .unsatisfiableRequirements => (.completed, some .failure)

/-- The same for requests that are not batched, but for a blocked drv. -/
def DrvBuildState.asGhCheckrunState : DrvBuildState → CheckRunDisplay
  | .queued | .buildable => (.queued, none)
  | .failedRetry | .building => (.inProgress, none)
  | .completed .success => (.completed, some .success)
  | .completed .failure | .transitiveFailure => (.completed, some .failure)
  | .interrupted .timeout => (.completed, some .timedOut)
  | .interrupted .cancelled => (.completed, some .neutral)
  | .interrupted .outOfMemory | .interrupted .processDeath | .interrupted .schedulerDeath => (.completed, some .failure)
  | .blocked => (.completed, some .actionRequired)
  | .unsatisfiableRequirements => (.completed, some .failure)

/-- The `LIKE` of the database, where the letters of ASCII match in either case. -/
def like : List Char → List Char → Bool
  | [], text => text.isEmpty
  | '%' :: pattern, text => text.tails.any (like pattern)
  | '_' :: pattern, text => !text.isEmpty && like pattern text.tail
  | char :: pattern, text => (text.head?.any fun first => first.toLower = char.toLower) && like pattern text.tail

def inGroup (group name : String) : Bool := like (group.toList ++ ['.', '%']) name.toList

/-- A row of `GitHubCheckRuns`. -/
structure CheckRunRow (DrvId : Type) where
  checkRunId : Nat
  drvId : DrvId
  nodeId : Option String

def CheckRunRow.key (row : CheckRunRow DrvId) : Nat × DrvId := (row.checkRunId, row.drvId)

/-- What the recorder and the service write, what the forge shows for each check run, and
the tasks on their way. -/
structure ForgeState (DrvId : Type) where
  recorder : RecorderState DrvId
  checkRuns : List (CheckRunRow DrvId)
  shown : Nat → CheckRunDisplay
  queue : List (GitHubTask DrvId)
  /-- The number that the forge gives to the next check run. -/
  fresh : Nat

/-- What is decided outside while a task is handled: for which check runs the node of the
repository is known, and which one of several rows the database finds. -/
structure CheckRunAnswers where
  known : Nat → Bool
  pick : Nat

namespace ForgeState

variable (state : ForgeState DrvId)

def rowState (drvId : DrvId) : Option DrvBuildState := state.recorder.service.db.rowState drvId

def publish (checkRunId : Nat) (display : CheckRunDisplay) : ForgeState DrvId :=
  { state with shown := Function.update state.shown checkRunId display }

def push (task : GitHubTask DrvId) : ForgeState DrvId := { state with queue := state.queue ++ [task] }

/-- The forge shows a check run under a new number. -/
def createCheckRun (display : CheckRunDisplay) : ForgeState DrvId :=
  { state.publish state.fresh display with fresh := state.fresh + 1 }

def getGroupJobsInJobset (jobsetId : Nat) (group : String) : List (NewOrChangedJob DrvId) :=
  (state.recorder.tables.jobs.filter fun job => job.jobset = jobsetId && inGroup group job.name).filterMap fun job =>
    (state.rowState job.drvId).map fun buildState => ⟨job.name, job.difference, job.drvId, buildState⟩

variable [DecidableEq DrvId]

def checkRunsForDrvPath (drvId : DrvId) : List (CheckRunRow DrvId) := state.checkRuns.filter fun row => row.drvId = drvId

/-- One entry for every job of every drv of the check run, with the state of the drv. -/
def variantStatesForCheckRun (checkRunId : Nat) : List (DrvId × DrvBuildState) :=
  (state.checkRuns.filter fun row => row.checkRunId = checkRunId).flatMap fun row =>
    (state.recorder.getJobInfoForDrv row.drvId).filterMap fun _ =>
      (state.rowState row.drvId).map fun buildState => (row.drvId, buildState)

/-- Any check run with a drv of the group will do. -/
def findCoalescedCheckRunForGroup (pick jobsetId : Nat) (group : String) : Option (Nat × Option String) :=
  ((state.checkRuns.filter fun row => (state.recorder.getJobInfoForDrv row.drvId).any fun job =>
    job.jobset = jobsetId && inGroup group job.name).rotate pick).head?.map fun row => (row.checkRunId, row.nodeId)

/-- The drv is a foreign key. -/
def insertCheckRunInfoWithNodeId (checkRunId : Nat) (drvId : DrvId) (nodeId : Option String) :
    Except GitHubFailure Unit × ForgeState DrvId :=
  match state.rowState drvId with
  | none => (.error .other, state)
  | some _ => (.ok (), { state with checkRuns := insertIgnore CheckRunRow.key state.checkRuns ⟨checkRunId, drvId, nodeId⟩ })

/-- The status that is sent for one check run of the drv. -/
def statusFor (drvId : DrvId) (status : DrvBuildState) (checkRunId : Nat) : DrvBuildState :=
  if 1 < (state.variantStatesForCheckRun checkRunId).length then
    aggregateBuildState ((state.variantStatesForCheckRun checkRunId).map fun variant =>
      if variant.1 = drvId then status else variant.2)
  else status

/-- Updates are batched for the check runs and repositories whose node is known. -/
def updateBuildStatus (known : Nat → Bool) (drvId : DrvId) (status : DrvBuildState) : ForgeState DrvId :=
  (state.checkRunsForDrvPath drvId).foldl (fun state row =>
    let sent := state.statusFor drvId status row.checkRunId
    state.publish row.checkRunId
      (if row.nodeId.isSome && known row.checkRunId then buildStateToGraphql sent else sent.asGhCheckrunState)) state

def updateBuildStatusWithSizeWarning (drvId : DrvId) : ForgeState DrvId :=
  (state.checkRunsForDrvPath drvId).foldl (fun state row => state.publish row.checkRunId (.completed, some .neutral)) state

/-- The calls of the handler that creates check runs; it makes no other ones. -/
def answer (answers : CheckRunAnswers) :
    (R : Type) → GitHubCall DrvId R → ForgeState DrvId → Except GitHubFailure R × ForgeState DrvId
  | _, .octocrabForOwner _, state => (.ok (), state)
  | _, .getJobsetInfo jobsetId, state =>
    match state.recorder.getJobsetInfo jobsetId with
    | some jobset => (.ok jobset, state)
    | none => (.error .other, state)
  | _, .getDrv drvId, state => (.ok (state.rowState drvId), state)
  | _, .findCoalescedCheckRunForGroup jobsetId group, state =>
    (.ok (state.findCoalescedCheckRunForGroup answers.pick jobsetId group), state)
  | _, .getGroupJobsInJobset jobsetId group, state => (.ok (state.getGroupJobsInJobset jobsetId group), state)
  | _, .createCoalescedGhCheckRun _ _ jobs, state =>
    (.ok (state.fresh, toString state.fresh),
      state.createCheckRun (aggregateBuildState (jobs.map NewOrChangedJob.buildState)).asGhCheckrunState)
  | _, .createGhCheckRun _ _ buildState difference, state =>
    (.ok (state.fresh, toString state.fresh),
      state.createCheckRun
        (match difference with
        | .removed => (.completed, some .neutral)
        | _ => buildState.asGhCheckrunState))
  | _, .insertCheckRunInfoWithNodeId checkRunId drvId nodeId, state =>
    state.insertCheckRunInfoWithNodeId checkRunId drvId nodeId
  | _, _, state => (.error .other, state)

/-- The recorder sends no other tasks that touch a check run. -/
def handleGithubTask (answers : CheckRunAnswers) : GitHubTask DrvId → ForgeState DrvId
  | .updateBuildStatus drvId status => state.updateBuildStatus answers.known drvId status
  | .updateBuildStatusWithSizeWarning drvId _ => state.updateBuildStatusWithSizeWarning drvId
  | .createFailureCheckRun drvId jobsetId jobAttrName difference =>
    (GitHubHandler.handleCreateFailureCheckRun drvId jobsetId jobAttrName difference).perform (answer answers) push state
  | _ => state

variable (task : RecorderTask DrvId)

/-- For outputs that were built here and have grown beyond the threshold of a job. -/
def sizeWarnings (count : Nat) : List (GitHubTask DrvId) :=
  if task.result = .completed .success ∧ state.rowState task.derivation = some .building then
    List.replicate count (.updateBuildStatusWithSizeWarning task.derivation (.completed .success))
  else []

def failureCheckRuns : List (GitHubTask DrvId) :=
  if task.result.isFailure && (state.checkRunsForDrvPath task.derivation).isEmpty then
    (state.recorder.getJobInfoForDrv task.derivation).map fun job =>
      .createFailureCheckRun task.derivation job.jobset job.name job.difference
  else []

/-- The update carries the result of the build. -/
def statusUpdate : List (GitHubTask DrvId) :=
  if (state.checkRunsForDrvPath task.derivation).isEmpty then []
  else [.updateBuildStatus task.derivation task.result]

/-- All that the recorder sends to the service while it handles a task. -/
def notifyForge (senders : RecorderSenders) (now : Instant) (room : Bool) (grown : Nat) : List (GitHubTask DrvId) :=
  if senders.github && !state.recorder.isMissing task then
    state.sizeWarnings task grown ++ state.failureCheckRuns task ++ state.statusUpdate task ++
      (state.recorder.notify senders now room task).merges.map .checkAutoMerge
  else []

end ForgeState

inductive ForgeAction (DrvId : Type) where
  /-- The recorder handles a task; `grown` jobs have a threshold that the output exceeds. -/
  | record (task : RecorderTask DrvId) (now : Instant) (room : Bool) (grown : Nat)
  /-- The service handles the first task of its queue. -/
  | github (answers : CheckRunAnswers)

namespace ForgeState

variable [DecidableEq DrvId] (state : ForgeState DrvId)

def step (senders : RecorderSenders) : ForgeAction DrvId → Option (ForgeState DrvId)
  | .record task now room grown =>
    some { state with
      recorder := state.recorder.record now room task
      queue := state.queue ++ state.notifyForge task senders now room grown }
  | .github answers =>
    match state.queue with
    | [] => none
    | task :: rest => some (handleGithubTask { state with queue := rest } answers task)

/-- What the recorded states amount to; of a single state it is the state itself. -/
def recordedDisplay (checkRunId : Nat) : CheckRunDisplay :=
  buildStateToGraphql (aggregateBuildState ((state.variantStatesForCheckRun checkRunId).map Prod.snd))

/-- Every check run shows what is recorded. -/
def Displayed : Prop := ∀ row ∈ state.checkRuns, state.shown row.checkRunId = state.recordedDisplay row.checkRunId

end ForgeState

end EkaCI
