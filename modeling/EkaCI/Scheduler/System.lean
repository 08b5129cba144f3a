import EkaCI.Graph.Service
import EkaCI.Lib.Run

/-! The services of the scheduler as one labelled transition system: the ingress
worker, the build queues with their builder threads, the recorder and the graph
service, and the messages on their way between them. A step runs a service until
it has to wait for an answer. The label of a step holds what the step does not
decide itself: the time, what nix reports, the order in which a concurrent map
is iterated, and whether a bounded channel has room for a `try_send`. -/

namespace EkaCI

open Lib

variable {DrvId : Type}

/-- For each builder its supported and its mandatory features. -/
structure BuilderFeatureSnapshot where
  builders : List (List String × List String)

/-- The characters with the Unicode property `White_Space`. -/
def isWhitespace (c : Char) : Bool :=
  let code := c.toNat
  (9 ≤ code && code ≤ 13) || [0x20, 0x85, 0xA0, 0x1680, 0x2028, 0x2029, 0x202F, 0x205F, 0x3000].contains code ||
    (0x2000 ≤ code && code ≤ 0x200A)

def trim (text : List Char) : List Char :=
  ((text.dropWhile isWhitespace).reverse.dropWhile isWhitespace).reverse

/-- The comma-separated features that a drv requires. -/
def requiredFeatures : Option String → List String
  | none => []
  | some features => (features.toList.splitOn ',').map fun part => String.ofList (trim part)

/-- At least one builder can handle the features. A builder with mandatory
features only takes drvs that require one of them. -/
def BuilderFeatureSnapshot.canBuild (snapshot : BuilderFeatureSnapshot) (features : Option String) : Bool :=
  let required := requiredFeatures features
  required.isEmpty || snapshot.builders.any fun builder =>
    (builder.2.isEmpty || required.any fun feature => builder.2.contains feature) &&
      required.all fun feature => builder.1.contains feature

inductive IngressTask (DrvId : Type) where
  | evalRequest (drvId : DrvId)
  | checkBuildable (drvId : DrvId)
  | checkSubstitution (drvId : DrvId)

structure RecorderTask (DrvId : Type) where
  derivation : DrvId
  result : DrvBuildState
  deriving DecidableEq

/-- The derivations that nix would have to build. -/
structure DryRunReport (DrvId : Type) where
  willBuild : Finset DrvId

/-- Who waits for the answer to a graph command. -/
inductive Caller where
  | detached
  | ingress
  | recorder
  deriving DecidableEq

inductive IngressPhase (DrvId : Type) where
  | idle
  /-- Waiting for nix; `standalone` tells a substitution check from an evaluation. -/
  | dryRun (drvId : DrvId) (standalone : Bool)
  /-- Waiting for the drv to be marked buildable. -/
  | awaitUpdate (drvId : DrvId) (node : CachedNode DrvId)
  | updated (drvId : DrvId) (node : CachedNode DrvId)
  deriving DecidableEq

inductive RecorderPhase (DrvId : Type) where
  | idle
  | awaitPropagate (drvId : DrvId)
  | propagated (drvId : DrvId) (blocked : List DrvId)
  | awaitClear (drvId : DrvId)
  | cleared (drvId : DrvId) (unblocked : List DrvId)
  deriving DecidableEq

/-- What the log remembers of a run; no step reads it. -/
inductive Event (DrvId : Type) where
  | pickedUp (drvId : DrvId)
  | recorded (drvId : DrvId) (state : DrvBuildState)
  | propagated (drvId : DrvId) (blocked : List DrvId)
  deriving DecidableEq

structure SchedulerConfig where
  builderFeatures : BuilderFeatureSnapshot
  /-- How many builds a builder thread runs at a time. -/
  maxJobs : Nat → Nat

structure System (DrvId : Type) where
  service : GraphService DrvId
  graphQueue : List (GraphCommand DrvId × Caller)
  ingressQueue : List (IngressTask DrvId)
  recorderQueue : List (RecorderTask DrvId)
  /-- Build requests that no builder thread has been given yet. -/
  buildQueue : List (Drv DrvId)
  builderQueues : Nat → List (Drv DrvId)
  /-- Spawned, unfinished `attempt_build` tasks by builder. -/
  attempts : List (Nat × DrvId)
  ingress : IngressPhase DrvId
  /-- Candidates that the sweep in progress has still to check. -/
  sweepRest : List DrvId
  recorder : RecorderPhase DrvId
  log : List (Event DrvId)

inductive Action (DrvId : Type) where
  | submit (task : IngressTask DrvId)
  | submitDrvs (drvs : List (Drv DrvId)) (refs : List (DrvId × DrvId))
  | query (command : GraphCommand DrvId)
  | ingest (room : Bool)
  | dryRunDone (report : Option (DryRunReport DrvId)) (room : Bool)
  | sweep (candidates : List DrvId)
  | sweepNext (room : Bool)
  | sendBuild (room : Bool)
  | applyCommand (now : Instant)
  | dispatch (request : Drv DrvId) (builder : Nat)
  | reject (request : Drv DrvId)
  | drop (request : Drv DrvId)
  | pickUp (builder : Nat) (room : Bool)
  | finish (builder : Nat) (drvId : DrvId) (outcome : DrvBuildState)
  | record (room : Bool)
  | recordReply (unblocked referrers : List (DrvId × Bool))

/-- What the recorder does after it has written a state. -/
inductive FollowUp where
  | retry
  | propagate
  | clear
  deriving DecidableEq

/-- The state to record for a result, given the state in the drv's row. `none`
when the result is stale, or unexpected, or the row is missing. -/
def recordDecision (row : Option DrvBuildState) : DrvBuildState → Option (DrvBuildState × FollowUp)
  | .completed .success => some (.completed .success, .clear)
  | .completed .failure => match row with
    | some .building => some (.failedRetry, .retry)
    | some .failedRetry => some (.completed .failure, .propagate)
    | _ => none
  | .interrupted kind => match row with
    | none => none
    | some state =>
      if state.isTerminal then none
      else if kind.isRetryable then
        if state = .failedRetry then some (.completed .failure, .propagate) else some (.failedRetry, .retry)
      else some (.interrupted kind, .propagate)
  | .unsatisfiableRequirements =>
    if (row.getD .queued).isTerminal then none else some (.unsatisfiableRequirements, .propagate)
  | _ => none

/-- What a build can end in. Running out of memory is recorded like a timeout,
though no builder reports it. -/
def isBuildOutcome : DrvBuildState → Bool
  | .completed _ => true
  | .interrupted kind => kind.isRetryable
  | _ => false

namespace System

/-- The services as they start on a database, with nothing in flight. -/
def start [DecidableEq DrvId] (db : Database DrvId) (capacity : Nat) (positive : 0 < capacity)
    (now : Instant) : System DrvId where
  service := .new db capacity positive now
  graphQueue := []
  ingressQueue := []
  recorderQueue := []
  buildQueue := []
  builderQueues := fun _ => []
  attempts := []
  ingress := .idle
  sweepRest := []
  recorder := .idle
  log := []

def view (system : System DrvId) : SharedView DrvId := system.service.sharedView

def db (system : System DrvId) : Database DrvId := system.service.db

def send (system : System DrvId) (command : GraphCommand DrvId) (caller : Caller) : System DrvId :=
  { system with graphQueue := system.graphQueue ++ [(command, caller)] }

/-- A best-effort update of the graph: dropped when the command channel is full. -/
def trySendUpdate (system : System DrvId) (drvId : DrvId) (state : DrvBuildState) (room : Bool) :
    System DrvId :=
  { system with
    graphQueue := system.graphQueue ++ if room then [(.updateState drvId state, .detached)] else [] }

def report (system : System DrvId) (tasks : List (RecorderTask DrvId)) : System DrvId :=
  { system with recorderQueue := system.recorderQueue ++ tasks }

/-- Offer a drv to the builders; dropped when the build channel is full. -/
def offerBuild (system : System DrvId) (drvId : DrvId) (node : CachedNode DrvId) (room : Bool) :
    System DrvId :=
  { system with
    buildQueue := if room then system.buildQueue ++ [node.toDrv drvId] else system.buildQueue }

def checkBuildable (config : SchedulerConfig) (system : System DrvId) (drvId : DrvId) (room : Bool) :
    System DrvId :=
  if system.view.isBuildable drvId then
    match system.view.get drvId with
    | none => system
    | some node =>
      if config.builderFeatures.canBuild node.requiredSystemFeatures = false then
        system.report [⟨drvId, .unsatisfiableRequirements⟩]
      -- a spent attempt stays visible, so its state is not updated
      else if node.buildState = .failedRetry then system.offerBuild drvId node room
      else { system.send (.updateState drvId .buildable) .ingress with ingress := .awaitUpdate drvId node }
  else system

variable [DecidableEq DrvId]

/-- A drv that the substitution traversal does not mark: it needs building, or
it is finished or being built. -/
def skipsSubstitution (view : SharedView DrvId) (report : DryRunReport DrvId) (drvId : DrvId) : Bool :=
  drvId ∈ report.willBuild || match view.getBuildState drvId with
    | some state => state.isTerminal || state = .building
    | none => false

/-- The drvs that a cached root lets the ingress worker mark as successful, in
breadth-first order from the root. -/
def cachedClosure (view : SharedView DrvId) (report : DryRunReport DrvId) (root : DrvId) : List DrvId :=
  let dependencies drvId := ((view.get drvId).map (·.dependencies)).getD []
  let next drvId := if skipsSubstitution view report drvId then [] else dependencies drvId
  let bound := (root :: view.keys.flatMap dependencies).length
  (search next bound [root] [root]).filter fun drvId => !skipsSubstitution view report drvId

def substitute (system : System DrvId) (report : DryRunReport DrvId) (root : DrvId) : System DrvId :=
  system.report ((cachedClosure system.view report root).map (⟨·, .completed .success⟩))

/-- Nix says that only this drv is left to build: send it to the builders
without looking at the graph. -/
def shortCut (config : SchedulerConfig) (system : System DrvId) (drvId : DrvId) (room : Bool) :
    System DrvId :=
  match system.view.get drvId with
  | none => system.checkBuildable config drvId room
  | some node =>
    { system with
      service := { system.service with sharedView := system.view.setState drvId .buildable }
      buildQueue := system.buildQueue ++ [node.toDrv drvId] }

def handleIngress (config : SchedulerConfig) (system : System DrvId) (room : Bool) :
    IngressTask DrvId → System DrvId
  | .evalRequest drvId =>
    if ((system.view.getBuildState drvId).map (·.isTerminal)).getD false then system
    else { system with ingress := .dryRun drvId false }
  | .checkBuildable drvId => system.checkBuildable config drvId room
  | .checkSubstitution drvId => { system with ingress := .dryRun drvId true }

/-- Go on after the dry run; `none` is a dry run that failed. -/
def finishDryRun (config : SchedulerConfig) (system : System DrvId) (drvId : DrvId) (standalone : Bool)
    (room : Bool) : Option (DryRunReport DrvId) → System DrvId
  | none => if standalone then system else system.checkBuildable config drvId room
  | some report =>
    if drvId ∉ report.willBuild then system.substitute report drvId
    else if standalone then system
    else if report.willBuild = {drvId} then system.shortCut config drvId room
    else system.checkBuildable config drvId room

def sweepCandidates (view : SharedView DrvId) : List DrvId :=
  view.keys.filter fun drvId =>
    (view.getBuildState drvId = some .queued && view.isBuildable drvId) ||
      view.getBuildState drvId = some .buildable

/-- Process a command and hand the answer to whoever waits for it. -/
def applyCommand (system : System DrvId) (now : Instant) (command : GraphCommand DrvId) (caller : Caller) :
    System DrvId :=
  let processed := system.service.process now command
  { system with
    service := processed.2
    ingress := match caller, system.ingress with
      | .ingress, .awaitUpdate drvId node => .updated drvId node
      | _, phase => phase
    recorder := match caller, system.recorder with
      | .recorder, .awaitPropagate drvId => .propagated drvId processed.1
      | .recorder, .awaitClear drvId => .cleared drvId processed.1
      | _, phase => phase
    log := match command with
      | .propagateFailure drvId => system.log ++ [.propagated drvId processed.1]
      | _ => system.log }

/-- Start a requested build, unless the drv is finished already. -/
def startBuild (system : System DrvId) (builder : Nat) (drvId : DrvId) (room : Bool) : System DrvId :=
  if ((system.view.getBuildState drvId).map (·.isTerminal)).getD false then system
  else
    let marked : System DrvId := { system with
      service := { system.service with sharedView := system.view.setState drvId .building }
      attempts := system.attempts ++ [(builder, drvId)]
      log := system.log ++ [.pickedUp drvId] }
    marked.trySendUpdate drvId .building room

/-- Write a state to the database and the shared view, and tell the graph. -/
def settle (system : System DrvId) (drvId : DrvId) (state : DrvBuildState) (room : Bool) : System DrvId :=
  let written : System DrvId := { system with
    service := { system.service with
      db := system.db.updateDrvStatus drvId state
      sharedView := system.view.setState drvId state }
    log := system.log ++ [.recorded drvId state] }
  written.trySendUpdate drvId state room

def follow (system : System DrvId) (drvId : DrvId) : FollowUp → System DrvId
  | .retry => { system with ingressQueue := system.ingressQueue ++ [.checkBuildable drvId] }
  | .propagate => { system.send (.propagateFailure drvId) .recorder with recorder := .awaitPropagate drvId }
  | .clear =>
    let cleared : System DrvId := { system with
      service := { system.service with db := system.db.clearTransitiveFailures drvId } }
    { cleared.send (.clearFailure drvId) .recorder with recorder := .awaitClear drvId }

def recordTask (system : System DrvId) (task : RecorderTask DrvId) (room : Bool) : System DrvId :=
  match recordDecision (system.db.rowState task.derivation) task.result with
  | none => system
  | some (state, followUp) => (system.settle task.derivation state room).follow task.derivation followUp

/-- The checks that found room in the ingress channel. -/
def tryChecks (system : System DrvId) (checks : List (DrvId × Bool)) : System DrvId :=
  { system with
    ingressQueue := system.ingressQueue ++ (checks.filter (·.2)).map fun check => .checkBuildable check.1 }

/-- Persist what was blocked. -/
def replyPropagated (system : System DrvId) (drvId : DrvId) (blocked : List DrvId) : System DrvId :=
  { system with
    recorder := .idle
    service := { system.service with
      db := if blocked = [] then system.db else system.db.insertTransitiveFailures drvId blocked } }

def step (config : SchedulerConfig) (system : System DrvId) : Action DrvId → Option (System DrvId)
  | .submit task => some { system with ingressQueue := system.ingressQueue ++ [task] }
  | .submitDrvs drvs refs =>
    -- the database is written before the command is sent
    let stored : System DrvId := { system with
      service := { system.service with db := system.db.insertDrvsAndReferences drvs refs } }
    some (stored.send (.insertDrvs drvs refs) .detached)
  | .query command => if command.isQuery then some (system.send command .detached) else none
  | .ingest room => match system.ingress, system.sweepRest, system.ingressQueue with
    | .idle, [], task :: rest =>
      some ({ system with ingressQueue := rest }.handleIngress config room task)
    | _, _, _ => none
  | .dryRunDone report room => match system.ingress with
    | .dryRun drvId standalone =>
      some ({ system with ingress := .idle }.finishDryRun config drvId standalone room report)
    | _ => none
  | .sweep candidates =>
    if system.ingress = .idle ∧ system.sweepRest = [] ∧ candidates.Perm (sweepCandidates system.view) then
      some { system with sweepRest := candidates }
    else none
  | .sweepNext room => match system.ingress, system.sweepRest with
    | .idle, drvId :: rest => some ({ system with sweepRest := rest }.checkBuildable config drvId room)
    | _, _ => none
  | .sendBuild room => match system.ingress with
    | .updated drvId node => some ({ system with ingress := .idle }.offerBuild drvId node room)
    | _ => none
  | .applyCommand now => match system.graphQueue with
    | [] => none
    | (command, caller) :: rest => some ({ system with graphQueue := rest }.applyCommand now command caller)
  -- which builder gets a request, and whether one can take it, is left open
  | .dispatch request builder =>
    if request ∈ system.buildQueue then
      some { system with
        buildQueue := system.buildQueue.erase request
        builderQueues := Function.update system.builderQueues builder
          (system.builderQueues builder ++ [request]) }
    else none
  | .reject request =>
    if request ∈ system.buildQueue then
      some ({ system with buildQueue := system.buildQueue.erase request }.report
        [⟨request.drvPath, .unsatisfiableRequirements⟩])
    else none
  | .drop request =>
    if request ∈ system.buildQueue then
      some { system with buildQueue := system.buildQueue.erase request }
    else none
  | .pickUp builder room => match system.builderQueues builder with
    | [] => none
    | request :: rest =>
      if (system.attempts.filter (·.1 = builder)).length < config.maxJobs builder then
        some ({ system with builderQueues := Function.update system.builderQueues builder rest }.startBuild
          builder request.drvPath room)
      else none
  | .finish builder drvId outcome =>
    if (builder, drvId) ∈ system.attempts ∧ isBuildOutcome outcome = true then
      some ({ system with attempts := system.attempts.erase (builder, drvId) }.report [⟨drvId, outcome⟩])
    else none
  | .record room => match system.recorder, system.recorderQueue with
    | .idle, task :: rest => some ({ system with recorderQueue := rest }.recordTask task room)
    | _, _ => none
  | .recordReply unblockedChecks referrerChecks => match system.recorder with
    | .propagated drvId blocked => some (system.replyPropagated drvId blocked)
    | .cleared drvId unblocked =>
      if (unblockedChecks.map (·.1)).Perm unblocked ∧
          (referrerChecks.map (·.1)).Perm (system.view.getDependentsFromView drvId) then
        some (({ system with recorder := .idle }.tryChecks unblockedChecks).tryChecks referrerChecks)
      else none
    | _ => none

/-- The runs of the services from their start, all of whose steps meet a condition. -/
abbrev RunsFrom (config : SchedulerConfig) (db : Database DrvId) (capacity : Nat) (positive : 0 < capacity)
    (now : Instant) (good : System DrvId → Action DrvId → Bool) : List (Action DrvId) → System DrvId → Prop :=
  Run (step config) (fun system action => good system action = true) (start db capacity positive now)

/-- Builders without special features, each with room for one build. -/
def soloBuilders : SchedulerConfig := ⟨⟨[([], [])]⟩, fun _ => 1⟩

end System

end EkaCI
