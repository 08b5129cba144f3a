import EkaCI.Scheduler.System
import EkaCI.Graph.Effects

/-! What one step of the scheduler can do, said once: every branch of the step
function with its guards and the state it leads to. Invariants are proved by
cases on this relation. -/

namespace EkaCI.System

open Lib

variable {DrvId : Type} [DecidableEq DrvId]

/-- The four ways a buildability check can go. -/
inductive Checked (config : SchedulerConfig) (system : System DrvId) (drvId : DrvId) (room : Bool) :
    System DrvId → Prop where
  | skip (waiting : system.view.isBuildable drvId = false) : Checked config system drvId room system
  | unsatisfiable {node : CachedNode DrvId} (ready : system.view.isBuildable drvId = true)
      (found : system.view.get drvId = some node)
      (cannot : config.builderFeatures.canBuild node.requiredSystemFeatures = false) :
      Checked config system drvId room (system.report [⟨drvId, .unsatisfiableRequirements⟩])
  | retry {node : CachedNode DrvId} (ready : system.view.isBuildable drvId = true)
      (found : system.view.get drvId = some node)
      (can : config.builderFeatures.canBuild node.requiredSystemFeatures = true)
      (spent : node.buildState = .failedRetry) :
      Checked config system drvId room (system.offerBuild drvId node room)
  | update {node : CachedNode DrvId} (ready : system.view.isBuildable drvId = true)
      (found : system.view.get drvId = some node)
      (can : config.builderFeatures.canBuild node.requiredSystemFeatures = true)
      (unspent : node.buildState ≠ .failedRetry) :
      Checked config system drvId room
        { system.send (.updateState drvId .buildable) .ingress with ingress := .awaitUpdate drvId node }

omit [DecidableEq DrvId] in
theorem checkBuildable_checked (config : SchedulerConfig) (system : System DrvId) (drvId : DrvId)
    (room : Bool) : Checked config system drvId room (system.checkBuildable config drvId room) := by
  unfold checkBuildable
  split
  · rename_i ready
    split
    · rename_i missing
      obtain ⟨node, found, -⟩ := SharedView.isBuildable_iff.mp ready
      rw [missing] at found
      cases found
    · rename_i node found
      split
      · rename_i cannot
        exact .unsatisfiable ready found cannot
      · rename_i can
        rw [Bool.not_eq_false] at can
        split
        · rename_i spent
          exact .retry ready found can spent
        · rename_i unspent
          exact .update ready found can unspent
  · rename_i waiting
    exact .skip (Bool.eq_false_iff.mpr waiting)

/-- A build result that counts against the two attempts of a drv. -/
def failsAttempt : DrvBuildState → Bool
  | .completed .failure => true
  | .interrupted kind => kind.isRetryable
  | _ => false

/-- The cases of a decision to write a state. -/
inductive Decided (row : Option DrvBuildState) (result : DrvBuildState) : DrvBuildState → FollowUp → Prop where
  | success (succeeded : result = .completed .success) : Decided row result (.completed .success) .clear
  | retry {state : DrvBuildState} (failed : failsAttempt result = true) (known : row = some state)
      (unfinished : state.isTerminal = false) (first : state ≠ .failedRetry) :
      Decided row result .failedRetry .retry
  | giveUp (failed : failsAttempt result = true) (second : row = some .failedRetry) :
      Decided row result (.completed .failure) .propagate
  | interrupted {kind : DrvBuildInterruptionKind} {state : DrvBuildState}
      (stopped : result = .interrupted kind) (final : kind.isRetryable = false)
      (known : row = some state) (unfinished : state.isTerminal = false) :
      Decided row result (.interrupted kind) .propagate
  | unsatisfiable (rejected : result = .unsatisfiableRequirements)
      (unfinished : (row.getD .queued).isTerminal = false) :
      Decided row result .unsatisfiableRequirements .propagate

variable {followUp : FollowUp} {result state : DrvBuildState} {row : Option DrvBuildState}

theorem decided_of_recordDecision (decided : recordDecision row result = some (state, followUp)) :
    Decided row result state followUp := by
  cases result with
  | completed outcome =>
    cases outcome with
    | success =>
      cases decided
      exact .success rfl
    | failure =>
      simp only [recordDecision] at decided
      split at decided
      · cases decided
        exact .retry rfl rfl rfl (by decide)
      · cases decided
        exact .giveUp rfl rfl
      · cases decided
  | interrupted kind =>
    cases row with
    | none => cases decided
    | some known =>
      simp only [recordDecision] at decided
      split at decided
      · cases decided
      · rename_i unfinished
        rw [Bool.not_eq_true] at unfinished
        split at decided
        · rename_i retryable
          split at decided
          · rename_i second
            cases decided
            exact .giveUp retryable (congrArg some second)
          · rename_i first
            cases decided
            exact .retry retryable rfl unfinished first
        · rename_i final
          cases decided
          exact .interrupted rfl (Bool.not_eq_true _ ▸ final) rfl unfinished
  | unsatisfiableRequirements =>
    simp only [recordDecision] at decided
    split at decided
    · cases decided
    · rename_i unfinished
      cases decided
      exact .unsatisfiable rfl (Bool.not_eq_true _ ▸ unfinished)
  | _ => cases decided

theorem Decided.settled (decided : Decided row result state followUp) :
    state.isTerminal = true ∨ state = .failedRetry := by
  cases decided <;> simp [DrvBuildState.isTerminal]

theorem Decided.ne_building (decided : Decided row result state followUp) : state ≠ .building := by
  rintro rfl
  rcases decided.settled with terminal | retry
  · cases terminal
  · cases retry

theorem Decided.over_terminal {known : DrvBuildState} (decided : Decided row result state followUp)
    (found : row = some known) (terminal : known.isTerminal = true) : state = .completed .success := by
  cases decided with
  | success => rfl
  | retry _ held unfinished =>
    cases held.symm.trans found
    cases unfinished.symm.trans terminal
  | giveUp _ second =>
    cases second.symm.trans found
    cases terminal
  | interrupted _ _ held unfinished =>
    cases held.symm.trans found
    cases unfinished.symm.trans terminal
  | unsatisfiable _ unfinished =>
    rw [found, Option.getD_some] at unfinished
    cases unfinished.symm.trans terminal

/-- A check only sends; what it knows of drvs and builds stays as it is. -/
structure SendsOnly (system next : System DrvId) : Prop where
  service : next.service = system.service
  builderQueues : next.builderQueues = system.builderQueues
  attempts : next.attempts = system.attempts
  recorder : next.recorder = system.recorder
  log : next.log = system.log

omit [DecidableEq DrvId] in
theorem Checked.sendsOnly {config : SchedulerConfig} {system next : System DrvId} {drvId : DrvId}
    {room : Bool} (checked : Checked config system drvId room next) : SendsOnly system next := by
  cases checked <;> exact ⟨rfl, rfl, rfl, rfl, rfl⟩

/-- What the recorder does after writing a state touches neither view, rows nor builds. -/
structure FollowsUp (system next : System DrvId) : Prop where
  view : next.view = system.view
  row : ∀ drvId, next.db.rowState drvId = system.db.rowState drvId
  graph : next.service.graph = system.service.graph
  attempts : next.attempts = system.attempts
  builderQueues : next.builderQueues = system.builderQueues
  buildQueue : next.buildQueue = system.buildQueue
  recorderQueue : next.recorderQueue = system.recorderQueue
  ingress : next.ingress = system.ingress
  log : next.log = system.log

theorem follow_followsUp (system : System DrvId) (drvId : DrvId) (followUp : FollowUp) :
    FollowsUp system (system.follow drvId followUp) := by
  cases followUp <;> exact ⟨rfl, fun _ => rfl, rfl, rfl, rfl, rfl, rfl, rfl, rfl⟩

section Messages

variable {system : System DrvId} {drvId other : DrvId} {state otherState : DrvBuildState} {room : Bool}

section Enter

omit [DecidableEq DrvId]

theorem mem_offerBuild {node : CachedNode DrvId} {request : Drv DrvId}
    (member : request ∈ (system.offerBuild drvId node room).buildQueue) :
    request ∈ system.buildQueue ∨ request.drvPath = drvId := by
  simp only [offerBuild] at member
  split at member
  · rcases mem_snoc.mp member with earlier | offered
    · exact .inl earlier
    · rw [offered]
      exact .inr rfl
  · exact .inl member

theorem mem_send {command : GraphCommand DrvId} {caller sender : Caller}
    (member : (.updateState other otherState, caller) ∈ (system.send command sender).graphQueue) :
    (.updateState other otherState, caller) ∈ system.graphQueue ∨
      command = .updateState other otherState := by
  rcases List.mem_append.mp member with earlier | sent
  · exact .inl earlier
  · rw [List.mem_singleton, Prod.mk.injEq] at sent
    exact .inr sent.1.symm

theorem mem_trySendUpdate {caller : Caller}
    (member : (.updateState other otherState, caller) ∈ (system.trySendUpdate drvId state room).graphQueue) :
    (.updateState other otherState, caller) ∈ system.graphQueue ∨ (other = drvId ∧ otherState = state) := by
  rcases List.mem_append.mp member with earlier | sent
  · exact .inl earlier
  · split at sent
    · rw [List.mem_singleton, Prod.mk.injEq, GraphCommand.updateState.injEq] at sent
      exact .inr sent.1
    · cases sent

end Enter

theorem mem_settle_follow {caller : Caller}
    (member : (.updateState other otherState, caller) ∈
      ((system.settle drvId state room).follow drvId followUp).graphQueue) :
    (.updateState other otherState, caller) ∈ system.graphQueue ∨ (other = drvId ∧ otherState = state) := by
  cases followUp with
  | retry => exact mem_trySendUpdate member
  | propagate | clear =>
    rcases mem_send member with earlier | sent
    · exact mem_trySendUpdate earlier
    · cases sent

theorem applyCommand_ingress {now : Instant} {command : GraphCommand DrvId} {caller : Caller}
    {node : CachedNode DrvId}
    (phase : (system.applyCommand now command caller).ingress = .awaitUpdate drvId node ∨
      (system.applyCommand now command caller).ingress = .updated drvId node) :
    system.ingress = .awaitUpdate drvId node ∨ system.ingress = .updated drvId node := by
  cases waiting : system.ingress with
  | awaitUpdate waitingId waitingNode =>
    cases caller <;> simp_all [applyCommand]
  | _ => cases caller <;> simp_all [applyCommand]

theorem replyPropagated_db (system : System DrvId) (drvId : DrvId) (blocked : List DrvId) :
    (system.replyPropagated drvId blocked).db = system.db.insertTransitiveFailures drvId blocked := by
  unfold replyPropagated db
  dsimp only
  split
  · rename_i none
    rw [none]
    rfl
  · rfl

end Messages

/-- Where a buildability check can come from: a task, a dry run that finds the
drv not cached, or the sweep. -/
inductive CheckSource (system : System DrvId) : Action DrvId → DrvId → Bool → System DrvId → Prop where
  | ingest {drvId : DrvId} {rest : List (IngressTask DrvId)} {room : Bool}
      (idle : system.ingress = .idle) (swept : system.sweepRest = [])
      (head : system.ingressQueue = .checkBuildable drvId :: rest) :
      CheckSource system (.ingest room) drvId room { system with ingressQueue := rest }
  | dryRun {drvId : DrvId} {room : Bool} {report : Option (DryRunReport DrvId)}
      (phase : system.ingress = .dryRun drvId false)
      (needed : ∀ found, report = some found → drvId ∈ found.willBuild) :
      CheckSource system (.dryRunDone report room) drvId room { system with ingress := .idle }
  | sweep {drvId : DrvId} {rest : List DrvId} {room : Bool}
      (idle : system.ingress = .idle) (head : system.sweepRest = drvId :: rest) :
      CheckSource system (.sweepNext room) drvId room { system with sweepRest := rest }

inductive Transition (config : SchedulerConfig) (system : System DrvId) :
    Action DrvId → System DrvId → Prop where
  | submit (task : IngressTask DrvId) : Transition config system (.submit task)
      { system with ingressQueue := system.ingressQueue ++ [task] }
  | submitDrvs (drvs : List (Drv DrvId)) (refs : List (DrvId × DrvId)) :
      Transition config system (.submitDrvs drvs refs)
        ({ system with
          service := { system.service with db := system.db.insertDrvsAndReferences drvs refs } }.send
            (.insertDrvs drvs refs) .detached)
  | query {command : GraphCommand DrvId} (asks : command.isQuery = true) :
      Transition config system (.query command) (system.send command .detached)
  | skipFinished {drvId : DrvId} {rest : List (IngressTask DrvId)} {room : Bool}
      (head : system.ingressQueue = .evalRequest drvId :: rest) :
      Transition config system (.ingest room) { system with ingressQueue := rest }
  | dryRun {task : IngressTask DrvId} {drvId : DrvId} {rest : List (IngressTask DrvId)} {room standalone : Bool}
      (idle : system.ingress = .idle) (head : system.ingressQueue = task :: rest) :
      Transition config system (.ingest room)
        { system with ingressQueue := rest, ingress := .dryRun drvId standalone }
  | check {action : Action DrvId} {drvId : DrvId} {room : Bool} {base next : System DrvId}
      (source : CheckSource system action drvId room base)
      (checked : Checked config base drvId room next) : Transition config system action next
  | dryRunOver {drvId : DrvId} {standalone room : Bool} {report : Option (DryRunReport DrvId)}
      (phase : system.ingress = .dryRun drvId standalone) :
      Transition config system (.dryRunDone report room) { system with ingress := .idle }
  | substitute {drvId : DrvId} {standalone room : Bool} {report : DryRunReport DrvId}
      (phase : system.ingress = .dryRun drvId standalone) (cached : drvId ∉ report.willBuild) :
      Transition config system (.dryRunDone (some report) room)
        ({ system with ingress := .idle }.substitute report drvId)
  | shortCut {drvId : DrvId} {room : Bool} {report : DryRunReport DrvId} {node : CachedNode DrvId}
      (phase : system.ingress = .dryRun drvId false) (only : report.willBuild = {drvId})
      (found : system.view.get drvId = some node) :
      Transition config system (.dryRunDone (some report) room)
        { system with
          ingress := .idle
          service := { system.service with sharedView := system.view.setState drvId .buildable }
          buildQueue := system.buildQueue ++ [node.toDrv drvId] }
  | sweep {candidates : List DrvId} (idle : system.ingress = .idle) (swept : system.sweepRest = [])
      (found : candidates.Perm (sweepCandidates system.view)) :
      Transition config system (.sweep candidates) { system with sweepRest := candidates }
  | sendBuild {drvId : DrvId} {node : CachedNode DrvId} {room : Bool}
      (phase : system.ingress = .updated drvId node) :
      Transition config system (.sendBuild room)
        ({ system with ingress := .idle }.offerBuild drvId node room)
  | apply {now : Instant} {command : GraphCommand DrvId} {caller : Caller}
      {rest : List (GraphCommand DrvId × Caller)} (head : system.graphQueue = (command, caller) :: rest) :
      Transition config system (.applyCommand now)
        ({ system with graphQueue := rest }.applyCommand now command caller)
  | dispatch {request : Drv DrvId} {builder : Nat} (waiting : request ∈ system.buildQueue) :
      Transition config system (.dispatch request builder)
        { system with
          buildQueue := system.buildQueue.erase request
          builderQueues := Function.update system.builderQueues builder
            (system.builderQueues builder ++ [request]) }
  | reject {request : Drv DrvId} (waiting : request ∈ system.buildQueue) :
      Transition config system (.reject request)
        ({ system with buildQueue := system.buildQueue.erase request }.report
          [⟨request.drvPath, .unsatisfiableRequirements⟩])
  | drop {request : Drv DrvId} (waiting : request ∈ system.buildQueue) :
      Transition config system (.drop request)
        { system with buildQueue := system.buildQueue.erase request }
  | skipBuild {builder : Nat} {request : Drv DrvId} {rest : List (Drv DrvId)} {room : Bool}
      (head : system.builderQueues builder = request :: rest) :
      Transition config system (.pickUp builder room)
        { system with builderQueues := Function.update system.builderQueues builder rest }
  | startBuild {builder : Nat} {request : Drv DrvId} {rest : List (Drv DrvId)} {room : Bool}
      (head : system.builderQueues builder = request :: rest)
      (unfinished : ∀ state, system.view.getBuildState request.drvPath = some state →
        state.isTerminal = false) :
      Transition config system (.pickUp builder room)
        (trySendUpdate
          { system with
            builderQueues := Function.update system.builderQueues builder rest
            service := { system.service with
              sharedView := system.view.setState request.drvPath .building }
            attempts := system.attempts ++ [(builder, request.drvPath)]
            log := system.log ++ [.pickedUp request.drvPath] } request.drvPath .building room)
  | finish {builder : Nat} {drvId : DrvId} {outcome : DrvBuildState}
      (running : (builder, drvId) ∈ system.attempts) (outcomes : isBuildOutcome outcome = true) :
      Transition config system (.finish builder drvId outcome)
        ({ system with attempts := system.attempts.erase (builder, drvId) }.report [⟨drvId, outcome⟩])
  | recordIgnore {task : RecorderTask DrvId} {rest : List (RecorderTask DrvId)} {room : Bool}
      (idle : system.recorder = .idle) (head : system.recorderQueue = task :: rest)
      (ignored : recordDecision (system.db.rowState task.derivation) task.result = none) :
      Transition config system (.record room) { system with recorderQueue := rest }
  | recordSettle {task : RecorderTask DrvId} {rest : List (RecorderTask DrvId)} {room : Bool}
      {state : DrvBuildState} {followUp : FollowUp}
      (idle : system.recorder = .idle) (head : system.recorderQueue = task :: rest)
      (decided : recordDecision (system.db.rowState task.derivation) task.result = some (state, followUp)) :
      Transition config system (.record room)
        (({ system with recorderQueue := rest }.settle task.derivation state room).follow
          task.derivation followUp)
  | replyPropagated {drvId : DrvId} {blocked : List DrvId} {unblockedChecks referrerChecks : List (DrvId × Bool)}
      (phase : system.recorder = .propagated drvId blocked) :
      Transition config system (.recordReply unblockedChecks referrerChecks)
        (system.replyPropagated drvId blocked)
  | replyCleared {drvId : DrvId} {unblocked : List DrvId} {unblockedChecks referrerChecks : List (DrvId × Bool)}
      (phase : system.recorder = .cleared drvId unblocked)
      (answered : (unblockedChecks.map (·.1)).Perm unblocked)
      (referring : (referrerChecks.map (·.1)).Perm (system.view.getDependentsFromView drvId)) :
      Transition config system (.recordReply unblockedChecks referrerChecks)
        (({ system with recorder := .idle }.tryChecks unblockedChecks).tryChecks referrerChecks)

section Inversion

variable {config : SchedulerConfig} {system next : System DrvId}

private theorem ingest_transition {room : Bool} {task : IngressTask DrvId} {rest : List (IngressTask DrvId)}
    (idle : system.ingress = .idle) (swept : system.sweepRest = [])
    (head : system.ingressQueue = task :: rest) :
    Transition config system (.ingest room)
      ({ system with ingressQueue := rest }.handleIngress config room task) := by
  cases task with
  | evalRequest drvId =>
    rw [handleIngress]
    split
    · exact .skipFinished head
    · exact .dryRun idle head
  | checkBuildable drvId => exact .check (.ingest idle swept head) (checkBuildable_checked ..)
  | checkSubstitution drvId => exact .dryRun idle head

private theorem dryRunDone_transition {drvId : DrvId} {standalone room : Bool}
    {report : Option (DryRunReport DrvId)} (phase : system.ingress = .dryRun drvId standalone) :
    Transition config system (.dryRunDone report room)
      ({ system with ingress := .idle }.finishDryRun config drvId standalone room report) := by
  cases report with
  | none =>
    cases standalone with
    | true => exact .dryRunOver phase
    | false => exact .check (.dryRun phase (fun _ found => by cases found)) (checkBuildable_checked ..)
  | some report =>
    rw [finishDryRun]
    split
    · rename_i cached
      exact .substitute phase cached
    · rename_i uncached
      have needed : ∀ found, some report = some found → drvId ∈ found.willBuild := by
        intro found same
        cases same
        exact not_not.mp uncached
      cases standalone with
      | true => exact .dryRunOver phase
      | false =>
        simp only [Bool.false_eq_true, if_false]
        split
        · rename_i only
          rw [System.shortCut]
          split
          · exact .check (.dryRun phase needed) (checkBuildable_checked ..)
          · rename_i node found
            exact .shortCut phase only found
        · exact .check (.dryRun phase needed) (checkBuildable_checked ..)

private theorem pickUp_transition {builder : Nat} {request : Drv DrvId} {rest : List (Drv DrvId)}
    {room : Bool} (head : system.builderQueues builder = request :: rest) :
    Transition config system (.pickUp builder room)
      ({ system with builderQueues := Function.update system.builderQueues builder rest }.startBuild
        builder request.drvPath room) := by
  rw [System.startBuild]
  split
  · exact .skipBuild head
  · rename_i unfinished
    refine .startBuild head fun state found => ?_
    by_contra terminal
    rw [Bool.not_eq_false] at terminal
    exact unfinished (by
      have seen : (({ system with
        builderQueues := Function.update system.builderQueues builder rest } : System DrvId).view).getBuildState
          request.drvPath = some state := found
      simp [seen, terminal])

private theorem record_transition {task : RecorderTask DrvId} {rest : List (RecorderTask DrvId)}
    {room : Bool} (idle : system.recorder = .idle) (head : system.recorderQueue = task :: rest) :
    Transition config system (.record room) ({ system with recorderQueue := rest }.recordTask task room) := by
  rw [recordTask]
  split
  · rename_i ignored
    exact .recordIgnore idle head ignored
  · rename_i state followUp decided
    exact .recordSettle idle head decided

theorem transition_of_step {action : Action DrvId} (taken : system.step config action = some next) :
    Transition config system action next := by
  cases action with
  | submit task =>
    cases taken
    exact .submit task
  | submitDrvs drvs refs =>
    cases taken
    exact .submitDrvs drvs refs
  | query command =>
    simp only [step] at taken
    split at taken
    · rename_i asks
      cases taken
      exact .query asks
    · cases taken
  | ingest room =>
    simp only [step] at taken
    split at taken
    · rename_i idle swept head
      cases taken
      exact ingest_transition idle swept head
    · cases taken
  | dryRunDone report room =>
    simp only [step] at taken
    split at taken
    · rename_i phase
      cases taken
      exact dryRunDone_transition phase
    · cases taken
  | sweep candidates =>
    simp only [step] at taken
    split at taken
    · rename_i guards
      cases taken
      exact .sweep guards.1 guards.2.1 guards.2.2
    · cases taken
  | sweepNext room =>
    simp only [step] at taken
    split at taken
    · rename_i idle head
      cases taken
      exact .check (.sweep idle head) (checkBuildable_checked ..)
    · cases taken
  | sendBuild room =>
    simp only [step] at taken
    split at taken
    · rename_i phase
      cases taken
      exact .sendBuild phase
    · cases taken
  | applyCommand now =>
    simp only [step] at taken
    split at taken
    · cases taken
    · rename_i head
      cases taken
      exact .apply head
  | dispatch request builder =>
    simp only [step] at taken
    split at taken
    · rename_i waiting
      cases taken
      exact .dispatch waiting
    · cases taken
  | reject request =>
    simp only [step] at taken
    split at taken
    · rename_i waiting
      cases taken
      exact .reject waiting
    · cases taken
  | drop request =>
    simp only [step] at taken
    split at taken
    · rename_i waiting
      cases taken
      exact .drop waiting
    · cases taken
  | pickUp builder room =>
    simp only [step] at taken
    split at taken
    · cases taken
    · rename_i head
      split at taken
      · cases taken
        exact pickUp_transition head
      · cases taken
  | finish builder drvId outcome =>
    simp only [step] at taken
    split at taken
    · rename_i guards
      cases taken
      exact .finish guards.1 guards.2
    · cases taken
  | record room =>
    simp only [step] at taken
    split at taken
    · rename_i idle head
      cases taken
      exact record_transition idle head
    · cases taken
  | recordReply unblockedChecks referrerChecks =>
    simp only [step] at taken
    split at taken
    · rename_i phase
      cases taken
      exact .replyPropagated phase
    · rename_i phase
      split at taken
      · rename_i guards
        cases taken
        exact .replyCleared phase guards.1 guards.2
      · cases taken
    · cases taken

end Inversion

end EkaCI.System
