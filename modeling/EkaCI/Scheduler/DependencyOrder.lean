import EkaCI.Graph.Insertion
import EkaCI.Graph.Startup
import EkaCI.Scheduler.Transition

/-! No drv builds before its dependencies. Readiness is checked when a request
is made; from then on it only lasts if finished dependencies stay finished. -/

namespace EkaCI

open Lib

variable {DrvId : Type} [DecidableEq DrvId]

namespace GraphService

/-- A command leaves successful entries successful, and inserts neither a drv
under build nor anything that changes the dependencies of a ready entry. -/
def keepsReadiness (service : GraphService DrvId) (command : GraphCommand DrvId) : Bool :=
  let view := service.sharedView
  service.keepsStates (fun drvId => view.getBuildState drvId = some (.completed .success))
      (.completed .success) command &&
    ((service.inserts command).all fun drv => drv.buildState ≠ .building && !view.isBuildable drv.drvPath) &&
    match command with
    | .insertDrvs _ refs => refs.all fun edge => !view.isBuildable edge.1
    | _ => true

/-- What such a command does: successes stay, ready entries keep their
dependencies, and only the command's own drv can come into `building`. -/
structure KeepsReadiness (before after : SharedView DrvId) (command : GraphCommand DrvId) : Prop where
  successes : ∀ drvId, before.getBuildState drvId = some (.completed .success) →
    after.getBuildState drvId = some (.completed .success)
  dependencies : ∀ drvId, before.isBuildable drvId = true →
    (after.get drvId).map (·.dependencies) = (before.get drvId).map (·.dependencies)
  started : ∀ drvId, after.getBuildState drvId = some .building →
    before.getBuildState drvId = some .building ∨ command = .updateState drvId .building

section Command

variable {service : GraphService DrvId} {command : GraphCommand DrvId}

section Undecided

omit [DecidableEq DrvId]

private theorem dependencies_of_rewritten {before after : Option (CachedNode DrvId)} {rewritten : Prop}
    [Decidable rewritten] {state : DrvBuildState}
    (found : after = if rewritten then before.map fun node => { node with buildState := state } else before) :
    after.map (·.dependencies) = before.map (·.dependencies) := by
  rw [found]
  split <;> simp [Function.comp_def]

private theorem building_of_rewritten {before after : Option (CachedNode DrvId)} {rewritten : Prop}
    [Decidable rewritten] {state : DrvBuildState} (different : rewritten → state ≠ .building)
    (found : after = if rewritten then before.map fun node => { node with buildState := state } else before)
    (started : after.map (·.buildState) = some .building) : before.map (·.buildState) = some .building := by
  rw [found] at started
  split at started
  · rename_i written
    obtain ⟨node, held, same⟩ := Option.map_eq_some_iff.mp started
    obtain ⟨original, -, made⟩ := Option.map_eq_some_iff.mp held
    rw [← made] at same
    exact absurd same (different written)
  · exact started

private theorem inserted_absent {view : SharedView DrvId} {drvs : List (Drv DrvId)} {drvId : DrvId}
    (allowed : ∀ drv ∈ drvs, drv.buildState ≠ .building ∧ view.isBuildable drv.drvPath = false)
    (ready : view.isBuildable drvId = true) : ∀ drv ∈ drvs, drv.drvPath ≠ drvId := by
  intro drv member same
  have unready := (allowed drv member).2
  rw [same, ready] at unready
  cases unready

private theorem inserted_unstarted {view : SharedView DrvId} {drvs : List (Drv DrvId)} {drvId : DrvId}
    {before after : Option DrvBuildState}
    (allowed : ∀ drv ∈ drvs, drv.buildState ≠ .building ∧ view.isBuildable drv.drvPath = false)
    (states : (∃ drv ∈ drvs, drv.drvPath = drvId ∧ after = some drv.buildState) ∨ after = before)
    (started : after = some .building) : before = some .building := by
  rcases states with ⟨drv, member, -, written⟩ | same
  · rw [written] at started
    exact absurd (Option.some.inj started) (allowed drv member).1
  · exact same ▸ started

end Undecided

theorem process_keepsReadiness (now : Instant) (keeps : service.keepsReadiness command = true) :
    KeepsReadiness service.sharedView (service.process now command).2.sharedView command := by
  simp only [keepsReadiness, Bool.and_eq_true, List.all_eq_true, decide_eq_true_eq, Bool.not_eq_true'] at keeps
  obtain ⟨⟨states, allowed⟩, edges⟩ := keeps
  have successes : ∀ drvId, service.sharedView.getBuildState drvId = some (.completed .success) →
      (service.process now command).2.sharedView.getBuildState drvId = some (.completed .success) := by
    intro drvId done
    exact process_state_of_keepsStates states (decide_eq_true done) done
  refine ⟨successes, ?_, ?_⟩
  all_goals rw [process_view]
  · intro drvId ready
    cases command with
    | updateState updated newState => exact dependencies_of_rewritten (SharedView.setState_get ..)
    | propagateFailure failedDrv => exact dependencies_of_rewritten (propagateFailure_view failedDrv)
    | clearFailure formerlyFailed => exact dependencies_of_rewritten (clearFailure_view formerlyFailed)
    | insertDrvs drvs refs =>
      simp only [keepsStates, Bool.and_eq_true] at states
      have inserted := foldl_insertDrv_inserted now drvs service (of_decide_eq_true states.1)
      have unlinked : ∀ edge ∈ refs, edge.1 ≠ drvId := by
        intro edge member same
        have unready := List.all_eq_true.mp edges edge member
        rw [same, ready] at unready
        cases unready
      rw [handleCommand, insertDrvs, (insertRefs_view refs _).2 drvId unlinked,
        inserted.kept drvId (inserted_absent allowed ready)]
    | _ =>
      simp only [keepsStates, Bool.and_eq_true] at states
      rw [(handleCommand_inserted rfl states.1).kept drvId (inserted_absent allowed ready)]
  · intro drvId started
    cases command with
    | updateState updated newState =>
      by_cases same : drvId = updated ∧ newState = .building
      · exact .inr (by rw [same.1, same.2])
      · refine .inl (building_of_rewritten ?_ (SharedView.setState_get updated drvId newState) started)
        exact fun named written => same ⟨named, written⟩
    | propagateFailure failedDrv =>
      exact .inl (building_of_rewritten (fun _ => by decide) (propagateFailure_view failedDrv) started)
    | clearFailure formerlyFailed =>
      exact .inl (building_of_rewritten (fun _ => by decide) (clearFailure_view formerlyFailed) started)
    | insertDrvs drvs refs =>
      simp only [keepsStates, Bool.and_eq_true] at states
      exact .inl (inserted_unstarted allowed (insertDrvs_states states.1 drvId) started)
    | _ =>
      simp only [keepsStates, Bool.and_eq_true] at states
      exact .inl (inserted_unstarted allowed ((handleCommand_inserted rfl states.1).states drvId) started)

end Command

end GraphService

namespace System

/-- Nothing unfinishes a dependency: the short-cut that trusts nix is not taken,
the graph keeps what is ready ready, and the recorder writes no other state over
a success. -/
def keepsDependenciesDone (system : System DrvId) : Action DrvId → Bool
  | .applyCommand _ => match system.graphQueue with
    | [] => true
    | (command, _) :: _ => system.service.keepsReadiness command
  | .dryRunDone (some report) _ => match system.ingress with
    | .dryRun drvId false => report.willBuild ≠ {drvId}
    | _ => true
  | .record _ => match system.recorderQueue with
    | [] => true
    | task :: _ => recordDecision (system.db.rowState task.derivation) task.result = none ||
      system.view.getBuildState task.derivation ≠ some (.completed .success) ||
        task.result = .completed .success
  | _ => true

/-- A drv that is being built or on its way there. -/
inductive Scheduled (system : System DrvId) (drvId : DrvId) : Prop where
  | marked (state : system.view.getBuildState drvId = some .building)
  | queued {request : Drv DrvId} (member : request ∈ system.buildQueue) (named : request.drvPath = drvId)
  | given {builder : Nat} {request : Drv DrvId} (member : request ∈ system.builderQueues builder)
      (named : request.drvPath = drvId)
  | checked {node : CachedNode DrvId}
      (phase : system.ingress = .awaitUpdate drvId node ∨ system.ingress = .updated drvId node)
  | announced {caller : Caller} (member : (.updateState drvId .building, caller) ∈ system.graphQueue)

/-- Whatever is scheduled is ready. -/
def DependenciesDone (system : System DrvId) : Prop :=
  ∀ drvId, system.Scheduled drvId → system.view.isBuildable drvId = true

section Scheduled

variable {config : SchedulerConfig} {system next : System DrvId} {drvId : DrvId}

omit [DecidableEq DrvId]

theorem Scheduled.mono (scheduled : next.Scheduled drvId) (view : next.view = system.view)
    (queue : next.buildQueue ⊆ system.buildQueue)
    (queues : ∀ builder, next.builderQueues builder ⊆ system.builderQueues builder)
    (phase : next.ingress = system.ingress ∨ ∀ other node,
      next.ingress ≠ .awaitUpdate other node ∧ next.ingress ≠ .updated other node)
    (updates : ∀ caller, (.updateState drvId .building, caller) ∈ next.graphQueue →
      (.updateState drvId .building, caller) ∈ system.graphQueue) : system.Scheduled drvId := by
  cases scheduled with
  | marked state => exact .marked (view ▸ state)
  | queued member named => exact .queued (queue member) named
  | given member named => exact .given (queues _ member) named
  | @checked node held =>
    rcases phase with same | other
    · exact .checked (same ▸ held)
    · exact absurd held (not_or.mpr (other drvId node))
  | announced member => exact .announced (updates _ member)

theorem Scheduled.unmoved (scheduled : next.Scheduled drvId) (view : next.view = system.view)
    (queue : next.buildQueue = system.buildQueue) (queues : next.builderQueues = system.builderQueues)
    (phase : next.ingress = system.ingress ∨ ∀ other node,
      next.ingress ≠ .awaitUpdate other node ∧ next.ingress ≠ .updated other node)
    (updates : ∀ caller, (.updateState drvId .building, caller) ∈ next.graphQueue →
      (.updateState drvId .building, caller) ∈ system.graphQueue) : system.Scheduled drvId :=
  scheduled.mono view (queue ▸ List.Subset.refl _) (fun _ => queues ▸ List.Subset.refl _) phase updates

theorem Checked.ready {room : Bool} {checkedId : DrvId} (checked : Checked config system checkedId room next)
    (done : ∀ other, system.Scheduled other → system.view.isBuildable other = true)
    (scheduled : next.Scheduled drvId) : system.view.isBuildable drvId = true := by
  cases checked with
  | skip => exact done drvId scheduled
  | unsatisfiable =>
    exact done _ (scheduled.unmoved rfl rfl rfl (.inl rfl) fun _ => id)
  | @retry node ready =>
    cases scheduled with
    | queued member named =>
      rcases mem_offerBuild member with earlier | offered
      · exact done _ (.queued earlier named)
      · exact (offered.symm.trans named) ▸ ready
    | marked state => exact done _ (.marked state)
    | given member named => exact done _ (.given member named)
    | checked phase => exact done _ (.checked phase)
    | announced member => exact done _ (.announced member)
  | update ready =>
    cases scheduled with
    | checked phase =>
      rcases phase with waiting | updated
      · cases waiting
        exact ready
      · cases updated
    | announced member =>
      rcases mem_send member with earlier | sent
      · exact done _ (.announced earlier)
      · cases sent
    | marked state => exact done _ (.marked state)
    | queued member named => exact done _ (.queued member named)
    | given member named => exact done _ (.given member named)

end Scheduled

section Steps

variable {config : SchedulerConfig} {system next : System DrvId} {action : Action DrvId} {drvId : DrvId}

theorem isBuildable_step (meets : system.keepsDependenciesDone action = true)
    (transition : Transition config system action next) (ready : system.view.isBuildable drvId = true) :
    next.view.isBuildable drvId = true := by
  cases transition with
  | check source checked =>
    rw [view, checked.sendsOnly.service]
    cases source <;> exact ready
  | shortCut phase only found => simp [keepsDependenciesDone, phase, only] at meets
  | @apply now command caller rest head =>
    simp only [keepsDependenciesDone, head] at meets
    have kept := GraphService.process_keepsReadiness now meets
    exact SharedView.isBuildable_of_kept kept.successes (kept.dependencies drvId ready) ready
  | startBuild head unfinished =>
    refine SharedView.isBuildable_setState (fun done => ?_) ready
    cases unfinished _ done
  | recordSettle _ head decided =>
    simp only [keepsDependenciesDone, head, decided, reduceCtorEq, decide_false, Bool.false_or, ne_eq,
      Bool.or_eq_true, decide_eq_true_eq] at meets
    rw [(follow_followsUp ..).view]
    refine SharedView.isBuildable_setState (fun done => ?_) ready
    rw [meets.resolve_left (not_not_intro done)] at decided
    cases decided
    rfl
  | _ => exact ready

theorem scheduled_startBuild {builder : Nat} {request : Drv DrvId} {rest : List (Drv DrvId)} {room : Bool}
    (done : system.DependenciesDone) (head : system.builderQueues builder = request :: rest)
    (scheduled : (trySendUpdate
      { system with
        builderQueues := Function.update system.builderQueues builder rest
        service := { system.service with sharedView := system.view.setState request.drvPath .building }
        attempts := system.attempts ++ [(builder, request.drvPath)]
        log := system.log ++ [.pickedUp request.drvPath] } request.drvPath .building room).Scheduled drvId) :
    system.view.isBuildable drvId = true := by
  have requested : system.Scheduled request.drvPath := .given (head ▸ List.mem_cons_self ..) rfl
  by_cases same : drvId = request.drvPath
  · exact same ▸ done _ requested
  · cases scheduled with
    | marked state =>
      have unwritten := (SharedView.setState_getBuildState request.drvPath drvId .building).symm.trans state
      rw [if_neg same] at unwritten
      exact done _ (.marked unwritten)
    | @given other request' member named =>
      simp only [trySendUpdate, Function.update_apply] at member
      split at member
      · rename_i equal
        exact done _ (.given (equal ▸ head ▸ List.mem_cons_of_mem _ member) named)
      · exact done _ (.given member named)
    | announced member =>
      rcases mem_trySendUpdate member with earlier | ⟨equal, -⟩
      · exact done _ (.announced earlier)
      · exact absurd equal same
    | queued member named => exact done _ (.queued member named)
    | checked held => exact done _ (.checked held)

theorem scheduled_settle {derivation : DrvId} {rest : List (RecorderTask DrvId)} {state : DrvBuildState} {room : Bool}
    {followUp : FollowUp} (done : system.DependenciesDone) (settled : state ≠ .building)
    (scheduled : (({ system with recorderQueue := rest }.settle derivation state room).follow derivation
      followUp).Scheduled drvId) : system.view.isBuildable drvId = true := by
  have follows := follow_followsUp
    (System.settle { system with recorderQueue := rest } derivation state room) derivation followUp
  cases scheduled with
  | marked found =>
    rw [follows.view] at found
    have written := (SharedView.setState_getBuildState derivation drvId state).symm.trans found
    split at written
    · obtain ⟨earlier, -, same⟩ := Option.map_eq_some_iff.mp written
      exact absurd same settled
    · exact done _ (.marked written)
  | queued member named =>
    rw [follows.buildQueue] at member
    exact done _ (.queued member named)
  | given member named =>
    rw [follows.builderQueues] at member
    exact done _ (.given member named)
  | checked held =>
    rw [follows.ingress] at held
    exact done _ (.checked held)
  | announced member =>
    rcases mem_settle_follow member with earlier | ⟨-, same⟩
    · exact done _ (.announced earlier)
    · exact absurd same.symm settled

theorem scheduled_step (done : system.DependenciesDone) (meets : system.keepsDependenciesDone action = true)
    (transition : Transition config system action next) (scheduled : next.Scheduled drvId) :
    system.view.isBuildable drvId = true := by
  cases transition with
  | submitDrvs drvs refs =>
    exact done _ (scheduled.unmoved rfl rfl rfl (.inl rfl)
      fun _ member => (mem_send member).resolve_right (by simp))
  | @query command asks =>
    have different : command ≠ .updateState drvId .building := by
      intro same
      simp [same, GraphCommand.isQuery] at asks
    exact done _ (scheduled.unmoved rfl rfl rfl (.inl rfl)
      fun _ member => (mem_send member).resolve_right different)
  | dryRun | dryRunOver | substitute =>
    exact done _ (scheduled.unmoved rfl rfl rfl
      (.inr fun _ _ => ⟨by simp [substitute, report], by simp [substitute, report]⟩) fun _ member => member)
  | check source checked =>
    cases source with
    | ingest | sweep =>
      exact checked.ready (fun other earlier => done other (earlier.unmoved rfl rfl rfl (.inl rfl)
        fun _ member => member)) scheduled
    | dryRun =>
      exact checked.ready (fun other earlier => done other (earlier.unmoved rfl rfl rfl
        (.inr fun _ _ => ⟨by simp, by simp⟩) fun _ member => member)) scheduled
  | shortCut phase only found => simp [keepsDependenciesDone, phase, only] at meets
  | @sendBuild sentId node room phase =>
    cases scheduled with
    | checked held => simp [offerBuild] at held
    | queued member named =>
      rcases mem_offerBuild member with earlier | offered
      · exact done _ (.queued earlier named)
      · exact done _ (.checked (.inr ((offered.symm.trans named) ▸ phase)))
    | marked state => exact done _ (.marked state)
    | given member named => exact done _ (.given member named)
    | announced member => exact done _ (.announced member)
  | @apply now command caller rest head =>
    simp only [keepsDependenciesDone, head] at meets
    cases scheduled with
    | marked state =>
      rcases (GraphService.process_keepsReadiness now meets).started drvId state with earlier | named
      · exact done _ (.marked earlier)
      · have first : (.updateState drvId .building, caller) ∈ system.graphQueue := by simp [head, named]
        exact done _ (.announced first)
    | checked held =>
      have waiting := applyCommand_ingress held
      exact done _ (.checked waiting)
    | queued member named => exact done _ (.queued member named)
    | given member named => exact done _ (.given member named)
    | announced member => exact done _ (.announced (head ▸ List.mem_cons_of_mem _ member))
  | @dispatch request builder waiting =>
    cases scheduled with
    | queued member named => exact done _ (.queued (List.mem_of_mem_erase member) named)
    | @given other request' member named =>
      simp only [Function.update_apply] at member
      split at member
      · rename_i same
        rcases mem_snoc.mp member with earlier | moved
        · exact done _ (.given earlier named)
        · rw [moved] at named
          exact done _ (.queued waiting named)
      · exact done _ (.given member named)
    | marked state => exact done _ (.marked state)
    | checked held => exact done _ (.checked held)
    | announced member => exact done _ (.announced member)
  | reject | drop =>
    exact done _ (scheduled.mono rfl List.erase_subset (fun _ => List.Subset.refl _) (.inl rfl)
      fun _ member => member)
  | @skipBuild builder request rest room head =>
    refine done drvId (scheduled.mono rfl (List.Subset.refl _) (fun other => ?_) (.inl rfl)
      fun _ member => member)
    simp only [Function.update_apply]
    split
    · rename_i same
      rw [same, head]
      exact List.subset_cons_self ..
    · exact List.Subset.refl _
  | startBuild head => exact scheduled_startBuild done head scheduled
  | @recordSettle task rest room state followUp _ head decided =>
    exact scheduled_settle done (decided_of_recordDecision decided).ne_building scheduled
  | _ => exact done _ (scheduled.unmoved rfl rfl rfl (.inl rfl) fun _ => id)

end Steps

theorem start_dependenciesDone (db : Database DrvId) (capacity : Nat) (positive : 0 < capacity)
    (now : Instant) : (start db capacity positive now).DependenciesDone := by
  intro drvId scheduled
  cases scheduled with
  | marked state => exact absurd state (GraphService.new_view_not_building drvId)
  | queued member _ => cases member
  | given member _ => cases member
  | checked phase => rcases phase with waiting | updated <;> contradiction
  | announced member => cases member

/-- In a run that unfinishes no dependency, the dependencies of every drv under
build are there and completed successfully. -/
theorem dependencies_done_of_building (config : SchedulerConfig) (db : Database DrvId) (capacity : Nat)
    (positive : 0 < capacity) (now : Instant) {actions : List (Action DrvId)} {final : System DrvId}
    (run : RunsFrom config db capacity positive now keepsDependenciesDone actions final)
    {drvId : DrvId} {node : CachedNode DrvId} (found : final.view.get drvId = some node)
    (underway : node.buildState = .building) :
    ∀ dependency ∈ node.dependencies, ∃ other,
      final.view.get dependency = some other ∧ other.buildState = .completed .success := by
  have done : final.DependenciesDone := by
    apply run.invariant (start_dependenciesDone db capacity positive now)
    intro system action next done meets taken drvId scheduled
    have transition := transition_of_step taken
    exact isBuildable_step meets transition (scheduled_step done meets transition scheduled)
  have marked : final.view.getBuildState drvId = some .building := by
    rw [SharedView.getBuildState, found, Option.map_some, underway]
  obtain ⟨ready, held, successes⟩ := SharedView.isBuildable_iff.mp (done drvId (.marked marked))
  cases found.symm.trans held
  intro dependency member
  exact Option.map_eq_some_iff.mp (successes dependency member)

/-- Two queued drvs: 1 depends on 0. -/
def pairDatabase : Database Nat :=
  Database.empty.insertDrvsAndReferences [.plain 0 .queued, .plain 1 .queued] [(1, 0)]

/-- The dependency is built, then its dependent is started. -/
def buildInOrder : List (Action Nat) :=
  [.submit (.checkBuildable 0), .ingest true, .applyCommand 0, .sendBuild true,
    .dispatch (.plain 0 .queued) 0, .pickUp 0 true, .applyCommand 0,
    .finish 0 0 (.completed .success), .record true, .applyCommand 0, .applyCommand 0,
    .recordReply [] [(1, true)], .ingest true, .applyCommand 0, .sendBuild true,
    .dispatch (.plain 1 .queued) 0, .pickUp 0 true]

theorem buildInOrder_dependencies_done : ∃ final,
    RunsFrom soloBuilders pairDatabase 2 (by decide) 0 keepsDependenciesDone buildInOrder final ∧
    ∃ node, final.view.get 1 = some node ∧ node.buildState = .building ∧
      ∀ dependency ∈ node.dependencies, ∃ other,
        final.view.get dependency = some other ∧ other.buildState = .completed .success := by
  refine exists_run_of_checkRun_imp (p := fun final => final.view.getBuildState 1 = some .building) (by decide)
    fun final run underway => ?_
  obtain ⟨node, found, underway⟩ := Option.map_eq_some_iff.mp underway
  exact ⟨node, found, underway,
    dependencies_done_of_building soloBuilders pairDatabase 2 (by decide) 0 run found underway⟩

/-- Three queued drvs in a chain: 2 depends on 1, and 1 on 0. -/
def chainDatabase : Database Nat :=
  Database.empty.insertDrvsAndReferences
    [.plain 0 .queued, .plain 1 .queued, .plain 2 .queued] [(1, 0), (2, 1)]

/-- A checked drv goes to a builder. -/
def startOn (builder : Nat) (request : Drv Nat) : List (Action Nat) :=
  [.applyCommand 0, .sendBuild true, .dispatch request builder]

/-- A build succeeds and is recorded, and the drv that needs it is checked. -/
def succeedOn (builder drvId dependent : Nat) : List (Action Nat) :=
  [.finish builder drvId (.completed .success), .record true, .applyCommand 0, .applyCommand 0,
    .recordReply [] [(dependent, true)], .ingest true]

/-- Drv 0 is offered by a sweep, and again by the next one while it waits, and two
builders pick it up. When the second build of it is recorded, drv 1 is made
buildable again while 2 is already building on it. -/
def builtTwice : List (Action Nat) :=
  [.sweep [0], .sweepNext true] ++ startOn 0 (.plain 0 .queued) ++
    [.sweep [0], .sweepNext true] ++ startOn 1 (.plain 0 .buildable) ++
    [.pickUp 0 true, .applyCommand 0, .pickUp 1 true, .applyCommand 0] ++ succeedOn 0 0 1 ++
    startOn 0 (.plain 1 .queued) ++ [.pickUp 0 true, .applyCommand 0] ++ succeedOn 0 1 2 ++
    startOn 0 (.plain 2 .queued) ++ [.pickUp 0 true, .applyCommand 0] ++ succeedOn 1 0 1 ++ [.applyCommand 0]

theorem builtTwice_dependency_unfinished : ∃ final,
    AnyRun (step soloBuilders) (start chainDatabase 3 (by decide) 0) builtTwice final ∧
    final.view.getBuildState 2 = some .building ∧ final.view.isBuildable 2 = false ∧
    final.view.getBuildState 1 = some .buildable :=
  exists_run_of_exec (by decide)

end System

end EkaCI
