import EkaCI.Scheduler.KnownDrvs

/-! The life of one drv: what the services hold of it, and what a step can do to
that. Over a fixed set of drvs a step does at most one thing to a drv, so facts
about a drv's whole history are proved by cases on these happenings. -/

namespace EkaCI

open Lib

variable {DrvId : Type} [DecidableEq DrvId]

/-- What the services hold of one drv. -/
structure Life where
  /-- Its state in the shared view. -/
  view : Option DrvBuildState
  /-- Its state in the database. -/
  row : Option DrvBuildState
  /-- The states that the graph is still to be told. -/
  updates : List DrvBuildState
  /-- The results that the recorder is still to handle. -/
  results : List DrvBuildState
  /-- How many of its builds are unfinished. -/
  running : Nat
  /-- How often it has been picked up. -/
  starts : Nat
  /-- The states that the recorder has written, in order. -/
  outcomes : List DrvBuildState

def GraphCommand.updateOf (drvId : DrvId) : GraphCommand DrvId → Option DrvBuildState
  | .updateState updated newState => if updated = drvId then some newState else none
  | _ => none

def RecorderTask.resultOf (drvId : DrvId) (task : RecorderTask DrvId) : Option DrvBuildState :=
  if task.derivation = drvId then some task.result else none

def Event.outcomeOf (drvId : DrvId) : Event DrvId → Option DrvBuildState
  | .recorded settled state => if settled = drvId then some state else none
  | _ => none

namespace System

def lifeOf (system : System DrvId) (drvId : DrvId) : Life where
  view := system.view.getBuildState drvId
  row := system.db.rowState drvId
  updates := system.graphQueue.filterMap fun entry => entry.1.updateOf drvId
  results := system.recorderQueue.filterMap (RecorderTask.resultOf drvId)
  running := (system.attempts.map Prod.snd).count drvId
  starts := system.log.count (.pickedUp drvId)
  outcomes := system.log.filterMap (Event.outcomeOf drvId)

theorem mem_outcomes {system : System DrvId} {drvId : DrvId} {state : DrvBuildState} :
    state ∈ (system.lifeOf drvId).outcomes ↔ .recorded drvId state ∈ system.log := by
  simp only [lifeOf, List.mem_filterMap]
  constructor
  · rintro ⟨event, member, named⟩
    cases event with
    | recorded settled written =>
      simp only [Event.outcomeOf] at named
      split at named
      · rename_i same
        cases named
        exact same ▸ member
      · cases named
    | _ => cases named
  · intro member
    exact ⟨_, member, by simp [Event.outcomeOf]⟩

theorem starts_pos {system : System DrvId} {drvId : DrvId} :
    0 < (system.lifeOf drvId).starts ↔ .pickedUp drvId ∈ system.log :=
  List.count_pos_iff

def checkedDrv (system : System DrvId) : Action DrvId → Option DrvId
  | .ingest _ => match system.ingress, system.sweepRest, system.ingressQueue with
    | .idle, [], .checkBuildable drvId :: _ => some drvId
    | _, _, _ => none
  | .dryRunDone report _ => match system.ingress, report with
    | .dryRun drvId false, none => some drvId
    | .dryRun drvId false, some found => if drvId ∈ found.willBuild then some drvId else none
    | _, _ => none
  | .sweepNext _ => system.sweepRest.head?
  | _ => none

theorem CheckSource.checkedDrv {system base : System DrvId} {action : Action DrvId} {drvId : DrvId} {room : Bool}
    (source : CheckSource system action drvId room base) : system.checkedDrv action = some drvId := by
  cases source with
  | ingest idle swept head => simp [System.checkedDrv, idle, swept, head]
  | @dryRun _ _ report phase needed =>
    cases report with
    | none => simp [System.checkedDrv, phase]
    | some found => simp [System.checkedDrv, phase, needed found rfl]
  | sweep idle head => simp [System.checkedDrv, head]

/-- What a step can do to a drv. -/
inductive Happens (config : SchedulerConfig) (system : System DrvId) (action : Action DrvId) (drvId : DrvId) :
    Life → Prop where
  | nothing : Happens config system action drvId (system.lifeOf drvId)
  /-- Results other than those of builds: it is cached, or nobody can build it. -/
  | reported {results : List DrvBuildState}
      (early : ∀ result ∈ results, result = .completed .success ∨ result = .unsatisfiableRequirements) :
      Happens config system action drvId
        { system.lifeOf drvId with results := (system.lifeOf drvId).results ++ results }
  /-- A check finds it ready. -/
  | announced {node : CachedNode DrvId} (checked : system.checkedDrv action = some drvId)
      (ready : system.view.isBuildable drvId = true) (found : system.view.get drvId = some node)
      (can : config.builderFeatures.canBuild node.requiredSystemFeatures = true)
      (unspent : node.buildState ≠ .failedRetry) :
      Happens config system action drvId
        { system.lifeOf drvId with updates := (system.lifeOf drvId).updates ++ [.buildable] }
  /-- Nix says that nothing but it is left to build. -/
  | shortCut {report : DryRunReport DrvId} {room : Bool} (done : action = .dryRunDone (some report) room)
      (phase : system.ingress = .dryRun drvId false) (only : report.willBuild = {drvId}) :
      Happens config system action drvId { system.lifeOf drvId with
        view := (system.lifeOf drvId).view.map fun _ => .buildable }
  | updated {state : DrvBuildState} {later : List DrvBuildState}
      (first : (system.lifeOf drvId).updates = state :: later) :
      Happens config system action drvId { system.lifeOf drvId with
        view := (system.lifeOf drvId).view.map fun _ => state
        row := (system.lifeOf drvId).row.map fun _ => state
        updates := later }
  | blocked {now : Instant} {failedDrv : DrvId} {caller : Caller} (applies : action = .applyCommand now)
      (head : system.graphQueue.head? = some (.propagateFailure failedDrv, caller))
      (dependent : system.service.graph.StrictDependent failedDrv drvId) :
      Happens config system action drvId { system.lifeOf drvId with
        view := (system.lifeOf drvId).view.map fun _ => .transitiveFailure
        row := (system.lifeOf drvId).row.map fun _ => .transitiveFailure }
  | unblocked {now : Instant} {formerlyFailed : DrvId} {caller : Caller} (applies : action = .applyCommand now)
      (head : system.graphQueue.head? = some (.clearFailure formerlyFailed, caller))
      (freed : drvId ∈ (system.service.graph.clearFailure formerlyFailed).1) :
      Happens config system action drvId { system.lifeOf drvId with
        view := (system.lifeOf drvId).view.map fun _ => .queued }
  /-- The recorder writes down that it is blocked. -/
  | persisted {failedDrv : DrvId} {blocked : List DrvId} {unblocked referrers : List (DrvId × Bool)}
      (replies : action = .recordReply unblocked referrers)
      (phase : system.recorder = .propagated failedDrv blocked) (member : drvId ∈ blocked) :
      Happens config system action drvId { system.lifeOf drvId with
        row := (system.lifeOf drvId).row.map fun _ => .transitiveFailure }
  | started {builder : Nat} {request : Drv DrvId} {room : Bool} (picks : action = .pickUp builder room)
      (head : (system.builderQueues builder).head? = some request) (named : request.drvPath = drvId)
      (unfinished : ∀ state, (system.lifeOf drvId).view = some state → state.isTerminal = false) :
      Happens config system action drvId { system.lifeOf drvId with
        view := (system.lifeOf drvId).view.map fun _ => .building
        updates := (system.lifeOf drvId).updates ++ if room then [.building] else []
        running := (system.lifeOf drvId).running + 1
        starts := (system.lifeOf drvId).starts + 1 }
  | finished {builder : Nat} {outcome : DrvBuildState} {others : Nat}
      (ends : action = .finish builder drvId outcome) (valid : isBuildOutcome outcome = true)
      (running : (system.lifeOf drvId).running = others + 1) :
      Happens config system action drvId { system.lifeOf drvId with
        running := others
        results := (system.lifeOf drvId).results ++ [outcome] }
  | ignored {room : Bool} {result : DrvBuildState} {later : List DrvBuildState} (records : action = .record room)
      (head : system.recorderQueue.head? = some ⟨drvId, result⟩)
      (first : (system.lifeOf drvId).results = result :: later)
      (stale : recordDecision (system.lifeOf drvId).row result = none) :
      Happens config system action drvId { system.lifeOf drvId with results := later }
  | settled {room : Bool} {result state : DrvBuildState} {followUp : FollowUp} {later : List DrvBuildState}
      (records : action = .record room) (head : system.recorderQueue.head? = some ⟨drvId, result⟩)
      (first : (system.lifeOf drvId).results = result :: later)
      (decided : Decided (system.lifeOf drvId).row result state followUp) :
      Happens config system action drvId { system.lifeOf drvId with
        view := (system.lifeOf drvId).view.map fun _ => state
        row := (system.lifeOf drvId).row.map fun _ => state
        updates := (system.lifeOf drvId).updates ++ if room then [state] else []
        results := later
        outcomes := (system.lifeOf drvId).outcomes ++ [state] }

section Step

variable {config : SchedulerConfig} {system next : System DrvId} {action : Action DrvId}

private theorem popped_attempts {builder : Nat} {finished : DrvId} (drvId : DrvId)
    {attempts : List (Nat × DrvId)} (running : (builder, finished) ∈ attempts) :
    (attempts.map Prod.snd).count drvId =
      ((attempts.erase (builder, finished)).map Prod.snd).count drvId + if finished = drvId then 1 else 0 := by
  have split := (List.perm_cons_erase running).map Prod.snd
  rw [split.count_eq, List.map_cons, List.count_cons]
  simp

theorem lifeOf_send (command : GraphCommand DrvId) (caller : Caller) (drvId : DrvId) :
    (system.send command caller).lifeOf drvId = { system.lifeOf drvId with
      updates := (system.lifeOf drvId).updates ++ (command.updateOf drvId).toList } := by
  simp only [lifeOf, send, List.filterMap_append, Life.mk.injEq, and_true]
  refine ⟨rfl, rfl, ?_⟩
  cases found : command.updateOf drvId <;> simp [found]

theorem lifeOf_report (tasks : List (RecorderTask DrvId)) (drvId : DrvId) :
    (system.report tasks).lifeOf drvId = { system.lifeOf drvId with
      results := (system.lifeOf drvId).results ++ tasks.filterMap (RecorderTask.resultOf drvId) } := by
  simp only [lifeOf, report, List.filterMap_append]
  rfl

theorem lifeOf_trySendUpdate (updated : DrvId) (state : DrvBuildState) (room : Bool) (drvId : DrvId) :
    (system.trySendUpdate updated state room).lifeOf drvId = { system.lifeOf drvId with
      updates := (system.lifeOf drvId).updates ++
        if room ∧ updated = drvId then [state] else [] } := by
  cases room with
  | false => simp [lifeOf, trySendUpdate, view, db]
  | true =>
    by_cases same : updated = drvId <;>
      simp [lifeOf, trySendUpdate, view, db, GraphCommand.updateOf, same]

theorem lifeOf_settle (settled : DrvId) (state : DrvBuildState) (room : Bool) (drvId : DrvId) :
    (system.settle settled state room).lifeOf drvId =
      if settled = drvId then
        { system.lifeOf drvId with
          view := (system.lifeOf drvId).view.map fun _ => state
          row := (system.lifeOf drvId).row.map fun _ => state
          updates := (system.lifeOf drvId).updates ++ if room then [state] else []
          outcomes := (system.lifeOf drvId).outcomes ++ [state] }
      else system.lifeOf drvId := by
  have viewed := @SharedView.setState_getBuildState _ _ system.view settled drvId state
  have written := @Database.updateDrvStatus_rowState _ _ system.db settled drvId state
  rw [settle, lifeOf_trySendUpdate]
  by_cases same : settled = drvId
  · subst same
    simp [lifeOf, view, db, Event.outcomeOf] at *
    exact ⟨viewed, written⟩
  · simp [lifeOf, view, db, Event.outcomeOf, same, Ne.symm same] at *
    exact ⟨viewed, written⟩

theorem lifeOf_follow (settled : DrvId) (followUp : FollowUp) (drvId : DrvId) :
    (system.follow settled followUp).lifeOf drvId = system.lifeOf drvId := by
  cases followUp with
  | retry => rfl
  | propagate => simp [follow, lifeOf, send, view, db, GraphCommand.updateOf]
  | clear =>
    simp [follow, lifeOf, send, view, db, GraphCommand.updateOf, Database.clearTransitiveFailures_rowState]

variable {drvId : DrvId}

theorem Checked.happens {checkedId : DrvId} {room : Bool} {base : System DrvId}
    (source : CheckSource system action checkedId room base)
    (checked : Checked config base checkedId room next) :
    Happens config system action drvId (next.lifeOf drvId) := by
  have life : base.lifeOf drvId = system.lifeOf drvId := by cases source <;> rfl
  have seen : base.view = system.view := by cases source <;> rfl
  cases checked with
  | skip => exact life ▸ .nothing
  | unsatisfiable =>
    rw [lifeOf_report, life]
    refine .reported fun result member => ?_
    obtain ⟨task, single, named⟩ := List.mem_filterMap.mp member
    rw [List.mem_singleton.mp single, RecorderTask.resultOf] at named
    split at named
    · exact .inr (Option.some.inj named).symm
    · cases named
  | @retry node =>
    have same : (base.offerBuild checkedId node room).lifeOf drvId = system.lifeOf drvId := life
    rw [same]
    exact .nothing
  | @update node ready found can unspent =>
    have sent : (base.send (.updateState checkedId .buildable) .ingress).lifeOf drvId =
      { system.lifeOf drvId with updates := (system.lifeOf drvId).updates ++
          ((GraphCommand.updateState checkedId .buildable).updateOf drvId).toList } := by
      rw [lifeOf_send, life]
    by_cases same : checkedId = drvId
    · subst same
      simp only [GraphCommand.updateOf, if_true, Option.toList_some] at sent
      have happened : Happens config system action checkedId _ :=
        .announced source.checkedDrv (seen ▸ ready) (seen ▸ found) can unspent
      exact sent ▸ happened
    · simp only [GraphCommand.updateOf, if_neg same, Option.toList_none, List.append_nil] at sent
      have happened : Happens config system action drvId (system.lifeOf drvId) := .nothing
      exact sent ▸ happened

theorem lifeOf_applyCommand {now : Instant} {command : GraphCommand DrvId} {caller : Caller}
    {rest : List (GraphCommand DrvId × Caller)} :
    ({ system with graphQueue := rest }.applyCommand now command caller).lifeOf drvId =
      { system.lifeOf drvId with
        view := (system.service.handleCommand now command).2.sharedView.getBuildState drvId
        row := (system.service.handleCommand now command).2.db.rowState drvId
        updates := rest.filterMap fun entry => entry.1.updateOf drvId } := by
  rw [← GraphService.process_view, ← GraphService.process_db]
  cases command <;> simp [lifeOf, applyCommand, view, db, Event.outcomeOf]

theorem happens_of_apply {now : Instant} {command : GraphCommand DrvId} {caller : Caller}
    {rest : List (GraphCommand DrvId × Caller)} (head : system.graphQueue = (command, caller) :: rest)
    (change : command.isStateChange = true) :
    Happens config system (.applyCommand now) drvId
      (({ system with graphQueue := rest }.applyCommand now command caller).lifeOf drvId) := by
  have first : (system.lifeOf drvId).updates =
      (command.updateOf drvId).toList ++ rest.filterMap fun entry => entry.1.updateOf drvId := by
    simp only [lifeOf, head, List.filterMap_cons]
    cases command.updateOf drvId <;> rfl
  rw [lifeOf_applyCommand]
  cases command with
  | updateState updated newState =>
    have viewed := @SharedView.setState_getBuildState _ _ system.view updated drvId newState
    have written := @Database.updateDrvStatus_rowState _ _ system.db updated drvId newState
    simp only [GraphService.handleCommand, GraphService.updateState]
    rw [← view, ← db, viewed, written]
    by_cases same : updated = drvId
    · subst same
      rw [if_pos rfl, if_pos rfl]
      simp only [GraphCommand.updateOf, if_true, Option.toList_some] at first
      exact .updated first
    · rw [if_neg (Ne.symm same), if_neg (Ne.symm same)]
      simp only [GraphCommand.updateOf, if_neg same, Option.toList_none, List.nil_append] at first
      exact first ▸ .nothing
  | propagateFailure failedDrv =>
    have kept : (system.lifeOf drvId).updates = rest.filterMap fun entry => entry.1.updateOf drvId := first
    rw [GraphService.handleCommand, GraphService.propagateFailure_row, SharedView.getBuildState,
      GraphService.propagateFailure_view, ← kept]
    by_cases dependent : system.service.graph.StrictDependent failedDrv drvId
    · rw [if_pos dependent, if_pos dependent, Option.map_map]
      have happened : Happens config system (.applyCommand now) drvId _ :=
        .blocked rfl (by rw [head]; rfl) dependent
      simp only [lifeOf, view, SharedView.getBuildState, Option.map_map] at happened ⊢
      exact happened
    · rw [if_neg dependent, if_neg dependent]
      exact .nothing
  | clearFailure formerlyFailed =>
    have kept : (system.lifeOf drvId).updates = rest.filterMap fun entry => entry.1.updateOf drvId := first
    rw [GraphService.handleCommand, SharedView.getBuildState, GraphService.clearFailure_view, ← kept]
    by_cases freed : drvId ∈ (system.service.graph.clearFailure formerlyFailed).1
    · rw [if_pos freed, Option.map_map]
      have happened : Happens config system (.applyCommand now) drvId _ :=
        .unblocked rfl (by rw [head]; rfl) freed
      simp only [lifeOf, view, SharedView.getBuildState, Option.map_map] at happened ⊢
      exact happened
    · rw [if_neg freed]
      exact .nothing
  | _ => cases change

theorem results_of_head {task : RecorderTask DrvId} {rest : List (RecorderTask DrvId)}
    (head : system.recorderQueue = task :: rest) (drvId : DrvId) :
    (system.lifeOf drvId).results =
      if task.derivation = drvId then task.result :: rest.filterMap (RecorderTask.resultOf drvId)
      else rest.filterMap (RecorderTask.resultOf drvId) := by
  simp only [lifeOf, head, List.filterMap_cons, RecorderTask.resultOf]
  split <;> rename_i found <;> split at found <;> simp_all

theorem happens_of_transition (known : system.KnownDrvs) (keeps : action.keepsDrvs = true)
    (transition : Transition config system action next) (drvId : DrvId) :
    Happens config system action drvId (next.lifeOf drvId) := by
  cases transition with
  | submitDrvs | query => cases keeps
  | check source checked => exact checked.happens source
  | substitute phase cached =>
    rw [substitute, lifeOf_report]
    refine .reported fun result member => ?_
    obtain ⟨task, inside, named⟩ := List.mem_filterMap.mp member
    obtain ⟨cachedId, -, made⟩ := List.mem_map.mp inside
    rw [← made, RecorderTask.resultOf] at named
    split at named
    · exact .inl (Option.some.inj named).symm
    · cases named
  | @shortCut cutId room report node phase only found =>
    have viewed := @SharedView.setState_getBuildState _ _ system.view cutId drvId .buildable
    by_cases same : cutId = drvId
    · subst same
      rw [if_pos rfl] at viewed
      have happened : Happens config system (.dryRunDone (some report) room) cutId _ := .shortCut rfl phase only
      simp only [lifeOf, view, db] at happened viewed ⊢
      exact viewed ▸ happened
    · rw [if_neg (Ne.symm same)] at viewed
      simp only [lifeOf, view, db] at viewed ⊢
      exact viewed ▸ .nothing
  | apply head => exact happens_of_apply head (known.commands _ (head ▸ List.mem_cons_self ..))
  | reject waiting =>
    rw [lifeOf_report]
    refine .reported fun result member => ?_
    obtain ⟨task, single, named⟩ := List.mem_filterMap.mp member
    rw [List.mem_singleton.mp single, RecorderTask.resultOf] at named
    split at named
    · exact .inr (Option.some.inj named).symm
    · cases named
  | @startBuild builder request rest room head unfinished =>
    have viewed := @SharedView.setState_getBuildState _ _ system.view request.drvPath drvId .building
    rw [lifeOf_trySendUpdate]
    by_cases same : request.drvPath = drvId
    · subst same
      rw [if_pos rfl] at viewed
      have happened : Happens config system (.pickUp builder room) request.drvPath _ :=
        .started rfl (by rw [head]; rfl) rfl unfinished
      simp only [lifeOf, view, db, List.map_append, List.count_append, List.filterMap_append] at happened viewed ⊢
      simpa [viewed, Event.outcomeOf, List.filterMap_cons] using happened
    · rw [if_neg (Ne.symm same)] at viewed
      simp only [lifeOf, view, db, List.map_append, List.count_append, List.filterMap_append] at viewed ⊢
      have happened : Happens config system (.pickUp builder room) drvId (system.lifeOf drvId) := .nothing
      simpa [viewed, Event.outcomeOf, List.filterMap_cons, same, lifeOf, view, db] using happened
  | @finish builder finished outcome running valid =>
    have counted := popped_attempts drvId running
    rw [lifeOf_report]
    by_cases same : finished = drvId
    · subst same
      rw [if_pos rfl] at counted
      have happened : Happens config system (.finish builder finished outcome) finished _ :=
        .finished rfl valid counted
      simpa [lifeOf, view, db, RecorderTask.resultOf] using happened
    · rw [if_neg same, Nat.add_zero] at counted
      have happened : Happens config system (.finish builder finished outcome) drvId (system.lifeOf drvId) :=
        .nothing
      simpa [lifeOf, view, db, RecorderTask.resultOf, same, counted] using happened
  | @recordIgnore task rest room idle head ignored =>
    have first := results_of_head head drvId
    by_cases same : task.derivation = drvId
    · subst same
      rw [if_pos rfl] at first
      exact .ignored rfl (by rw [head]; rfl) first ignored
    · rw [if_neg same] at first
      have life : ({ system with recorderQueue := rest } : System DrvId).lifeOf drvId = system.lifeOf drvId := by
        rw [lifeOf, ← first]
        rfl
      exact life ▸ .nothing
  | @recordSettle task rest room state followUp idle head decided =>
    have first := results_of_head head drvId
    rw [lifeOf_follow, lifeOf_settle]
    by_cases same : task.derivation = drvId
    · subst same
      rw [if_pos rfl] at first ⊢
      exact .settled rfl (by rw [head]; rfl) first (decided_of_recordDecision decided)
    · rw [if_neg same] at first ⊢
      have life : ({ system with recorderQueue := rest } : System DrvId).lifeOf drvId = system.lifeOf drvId := by
        rw [lifeOf, ← first]
        rfl
      exact life ▸ .nothing
  | @replyPropagated failedDrv blocked unblockedChecks referrerChecks phase =>
    have written : (system.replyPropagated failedDrv blocked).db.rowState drvId =
        if drvId ∈ blocked then (system.db.rowState drvId).map fun _ => .transitiveFailure
        else system.db.rowState drvId := by
      rw [replyPropagated_db, Database.insertTransitiveFailures_rowState]
    by_cases member : drvId ∈ blocked
    · rw [if_pos member] at written
      have happened : Happens config system (.recordReply unblockedChecks referrerChecks) drvId _ :=
        .persisted rfl phase member
      rw [lifeOf, written]
      exact happened
    · rw [if_neg member] at written
      rw [lifeOf, written]
      exact .nothing
  | _ => exact .nothing

end Step

/-- A drv that is done: nothing but its final state is seen or on its way to the
graph, and its row is one of those that are final for it. -/
structure Done (final : DrvBuildState) (rows : DrvBuildState → Prop) (life : Life) : Prop where
  view : life.view = none ∨ life.view = some final
  row : ∃ state, life.row = some state ∧ rows state
  updates : ∀ state ∈ life.updates, state = final

/-- A step leaves a drv that is done alone: it neither checks it again nor takes
the short-cut for it, and blocks and unblocks it only where that changes nothing. -/
structure Undisturbed (config : SchedulerConfig) (system : System DrvId) (action : Action DrvId) (drvId : DrvId)
    (final : DrvBuildState) (rows : DrvBuildState → Prop) : Prop where
  unchecked : ∀ node, system.checkedDrv action = some drvId → system.view.isBuildable drvId = true →
    system.view.get drvId = some node → config.builderFeatures.canBuild node.requiredSystemFeatures = true →
    (system.lifeOf drvId).view ≠ some final
  uncut : ∀ report room, action = .dryRunDone (some report) room → system.ingress = .dryRun drvId false →
    report.willBuild = {drvId} → (system.lifeOf drvId).view ≠ some final
  unblocked : ∀ now failedDrv caller, action = .applyCommand now →
    system.graphQueue.head? = some (.propagateFailure failedDrv, caller) →
    system.service.graph.StrictDependent failedDrv drvId →
    (system.lifeOf drvId).view ≠ some final ∧ rows .transitiveFailure
  uncleared : ∀ now formerlyFailed caller, action = .applyCommand now →
    system.graphQueue.head? = some (.clearFailure formerlyFailed, caller) →
    drvId ∈ (system.service.graph.clearFailure formerlyFailed).1 → (system.lifeOf drvId).view ≠ some final
  unwritten : ∀ unblocked referrers failedDrv blocked, action = .recordReply unblocked referrers →
    system.recorder = .propagated failedDrv blocked → drvId ∈ blocked → rows .transitiveFailure
  recorded : ∀ room result state followUp, action = .record room →
    system.recorderQueue.head? = some ⟨drvId, result⟩ →
    Decided (system.lifeOf drvId).row result state followUp → state = final

section Done

variable {config : SchedulerConfig} {system : System DrvId} {action : Action DrvId} {drvId : DrvId} {life : Life}
  {final : DrvBuildState} {rows : DrvBuildState → Prop}

theorem Done.map_view (done : Done final rows life) {state : DrvBuildState}
    (unseen : life.view = some final → state = final) :
    life.view.map (fun _ => state) = none ∨ life.view.map (fun _ => state) = some final := by
  rcases done.view with none | seen
  · exact .inl (by rw [none]; rfl)
  · exact .inr (by rw [seen, Option.map_some, unseen seen])

theorem Done.map_row (done : Done final rows life) {state : DrvBuildState} (allowed : rows state) :
    ∃ written, life.row.map (fun _ => state) = some written ∧ rows written := by
  obtain ⟨earlier, found, -⟩ := done.row
  exact ⟨state, by rw [found]; rfl, allowed⟩

theorem Done.happens (known : system.KnownDrvs) (done : Done final rows (system.lifeOf drvId))
    (terminal : final.isTerminal = true) (allowed : rows final)
    (undisturbed : Undisturbed config system action drvId final rows)
    (happens : Happens config system action drvId life) : Done final rows life := by
  cases happens with
  | nothing => exact done
  | reported => exact ⟨done.view, done.row, done.updates⟩
  | announced checked ready found can =>
    have seen : (system.lifeOf drvId).view = some _ := congrArg (Option.map _) found
    rcases done.view with none | success
    · cases none.symm.trans seen
    · exact absurd success (undisturbed.unchecked _ checked ready found can)
  | shortCut cut phase only =>
    exact ⟨done.map_view fun seen => absurd seen (undisturbed.uncut _ _ cut phase only), done.row, done.updates⟩
  | @updated state later first =>
    have same := done.updates state (first ▸ List.mem_cons_self ..)
    refine ⟨done.map_view fun _ => same, done.map_row (same ▸ allowed), fun other member => ?_⟩
    exact done.updates other (first ▸ List.mem_cons_of_mem _ member)
  | blocked applies head dependent =>
    obtain ⟨unseen, row⟩ := undisturbed.unblocked _ _ _ applies head dependent
    exact ⟨done.map_view fun seen => absurd seen unseen, done.map_row row, done.updates⟩
  | unblocked applies head freed =>
    exact ⟨done.map_view fun seen => absurd seen (undisturbed.uncleared _ _ _ applies head freed),
      done.row, done.updates⟩
  | persisted replies phase member =>
    exact ⟨done.view, done.map_row (undisturbed.unwritten _ _ _ _ replies phase member), done.updates⟩
  | @started builder request room picks head named unfinished =>
    have present := known.given builder request (List.mem_of_mem_head? head)
    obtain ⟨node, found⟩ := Table.get_of_mem_keys (named ▸ present)
    have seen : (system.lifeOf drvId).view = some _ := congrArg (Option.map _) found
    rcases done.view with none | same
    · cases none.symm.trans seen
    · cases terminal.symm.trans (unfinished _ same)
  | finished | ignored => exact ⟨done.view, done.row, done.updates⟩
  | settled records head first decided =>
    have same := undisturbed.recorded _ _ _ _ records head decided
    subst same
    refine ⟨done.map_view fun _ => rfl, done.map_row allowed, fun other member => ?_⟩
    rcases List.mem_append.mp member with earlier | added
    · exact done.updates other earlier
    · split at added
      · exact List.mem_singleton.mp added
      · cases added

end Done

end System

end EkaCI
