import EkaCI.Graph.Insertion
import EkaCI.Scheduler.Transition

/-! At most one build of a drv at a time. Nothing keeps two requests for a drv
apart but the mark that the first pick-up leaves in the shared view, and a
pick-up does not look for it. -/

namespace EkaCI.System

open Lib

variable {DrvId : Type} [DecidableEq DrvId]

/-- The drvs with an unfinished build, once for each build. -/
def building (system : System DrvId) : List DrvId := system.attempts.map Prod.snd

/-- The mark of a drv under build is respected: a pick-up finds its drv in the
view and not marked, and no step takes the mark off while the build runs. -/
def respectsBuildingMark (system : System DrvId) : Action DrvId → Bool
  | .pickUp builder _ => match system.builderQueues builder with
    | [] => true
    | request :: _ => match system.view.getBuildState request.drvPath with
      | none => false
      | some state => state ≠ .building
  | .applyCommand _ => match system.graphQueue with
    | [] => true
    | (command, _) :: _ => system.service.keepsStates (· ∈ system.building) .building command
  | .dryRunDone (some report) _ => match system.ingress with
    | .dryRun drvId false => report.willBuild ≠ {drvId} || drvId ∉ system.building
    | _ => true
  | .record _ => match system.recorderQueue with
    | [] => true
    | task :: _ => recordDecision (system.db.rowState task.derivation) task.result = none ||
      task.derivation ∉ system.building
  | _ => true

structure BuildsMarked (system : System DrvId) : Prop where
  distinct : system.building.Nodup
  marked : ∀ drvId ∈ system.building, system.view.getBuildState drvId = some .building

variable {system next : System DrvId} {drvId : DrvId}

theorem BuildsMarked.setState (valid : system.BuildsMarked) (free : drvId ∉ system.building) (state : DrvBuildState) :
    ∀ other ∈ system.building, (system.view.setState drvId state).getBuildState other = some .building := by
  intro other member
  have different : other ≠ drvId := fun same => free (same ▸ member)
  rw [SharedView.setState_getBuildState, if_neg different]
  exact valid.marked other member

omit [DecidableEq DrvId] in
theorem BuildsMarked.congr (attempts : next.attempts = system.attempts) (view : next.view = system.view)
    (valid : system.BuildsMarked) : next.BuildsMarked := by
  have same : next.building = system.building := by rw [building, attempts, building]
  exact ⟨same ▸ valid.distinct, fun drvId member => view ▸ valid.marked drvId (same ▸ member)⟩

omit [DecidableEq DrvId] in
theorem SendsOnly.buildsMarked (sends : SendsOnly system next) (valid : system.BuildsMarked) : next.BuildsMarked :=
  valid.congr sends.attempts (congrArg GraphService.sharedView sends.service)

theorem BuildsMarked.startBuild (valid : system.BuildsMarked) {state : DrvBuildState}
    (seen : system.view.getBuildState drvId = some state) (unmarked : state ≠ .building) :
    (system.building ++ [drvId]).Nodup ∧ ∀ other ∈ system.building ++ [drvId],
      (system.view.setState drvId .building).getBuildState other = some .building := by
  have free : drvId ∉ system.building := by
    intro member
    have marked := valid.marked drvId member
    rw [seen] at marked
    exact unmarked (Option.some.inj marked)
  constructor
  · rw [List.nodup_append]
    refine ⟨valid.distinct, List.nodup_singleton drvId, ?_⟩
    intro other member single found
    rw [List.mem_singleton] at found
    exact fun same => free (found ▸ same ▸ member)
  · intro other member
    rcases mem_snoc.mp member with earlier | added
    · exact valid.setState free .building other earlier
    · rw [added, SharedView.setState_getBuildState, if_pos rfl, seen]
      rfl

theorem BuildsMarked.step {config : SchedulerConfig} {action : Action DrvId} (valid : system.BuildsMarked)
    (meets : system.respectsBuildingMark action = true) (taken : system.step config action = some next) :
    next.BuildsMarked := by
  cases transition_of_step taken with
  | check source checked =>
    cases source <;> exact checked.sendsOnly.buildsMarked ⟨valid.distinct, valid.marked⟩
  | shortCut phase only found =>
    simp only [respectsBuildingMark, phase, only, ne_eq, not_true_eq_false, decide_false, Bool.false_or,
      decide_eq_true_eq] at meets
    exact ⟨valid.distinct, valid.setState meets .buildable⟩
  | apply head =>
    simp only [respectsBuildingMark, head] at meets
    refine ⟨valid.distinct, fun drvId member => ?_⟩
    exact GraphService.process_state_of_keepsStates meets (decide_eq_true member) (valid.marked drvId member)
  | @startBuild builder request rest room head unfinished =>
    simp only [respectsBuildingMark, head] at meets
    split at meets
    · cases meets
    · rename_i state seen
      have started := valid.startBuild seen (of_decide_eq_true meets)
      have grown : (system.attempts ++ [(builder, request.drvPath)]).map Prod.snd =
          system.building ++ [request.drvPath] := List.map_append
      rw [← grown] at started
      exact ⟨started.1, started.2⟩
  | @finish builder drvId outcome running _ =>
    have fewer := (List.erase_sublist (a := (builder, drvId)) (l := system.attempts)).map Prod.snd
    exact ⟨valid.distinct.sublist fewer, fun drvId member => valid.marked drvId (fewer.subset member)⟩
  | recordSettle _ head decided =>
    simp only [respectsBuildingMark, head, decided, reduceCtorEq, decide_false, Bool.false_or,
      decide_eq_true_eq] at meets
    have written := valid.setState meets
    exact BuildsMarked.congr (follow_followsUp ..).attempts (follow_followsUp ..).view
      ⟨valid.distinct, written _⟩
  | _ => exact ⟨valid.distinct, valid.marked⟩

/-- In a run that respects the mark, no drv has more than one unfinished build. -/
theorem building_count_le_one (config : SchedulerConfig) (db : Database DrvId) (capacity : Nat)
    (positive : 0 < capacity) (now : Instant) {actions : List (Action DrvId)} {final : System DrvId}
    (run : RunsFrom config db capacity positive now respectsBuildingMark actions final) (drvId : DrvId) :
    final.building.count drvId ≤ 1 := by
  have valid : final.BuildsMarked := by
    refine run.invariant ⟨List.nodup_nil, List.forall_mem_nil _⟩ ?_
    intro system action next valid meets taken
    exact valid.step meets taken
  exact List.nodup_iff_count_le_one.mp valid.distinct drvId

/-- A database with a single drv. -/
def soloDatabase : Database Nat := Database.empty.insertDrvsAndReferences [.plain 0 .queued] []

/-- A check, a build that fails, and the retry it gets. -/
def failAndRetry : List (Action Nat) :=
  [.submit (.checkBuildable 0), .ingest true, .applyCommand 0, .sendBuild true,
    .dispatch (.plain 0 .queued) 0, .pickUp 0 true, .applyCommand 0,
    .finish 0 0 (.completed .failure), .record true, .applyCommand 0,
    .ingest true, .dispatch (.plain 0 .failedRetry) 1, .pickUp 1 true, .applyCommand 0]

theorem failAndRetry_building : ∃ final,
    RunsFrom soloBuilders soloDatabase 1 (by decide) 0 respectsBuildingMark failAndRetry final ∧
    0 ∈ final.building ∧ ∀ drvId, final.building.count drvId ≤ 1 :=
  exists_run_and_of_checkRun (by decide) fun _ run => building_count_le_one soloBuilders soloDatabase 1 (by decide) 0 run

/-- A check and a sweep each send a request, and each request is picked up. -/
def checkAndSweep : List (Action Nat) :=
  [.submit (.checkBuildable 0), .ingest true, .applyCommand 0, .sendBuild true,
    .sweep [0], .sweepNext true, .applyCommand 0, .sendBuild true,
    .dispatch (.plain 0 .queued) 0, .dispatch (.plain 0 .buildable) 1, .pickUp 0 true, .pickUp 1 true]

theorem checkAndSweep_builds_twice : ∃ final,
    AnyRun (step soloBuilders) (start soloDatabase 1 (by decide) 0) checkAndSweep final ∧
    ¬ final.building.count 0 ≤ 1 :=
  exists_run_of_exec (by decide)

end EkaCI.System
