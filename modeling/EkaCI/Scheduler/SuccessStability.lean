import EkaCI.Scheduler.DependencyOrder
import EkaCI.Scheduler.Life

/-! Success is final, as long as nobody checks a finished drv again and no
update of its state is overtaken by the success. -/

namespace EkaCI.System

open Lib

variable {DrvId : Type} [DecidableEq DrvId]

/-- A check of the drv would mark it buildable although it has succeeded. -/
def rechecksSuccess (config : SchedulerConfig) (system : System DrvId) (drvId : DrvId) : Bool :=
  match system.view.get drvId with
  | none => false
  | some node => node.buildState = .completed .success && system.view.isBuildable drvId &&
      config.builderFeatures.canBuild node.requiredSystemFeatures

/-- No step puts a successful drv back to work: none checks it again, takes the
short-cut for it, blocks or unblocks it, and its success is recorded after all
other updates of its state have reached the graph. -/
def keepsSuccess (config : SchedulerConfig) (system : System DrvId) (action : Action DrvId) : Bool :=
  action.keepsDrvs && (match system.checkedDrv action with
    | none => true
    | some drvId => !system.rechecksSuccess config drvId) &&
  match action with
  | .dryRunDone (some report) _ => match system.ingress with
    | .dryRun drvId false => report.willBuild ≠ {drvId} ||
        system.view.getBuildState drvId ≠ some (.completed .success)
    | _ => true
  | .applyCommand _ => match system.graphQueue with
    | [] | (.updateState .., _) :: _ => true
    | (command, _) :: _ => system.service.keepsStates
        (fun drvId => system.view.getBuildState drvId = some (.completed .success)) (.completed .success) command
  | .record _ => match system.recorderQueue with
    | [] => true
    | task :: _ => task.result ≠ .completed .success ||
        (system.lifeOf task.derivation).updates.all (· = .completed .success)
  | _ => true

/-- A finished drv, whose row may come to say that a dependency has failed. -/
abbrev Finished : Life → Prop := Done (.completed .success) (·.isTerminal = true)

/-- Every drv with a row whose success has been recorded is finished. -/
structure SuccessesFinished (system : System DrvId) : Prop where
  known : system.KnownDrvs
  finished : ∀ drvId, .completed .success ∈ (system.lifeOf drvId).outcomes → (system.lifeOf drvId).row ≠ none →
    Finished (system.lifeOf drvId)

section Step

variable {config : SchedulerConfig} {system : System DrvId} {action : Action DrvId} {drvId : DrvId} {life : Life}

theorem not_announced (meets : system.keepsSuccess config action = true) {node : CachedNode DrvId}
    (checked : system.checkedDrv action = some drvId) (ready : system.view.isBuildable drvId = true)
    (found : system.view.get drvId = some node)
    (can : config.builderFeatures.canBuild node.requiredSystemFeatures = true) :
    (system.lifeOf drvId).view ≠ some (.completed .success) := by
  intro success
  have state : node.buildState = .completed .success := by
    simpa [lifeOf, SharedView.getBuildState, found] using success
  simp [keepsSuccess, checked, rechecksSuccess, found, state, ready, can] at meets

theorem not_shortCut {report : DryRunReport DrvId} {room : Bool}
    (meets : system.keepsSuccess config (.dryRunDone (some report) room) = true)
    (phase : system.ingress = .dryRun drvId false) (only : report.willBuild = {drvId}) :
    (system.lifeOf drvId).view ≠ some (.completed .success) := by
  simp only [keepsSuccess, phase, only, ne_eq, not_true_eq_false, decide_false, Bool.false_or,
    Bool.and_eq_true, decide_eq_true_eq] at meets
  exact meets.2

theorem not_blocked {now : Instant} {failedDrv : DrvId} {caller : Caller}
    (meets : system.keepsSuccess config (.applyCommand now) = true)
    (head : system.graphQueue.head? = some (.propagateFailure failedDrv, caller))
    (dependent : system.service.graph.StrictDependent failedDrv drvId) :
    (system.lifeOf drvId).view ≠ some (.completed .success) := by
  obtain ⟨rest, queue⟩ := List.head?_eq_some_iff.mp head
  simp only [keepsSuccess, queue, Bool.and_eq_true] at meets
  have spared := GraphService.not_chosen_of_dependent meets.2 dependent
  exact of_decide_eq_false spared

theorem not_unblocked {now : Instant} {formerlyFailed : DrvId} {caller : Caller}
    (meets : system.keepsSuccess config (.applyCommand now) = true)
    (head : system.graphQueue.head? = some (.clearFailure formerlyFailed, caller))
    (freed : drvId ∈ (system.service.graph.clearFailure formerlyFailed).1) :
    (system.lifeOf drvId).view ≠ some (.completed .success) := by
  obtain ⟨rest, queue⟩ := List.head?_eq_some_iff.mp head
  simp only [keepsSuccess, queue, Bool.and_eq_true] at meets
  have spared := GraphService.not_chosen_of_unblocked meets.2 freed
  exact of_decide_eq_false spared

theorem Finished.undisturbed (meets : system.keepsSuccess config action = true)
    (finished : Finished (system.lifeOf drvId)) :
    Undisturbed config system action drvId (.completed .success) (·.isTerminal = true) where
  unchecked _ checked ready found can := not_announced meets checked ready found can
  uncut _ _ cut phase only := not_shortCut (cut ▸ meets) phase only
  unblocked _ _ _ applies head dependent := ⟨not_blocked (applies ▸ meets) head dependent, rfl⟩
  uncleared _ _ _ applies head freed := not_unblocked (applies ▸ meets) head freed
  unwritten _ _ _ _ _ _ _ := rfl
  recorded _ _ _ _ _ _ decided := by
    obtain ⟨known, found, terminal⟩ := finished.row
    exact decided.over_terminal found terminal

theorem finished_of_success {room : Bool} {result : DrvBuildState} {followUp : FollowUp}
    {later : List DrvBuildState} (meets : system.keepsSuccess config (.record room) = true)
    (head : system.recorderQueue.head? = some ⟨drvId, result⟩)
    (decided : Decided (system.lifeOf drvId).row result (.completed .success) followUp)
    (stored : (system.lifeOf drvId).row ≠ none) :
    Finished { system.lifeOf drvId with
      view := (system.lifeOf drvId).view.map fun _ => .completed .success
      row := (system.lifeOf drvId).row.map fun _ => .completed .success
      updates := (system.lifeOf drvId).updates ++ if room then [.completed .success] else []
      results := later
      outcomes := (system.lifeOf drvId).outcomes ++ [.completed .success] } := by
  have succeeded : result = .completed .success := by
    cases decided
    assumption
  obtain ⟨rest, queue⟩ := List.head?_eq_some_iff.mp head
  simp only [keepsSuccess, queue, succeeded, ne_eq, not_true_eq_false, decide_false, Bool.false_or,
    Bool.and_eq_true, List.all_eq_true, decide_eq_true_eq] at meets
  obtain ⟨earlier, found⟩ := Option.ne_none_iff_exists'.mp stored
  refine ⟨?_, ⟨.completed .success, ?_, rfl⟩, fun other member => ?_⟩
  · cases (system.lifeOf drvId).view <;> simp
  · rw [found]
    rfl
  · rcases List.mem_append.mp member with waiting | added
    · exact meets.2 other waiting
    · split at added
      · exact List.mem_singleton.mp added
      · cases added

theorem start_successesFinished (db : Database DrvId) (capacity : Nat) (positive : 0 < capacity)
    (now : Instant) : (start db capacity positive now).SuccessesFinished := by
  refine ⟨start_knownDrvs db capacity positive now, fun drvId succeeded => ?_⟩
  cases succeeded

theorem SuccessesFinished.step (valid : system.SuccessesFinished)
    (meets : system.keepsSuccess config action = true) {next : System DrvId}
    (transition : Transition config system action next) : next.SuccessesFinished := by
  obtain ⟨known, finished⟩ := valid
  have keeps : action.keepsDrvs = true := by
    simp only [keepsSuccess, Bool.and_eq_true] at meets
    exact meets.1.1
  refine ⟨known.step keeps transition, fun drvId succeeded stored => ?_⟩
  have happens := happens_of_transition known keeps transition drvId
  generalize next.lifeOf drvId = life at happens succeeded stored
  by_cases before : .completed .success ∈ (system.lifeOf drvId).outcomes ∧ (system.lifeOf drvId).row ≠ none
  · have earlier := finished drvId before.1 before.2
    exact earlier.happens known rfl rfl (earlier.undisturbed meets) happens
  · cases happens with
    | settled records head first decided =>
      subst records
      have held : (system.lifeOf drvId).row ≠ none := by simpa using stored
      rcases List.mem_append.mp succeeded with earlier | added
      · exact absurd ⟨earlier, held⟩ before
      · rw [← List.mem_singleton.mp added] at decided ⊢
        exact finished_of_success meets head decided held
    | updated | blocked | persisted => exact absurd ⟨succeeded, by simpa using stored⟩ before
    | _ => exact absurd ⟨succeeded, stored⟩ before

end Step

/-- In a run that keeps successes, a drv whose success has been recorded is
neither seen nor stored in a state that a build could still come from. -/
theorem success_stable (config : SchedulerConfig) (db : Database DrvId) (capacity : Nat)
    (positive : 0 < capacity) (now : Instant) {actions : List (Action DrvId)} {final : System DrvId}
    (run : RunsFrom config db capacity positive now (keepsSuccess config) actions final)
    {drvId : DrvId} (succeeded : .recorded drvId (.completed .success) ∈ final.log) {state : DrvBuildState}
    (held : final.view.getBuildState drvId = some state ∨ final.db.rowState drvId = some state) :
    state.isLive = false := by
  have valid : final.SuccessesFinished := by
    apply run.invariant (start_successesFinished db capacity positive now)
    intro system action next valid meets taken
    exact valid.step meets (transition_of_step taken)
  have stored : final.db.rowState drvId ≠ none := by
    rcases held with seen | written
    · obtain ⟨node, found, -⟩ := Option.map_eq_some_iff.mp seen
      obtain ⟨row, stored⟩ := Table.get_of_mem_keys (valid.known.rows drvId (Table.mem_keys_of_get found))
      simp [Database.rowState, Database.getDrv, stored]
    · simp [written]
  have finished := valid.finished drvId (mem_outcomes.mpr succeeded) stored
  rcases held with seen | written
  · rcases finished.view with none | success
    · cases none.symm.trans seen
    · cases success.symm.trans seen
      rfl
  · obtain ⟨row, found, terminal⟩ := finished.row
    cases found.symm.trans written
    exact DrvBuildState.isLive_eq_false_of_isTerminal terminal

/-- The success of drv 0 is recorded in order and its dependent is built. -/
theorem buildInOrder_success_stable : ∃ final,
    RunsFrom soloBuilders pairDatabase 2 (by decide) 0 (keepsSuccess soloBuilders) buildInOrder final ∧
    .recorded 0 (.completed .success) ∈ final.log ∧ ∀ state,
      final.view.getBuildState 0 = some state ∨ final.db.rowState 0 = some state → state.isLive = false := by
  refine exists_run_of_checkRun_imp (p := fun final => .recorded 0 (.completed .success) ∈ final.log) (by decide)
    fun final run succeeded => ?_
  exact ⟨succeeded, fun _ held => success_stable soloBuilders pairDatabase 2 (by decide) 0 run succeeded held⟩

/-- Drv 1 is cached and recorded before its dependency 0; recording 0 has 1
checked again. -/
def recheckCached : List (Action Nat) :=
  [.submit (.evalRequest 1), .ingest true, .dryRunDone (some ⟨∅⟩) true,
    .record true, .applyCommand 0, .applyCommand 0, .recordReply [] [],
    .record true, .applyCommand 0, .applyCommand 0, .recordReply [] [(1, true)], .ingest true, .applyCommand 0]

theorem recheckCached_buildable : ∃ final,
    AnyRun (step soloBuilders) (start pairDatabase 2 (by decide) 0) recheckCached final ∧
    .recorded 1 (.completed .success) ∈ final.log ∧
    final.view.getBuildState 1 = some .buildable ∧ final.db.rowState 1 = some .buildable :=
  exists_run_of_exec (by decide)

end EkaCI.System
