import EkaCI.Graph.Propagation
import EkaCI.Graph.Service

/-! What the commands of the graph service do to the three copies of a drv's
state: in the graph, in the shared view and in the database. -/

namespace EkaCI

open Lib

variable {DrvId : Type} [DecidableEq DrvId]

namespace SharedView

variable {view : SharedView DrvId}

omit [DecidableEq DrvId] in
theorem isBuildable_iff {drvId : DrvId} : view.isBuildable drvId = true ↔
    ∃ node, view.get drvId = some node ∧
      ∀ dependency ∈ node.dependencies, view.getBuildState dependency = some (.completed .success) := by
  unfold isBuildable
  cases view.get drvId <;> simp

theorem setState_get (drvId other : DrvId) (state : DrvBuildState) :
    (view.setState drvId state).get other =
      if other = drvId then (view.get other).map fun node => { node with buildState := state }
      else view.get other :=
  Table.modify_get ..

theorem setState_getBuildState (drvId other : DrvId) (state : DrvBuildState) :
    (view.setState drvId state).getBuildState other =
      if other = drvId then (view.getBuildState other).map fun _ => state
      else view.getBuildState other := by
  simp only [getBuildState, setState_get]
  split <;> simp [Function.comp_def]

theorem foldl_setState_get (view : SharedView DrvId) (list : List DrvId) (other : DrvId)
    (state : DrvBuildState) :
    Table.get (list.foldl (fun view drvId => SharedView.setState view drvId state) view) other =
      if other ∈ list then (view.get other).map fun node => { node with buildState := state }
      else view.get other :=
  Table.foldl_modify_get view list (fun _ node => { node with buildState := state }) (fun _ _ => rfl) other

theorem foldl_setState_keys (view : SharedView DrvId) (list : List DrvId) (state : DrvBuildState) :
    Table.keys (list.foldl (fun view drvId => SharedView.setState view drvId state) view) = view.keys := by
  induction list generalizing view with
  | nil => rfl
  | cons head rest ih => exact ih _

omit [DecidableEq DrvId] in
theorem isBuildable_of_kept {before after : SharedView DrvId} {drvId : DrvId}
    (successes : ∀ other, before.getBuildState other = some (.completed .success) →
      after.getBuildState other = some (.completed .success))
    (dependencies : (after.get drvId).map (·.dependencies) = (before.get drvId).map (·.dependencies))
    (ready : before.isBuildable drvId = true) : after.isBuildable drvId = true := by
  obtain ⟨node, found, done⟩ := isBuildable_iff.mp ready
  rw [found, Option.map_some] at dependencies
  obtain ⟨cached, held, same⟩ := Option.map_eq_some_iff.mp dependencies
  refine isBuildable_iff.mpr ⟨cached, held, fun dependency member => ?_⟩
  exact successes dependency (done dependency (same ▸ member))

/-- Writing a state over anything but a success, or a success over anything,
keeps every drv ready that is. -/
theorem isBuildable_setState {written drvId : DrvId} {state : DrvBuildState}
    (keeps : view.getBuildState written = some (.completed .success) → state = .completed .success)
    (ready : view.isBuildable drvId = true) : (view.setState written state).isBuildable drvId = true := by
  refine isBuildable_of_kept ?_ ?_ ready
  · intro other done
    rw [setState_getBuildState]
    split
    · rename_i same
      subst same
      rw [done, Option.map_some, keeps done]
    · exact done
  · rw [setState_get]
    split <;> simp [Function.comp_def]

end SharedView

/-- The commands that change states and leave the set of drvs alone. -/
def GraphCommand.isStateChange : GraphCommand DrvId → Bool
  | .updateState .. | .propagateFailure _ | .clearFailure _ => true
  | _ => false

namespace GraphService

variable {service : GraphService DrvId} {drvId : DrvId}

variable (failedDrv : DrvId) (now : Instant)

theorem propagateFailure_view :
    (service.propagateFailure failedDrv).2.sharedView.get drvId =
      if service.graph.StrictDependent failedDrv drvId then
        (service.sharedView.get drvId).map fun node => { node with buildState := .transitiveFailure }
      else service.sharedView.get drvId := by
  have written := SharedView.foldl_setState_get service.sharedView
    (service.graph.getAllTransitiveDependents failedDrv) drvId .transitiveFailure
  simp only [BuildGraph.mem_getAllTransitiveDependents] at written
  exact written

theorem propagateFailure_db : (service.propagateFailure failedDrv).2.db =
    service.db.insertTransitiveFailures failedDrv
      (service.graph.getAllTransitiveDependents failedDrv) := by
  unfold propagateFailure
  dsimp only
  split
  · rename_i none
    rw [BuildGraph.propagateFailure_fst] at none
    rw [none]
    rfl
  · rfl

theorem propagateFailure_row :
    (service.propagateFailure failedDrv).2.db.rowState drvId =
      if service.graph.StrictDependent failedDrv drvId then
        (service.db.rowState drvId).map fun _ => .transitiveFailure
      else service.db.rowState drvId := by
  rw [propagateFailure_db, Database.insertTransitiveFailures_rowState]
  simp only [BuildGraph.mem_getAllTransitiveDependents]

theorem clearFailure_view (formerlyFailed : DrvId) :
    (service.clearFailure formerlyFailed).2.sharedView.get drvId =
      if drvId ∈ (service.graph.clearFailure formerlyFailed).1 then
        (service.sharedView.get drvId).map fun node => { node with buildState := .queued }
      else service.sharedView.get drvId :=
  SharedView.foldl_setState_get ..

theorem maintain_view : (service.maintain now).sharedView = service.sharedView := by
  unfold maintain
  dsimp only
  split <;> rfl

theorem maintain_db : (service.maintain now).db = service.db := by
  unfold maintain
  dsimp only
  split <;> rfl

theorem process_view (command : GraphCommand DrvId) :
    (service.process now command).2.sharedView = (service.handleCommand now command).2.sharedView :=
  maintain_view now

theorem process_db (command : GraphCommand DrvId) :
    (service.process now command).2.db = (service.handleCommand now command).2.db :=
  maintain_db now

theorem process_keys {now : Instant} {command : GraphCommand DrvId} (change : command.isStateChange = true) :
    (service.process now command).2.sharedView.keys = service.sharedView.keys ∧
      (service.process now command).2.db.drvs.keys = service.db.drvs.keys := by
  rw [process_view, process_db]
  cases command with
  | updateState drvId newState => exact ⟨rfl, rfl⟩
  | propagateFailure failedDrv =>
    refine ⟨SharedView.foldl_setState_keys .., ?_⟩
    rw [handleCommand, propagateFailure_db]
    exact (Database.insertTransitiveFailures_frame ..).1
  | clearFailure formerlyFailed => exact ⟨SharedView.foldl_setState_keys .., rfl⟩
  | _ => cases change

end GraphService

end EkaCI
