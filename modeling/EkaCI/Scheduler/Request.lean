import EkaCI.Graph.Effects
import EkaCI.Jobs.Database
import EkaCI.Scheduler.System

/-! What the recorder writes when it handles a task from beginning to end, together
with the graph service that answers it. -/

namespace EkaCI

open Lib

variable {DrvId : Type} [DecidableEq DrvId]

namespace GraphService

/-- The state is written to the database and to the shared view. The graph hears of it
if its queue has room. -/
def settle (service : GraphService DrvId) (now : Instant) (room : Bool) (drvId : DrvId) (state : DrvBuildState) :
    GraphService DrvId :=
  let written : GraphService DrvId := { service with
    db := service.db.updateDrvStatus drvId state
    sharedView := service.sharedView.setState drvId state }
  if room then (written.process now (.updateState drvId state)).2 else written

/-- The drvs that a permanent failure takes along are written once more by the recorder. -/
def follow (service : GraphService DrvId) (now : Instant) (drvId : DrvId) : FollowUp → GraphService DrvId
  | .retry => service
  | .propagate =>
    let propagated := service.process now (.propagateFailure drvId)
    if propagated.1 = [] then propagated.2
    else { propagated.2 with db := propagated.2.db.insertTransitiveFailures drvId propagated.1 }
  | .clear =>
    let cleared : GraphService DrvId := { service with db := service.db.clearTransitiveFailures drvId }
    (cleared.process now (.clearFailure drvId)).2

/-- A service that has just started, with room for one node and more. -/
def started (db : Database DrvId) (more : Nat) : GraphService DrvId := .new db (more + 1) (Nat.succ_pos more) 0

variable (service : GraphService DrvId) (now : Instant) (room : Bool) (task : RecorderTask DrvId)

def record : GraphService DrvId :=
  match recordDecision (service.db.rowState task.derivation) task.result with
  | none => service
  | some (state, followUp) => (service.settle now room task.derivation state).follow now task.derivation followUp

/-- The drvs that depend on one which fails for good. -/
def takenAlong : List DrvId :=
  match recordDecision (service.db.rowState task.derivation) task.result with
  | some (state, .propagate) =>
    (service.settle now room task.derivation state).graph.getAllTransitiveDependents task.derivation
  | _ => []

variable {service now room task} {drvId other : DrvId} {state : DrvBuildState}

theorem settle_rowState : (service.settle now room drvId state).db.rowState other =
    if other = drvId then (service.db.rowState other).map fun _ => state else service.db.rowState other := by
  unfold settle
  cases room with
  | false => exact Database.updateDrvStatus_rowState ..
  | true =>
    simp only [process, handleCommand, if_true]
    rw [maintain_db, updateState, Database.updateDrvStatus_rowState, Database.updateDrvStatus_rowState]
    split
    · cases service.db.rowState other <;> rfl
    · rfl

theorem follow_rowState {followUp : FollowUp} : (service.follow now drvId followUp).db.rowState other =
    if followUp = .propagate ∧ other ∈ service.graph.getAllTransitiveDependents drvId then
      (service.db.rowState other).map fun _ => .transitiveFailure
    else service.db.rowState other := by
  cases followUp with
  | retry => rfl
  | clear =>
    simp only [follow, process, handleCommand]
    rw [maintain_db]
    rfl
  | propagate =>
    have blocked : (service.process now (.propagateFailure drvId)).1 = service.graph.getAllTransitiveDependents drvId :=
      BuildGraph.propagateFailure_fst ..
    have row : (service.process now (.propagateFailure drvId)).2.db.rowState other =
        if other ∈ service.graph.getAllTransitiveDependents drvId then
          (service.db.rowState other).map fun _ => .transitiveFailure
        else service.db.rowState other := by
      have answered := @propagateFailure_row _ _ service other drvId
      simp only [← BuildGraph.mem_getAllTransitiveDependents] at answered
      rw [process, maintain_db]
      exact answered
    simp only [follow, true_and]
    by_cases none : (service.process now (.propagateFailure drvId)).1 = []
    · rw [if_pos none, row]
    · rw [if_neg none, Database.insertTransitiveFailures_rowState, row, blocked]
      split
      · cases service.db.rowState other <;> rfl
      · rfl

/-- The rows after a task: those of the drvs that are taken along, the row of the drv
itself, and the others as they were. -/
theorem record_rowState : (service.record now room task).db.rowState other =
    if other ∈ service.takenAlong now room task then (service.db.rowState other).map fun _ => .transitiveFailure
    else
      match recordDecision (service.db.rowState task.derivation) task.result with
      | some (state, _) =>
        if other = task.derivation then (service.db.rowState other).map fun _ => state else service.db.rowState other
      | none => service.db.rowState other := by
  unfold record takenAlong
  cases decision : recordDecision (service.db.rowState task.derivation) task.result with
  | none => simp
  | some decided =>
    obtain ⟨state, followUp⟩ := decided
    dsimp only
    rw [follow_rowState, settle_rowState]
    cases followUp with
    | retry => simp
    | clear => simp
    | propagate =>
      simp only [true_and]
      split
      · split
        · cases service.db.rowState other <;> rfl
        · rfl
      · rfl

theorem isTerminal_of_decision {row : Option DrvBuildState} {result : DrvBuildState} {followUp : FollowUp}
    (decision : recordDecision row result = some (state, followUp)) : result.isTerminal = true := by
  cases result with
  | completed outcome => rfl
  | interrupted kind => rfl
  | unsatisfiableRequirements => rfl
  | _ => cases decision

end GraphService

end EkaCI
