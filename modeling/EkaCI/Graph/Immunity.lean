import EkaCI.Graph.Algebra
import EkaCI.Graph.Effects

/-! Failure propagation against finished work. The specification makes completed
and unsatisfiable drvs immune; the code has no such rule, so immunity holds
exactly as long as no finished drv is reached. -/

namespace EkaCI

variable {DrvId : Type} [DecidableEq DrvId]

/-- The two in-memory copies of a drv's state. -/
inductive StateCopy where
  | graph
  | sharedView

namespace GraphService

def stateAt (service : GraphService DrvId) (copy : StateCopy) (drvId : DrvId) : Option DrvBuildState :=
  match copy with
  | .graph => service.graph.stateOf drvId
  | .sharedView => service.sharedView.getBuildState drvId

def performCall (service : GraphService DrvId) : FailureCall DrvId → GraphService DrvId
  | .propagate failedDrv => (service.propagateFailure failedDrv).2
  | .clear formerlyFailed => (service.clearFailure formerlyFailed).2

def performCalls (service : GraphService DrvId) (calls : List (FailureCall DrvId)) : GraphService DrvId :=
  calls.foldl performCall service

/-- What the specification asks of a run: a finished drv keeps its state when a
failure is propagated, and clearing that failure later does not queue it. -/
def FinishedWorkImmune (service : GraphService DrvId) (calls : List (FailureCall DrvId)) : Prop :=
  ∀ before failed after, calls = before ++ .propagate failed :: after →
    ∀ copy drvId state, state.isPropagationImmune = true →
      (service.performCalls before).stateAt copy drvId = some state →
      (service.performCalls (before ++ [.propagate failed])).stateAt copy drvId = some state ∧
      ∀ middle rest, after = middle ++ .clear failed :: rest →
        (service.performCalls (before ++ .propagate failed :: middle ++ [.clear failed])).stateAt copy drvId =
          some .queued →
        (service.performCalls (before ++ .propagate failed :: middle)).stateAt copy drvId = some .queued

/-- No propagation of the run reaches a finished drv. -/
def ReachesUnfinished (service : GraphService DrvId) (calls : List (FailureCall DrvId)) : Prop :=
  ∀ before failed after, calls = before ++ .propagate failed :: after →
    ∀ drvId, (service.performCalls before).graph.StrictDependent failed drvId →
      ∀ copy state, (service.performCalls before).stateAt copy drvId = some state →
        state.isPropagationImmune = false

section Calls

variable {service : GraphService DrvId}

theorem performCalls_snoc (calls : List (FailureCall DrvId)) (call : FailureCall DrvId) :
    service.performCalls (calls ++ [call]) = (service.performCalls calls).performCall call := by
  simp [performCalls]

theorem performCall_graph (call : FailureCall DrvId) :
    (service.performCall call).graph = service.graph.performCall call := by
  cases call <;> rfl

theorem stateAt_propagate (failedDrv drvId : DrvId) (copy : StateCopy) :
    (service.performCall (.propagate failedDrv)).stateAt copy drvId =
      if service.graph.StrictDependent failedDrv drvId then
        (service.stateAt copy drvId).map fun _ => .transitiveFailure
      else service.stateAt copy drvId := by
  cases copy with
  | graph => exact BuildGraph.propagateFailure_stateOf ..
  | sharedView =>
    simp only [stateAt, performCall, SharedView.getBuildState, propagateFailure_view]
    split <;> simp [Function.comp_def]

theorem stateAt_clear {formerlyFailed drvId : DrvId} (copy : StateCopy)
    (unlisted : drvId ∉ service.graph.blockedBy formerlyFailed) :
    (service.performCall (.clear formerlyFailed)).stateAt copy drvId = service.stateAt copy drvId := by
  cases copy with
  | graph =>
    have kept := service.graph.clearFailure_getNode formerlyFailed drvId
    rw [if_neg unlisted] at kept
    simp only [stateAt, performCall, BuildGraph.stateOf, clearFailure, kept]
  | sharedView =>
    have kept : drvId ∉ (service.graph.clearFailure formerlyFailed).1 := fun member =>
      unlisted (BuildGraph.mem_clearFailure_fst.mp member).1
    simp only [stateAt, performCall, SharedView.getBuildState, clearFailure_view, kept, if_false]

theorem performCall_topology (call : FailureCall DrvId) :
    BuildGraph.SameTopology (service.performCall call).graph service.graph := by
  cases call with
  | propagate failed => exact service.graph.propagateFailure_topology failed
  | clear failed => exact service.graph.clearFailure_topology failed

theorem blockedBy_after_propagate {failed drvId : DrvId} (middle : List (FailureCall DrvId))
    (listed : drvId ∈ ((service.performCall (.propagate failed)).performCalls middle).graph.blockedBy failed) :
    service.graph.StrictDependent failed drvId := by
  have run : ∀ calls : List (FailureCall DrvId), BuildGraph.SameTopology
      ((service.performCall (.propagate failed)).performCalls calls).graph service.graph ∧
      (drvId ∈ ((service.performCall (.propagate failed)).performCalls calls).graph.blockedBy failed →
        service.graph.StrictDependent failed drvId) := by
    intro calls
    induction calls using List.reverseRecOn with
    | nil =>
      refine ⟨performCall_topology (.propagate failed), fun listed => ?_⟩
      simp only [performCalls, List.foldl_nil, performCall_graph, BuildGraph.performCall,
        BuildGraph.blockedBy, BuildGraph.propagateFailure_map, if_true, Option.getD_some] at listed
      exact BuildGraph.mem_getAllTransitiveDependents.mp listed
    | append_singleton calls call ih =>
      obtain ⟨topology, sound⟩ := ih
      rw [performCalls_snoc]
      refine ⟨(performCall_topology call).trans topology, fun listed => ?_⟩
      cases call with
      | propagate other =>
        simp only [performCall_graph, BuildGraph.performCall, BuildGraph.blockedBy,
          BuildGraph.propagateFailure_map] at listed
        split at listed
        · rename_i same
          subst same
          rw [Option.getD_some, BuildGraph.mem_getAllTransitiveDependents] at listed
          exact (topology.strictDependent failed drvId).mp listed
        · exact sound listed
      | clear other =>
        simp only [performCall_graph, BuildGraph.performCall, BuildGraph.blockedBy,
          BuildGraph.clearFailure_map] at listed
        split at listed
        · exact absurd listed List.not_mem_nil
        · exact sound listed
  exact (run middle).2 listed

end Calls

/-- Finished work is immune in a run exactly if no propagation reaches any. -/
theorem finishedWorkImmune_iff (service : GraphService DrvId) (calls : List (FailureCall DrvId)) :
    service.FinishedWorkImmune calls ↔ service.ReachesUnfinished calls := by
  constructor
  · intro immune before failed after split drvId strict copy state found
    by_contra finished
    rw [Bool.not_eq_false] at finished
    have kept := (immune before failed after split copy drvId state finished found).1
    rw [performCalls_snoc, stateAt_propagate, if_pos strict, found, Option.map_some] at kept
    cases Option.some.inj kept
    cases finished
  · intro unfinished before failed after split copy drvId state finished found
    have loose : ¬ (service.performCalls before).graph.StrictDependent failed drvId := by
      intro strict
      have reached := unfinished before failed after split drvId strict copy state found
      rw [finished] at reached
      cases reached
    refine ⟨?_, ?_⟩
    · rw [performCalls_snoc, stateAt_propagate, if_neg loose, found]
    · intro middle rest _ queued
      have later : service.performCalls (before ++ .propagate failed :: middle) =
          ((service.performCalls before).performCall (.propagate failed)).performCalls middle := by
        simp [performCalls]
      rw [performCalls_snoc, later, stateAt_clear copy fun listed =>
        loose (blockedBy_after_propagate middle listed)] at queued
      rw [later, queued]

/-- A root that was found cached while its dependency is still to be built. -/
def cachedRoot : GraphService Nat :=
  new (Database.empty.insertDrvsAndReferences
    [.plain 0 .queued, .plain 1 (.completed .success)] [(1, 0)]) 2 (by decide) 0

theorem cachedRoot_not_immune : ¬ cachedRoot.FinishedWorkImmune [.propagate 0] := by
  intro immune
  have kept := (immune [] 0 [] rfl .graph 1 (.completed .success) rfl (by decide)).1
  exact absurd kept (by decide)

end GraphService

end EkaCI
