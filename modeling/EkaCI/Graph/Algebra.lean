import EkaCI.Graph.Propagation
import Mathlib.Data.Finset.Image

/-! Sequences of propagate and clear calls on a fixed topology. What the calls
leave behind depends only on the last call made for each drv. -/

namespace EkaCI

variable {DrvId : Type} [DecidableEq DrvId]

inductive FailureCall (DrvId : Type) where
  | propagate (failedDrv : DrvId)
  | clear (formerlyFailed : DrvId)
  deriving DecidableEq

def FailureCall.drvId : FailureCall DrvId → DrvId
  | .propagate failedDrv => failedDrv
  | .clear formerlyFailed => formerlyFailed

/-- The last call made for `drvId` was a propagation. -/
def LastPropagated (calls : List (FailureCall DrvId)) (drvId : DrvId) : Prop :=
  (calls.filter fun call => call.drvId = drvId).getLast? = some (.propagate drvId)

instance (calls : List (FailureCall DrvId)) (drvId : DrvId) : Decidable (LastPropagated calls drvId) :=
  inferInstanceAs (Decidable (_ = _))

theorem lastPropagated_snoc {calls : List (FailureCall DrvId)} {call : FailureCall DrvId}
    {drvId : DrvId} : LastPropagated (calls ++ [call]) drvId ↔
      if call.drvId = drvId then call = .propagate drvId else LastPropagated calls drvId := by
  by_cases same : call.drvId = drvId <;> simp [LastPropagated, List.filter_append, same]

theorem LastPropagated.mem {calls : List (FailureCall DrvId)} {drvId : DrvId}
    (last : LastPropagated calls drvId) : .propagate drvId ∈ calls :=
  List.mem_of_mem_filter (List.mem_of_getLast? last)

namespace BuildGraph

open Lib

def performCall (graph : BuildGraph DrvId) : FailureCall DrvId → BuildGraph DrvId
  | .propagate failedDrv => (graph.propagateFailure failedDrv).2
  | .clear formerlyFailed => (graph.clearFailure formerlyFailed).2

def performCalls (graph : BuildGraph DrvId) (calls : List (FailureCall DrvId)) : BuildGraph DrvId :=
  calls.foldl performCall graph

/-- A graph without failure tracking. -/
structure Untracked (graph : BuildGraph DrvId) : Prop where
  blocking : ∀ drvId node, graph.getNode drvId = some node → node.blockingFailures = ∅
  map : ∀ drvId, graph.transitiveFailureMap drvId = none

omit [DecidableEq DrvId] in
theorem new_untracked (capacity : Nat) (positive : 0 < capacity) :
    (new capacity positive : BuildGraph DrvId).Untracked :=
  ⟨fun _ _ found => (by cases found), fun _ => rfl⟩

variable {graph reached : BuildGraph DrvId} {calls : List (FailureCall DrvId)} {drvId failed : DrvId}

theorem Untracked.insertNode (untracked : graph.Untracked) (now : Instant) (drv : Drv DrvId) :
    (graph.insertNode now drv).2.Untracked := by
  refine ⟨?_, untracked.map⟩
  intro drvId node found
  by_cases same : drvId = drv.drvPath
  · subst same
    rw [insertNode_getNode_self] at found
    cases found
    rfl
  · exact untracked.blocking drvId node (getNode_of_insertNode same found)

theorem Untracked.addEdge (untracked : graph.Untracked) (referrer reference : DrvId) :
    (graph.addEdge referrer reference).Untracked := by
  refine ⟨?_, untracked.map⟩
  intro drvId node found
  obtain ⟨original, found, same⟩ := getNode_of_addEdge found
  rw [same]
  exact untracked.blocking drvId original found

theorem load_untracked (capacity : Nat) (positive : 0 < capacity) (now : Instant)
    (drvs : List (Drv DrvId)) (refs : List (DrvId × DrvId)) :
    (load capacity positive now drvs refs).Untracked := by
  have inserted : ∀ graph : BuildGraph DrvId, graph.Untracked →
      (drvs.foldl (fun graph drv => (graph.insertNode now drv).2) graph).Untracked := by
    induction drvs with
    | nil => exact fun _ untracked => untracked
    | cons drv rest ih => exact fun _ untracked => ih _ (untracked.insertNode now drv)
  have linked : ∀ graph : BuildGraph DrvId, graph.Untracked →
      (refs.foldl (fun graph edge => graph.addEdge edge.1 edge.2) graph).Untracked := by
    induction refs with
    | nil => exact fun _ untracked => untracked
    | cons edge rest ih => exact fun _ untracked => ih _ (untracked.addEdge edge.1 edge.2)
  exact linked _ (inserted _ (new_untracked capacity positive))

/-- Some propagation among the calls reached the node. -/
def EverBlocked (graph : BuildGraph DrvId) (calls : List (FailureCall DrvId)) (drvId : DrvId) : Prop :=
  ∃ call ∈ calls, call = .propagate call.drvId ∧ graph.StrictDependent call.drvId drvId

instance (graph : BuildGraph DrvId) (calls : List (FailureCall DrvId)) (drvId : DrvId) :
    Decidable (graph.EverBlocked calls drvId) :=
  inferInstanceAs (Decidable (∃ call ∈ calls, _))

/-- The drvs whose failure is still propagated to the node after the calls. -/
def blockers (graph : BuildGraph DrvId) (calls : List (FailureCall DrvId)) (drvId : DrvId) :
    Finset DrvId :=
  (calls.map FailureCall.drvId).toFinset.filter fun failed =>
    LastPropagated calls failed ∧ graph.StrictDependent failed drvId

/-- What the calls make of a node, in terms of the graph they started from. -/
def describe (graph : BuildGraph DrvId) (calls : List (FailureCall DrvId)) (drvId : DrvId)
    (node : GraphNode DrvId) : GraphNode DrvId :=
  { node with
    buildState :=
      if graph.EverBlocked calls drvId then
        if graph.blockers calls drvId = ∅ then .queued else .transitiveFailure
      else node.buildState
    blockingFailures := graph.blockers calls drvId }

theorem mem_blockers : failed ∈ graph.blockers calls drvId ↔
      LastPropagated calls failed ∧ graph.StrictDependent failed drvId := by
  simp only [blockers, Finset.mem_filter, List.mem_toFinset, and_iff_right_iff_imp]
  intro ⟨last, _⟩
  exact List.mem_map.mpr ⟨_, last.mem, rfl⟩

theorem everBlocked_of_mem_blockers (member : failed ∈ graph.blockers calls drvId) :
    graph.EverBlocked calls drvId := by
  obtain ⟨last, strict⟩ := mem_blockers.mp member
  exact ⟨.propagate failed, last.mem, rfl, strict⟩

section Snoc

variable {graph : BuildGraph DrvId} {calls : List (FailureCall DrvId)} {failed drvId : DrvId}

theorem blockers_propagate : graph.blockers (calls ++ [.propagate failed]) drvId =
    if graph.StrictDependent failed drvId then insert failed (graph.blockers calls drvId)
    else graph.blockers calls drvId := by
  ext other
  have last : LastPropagated (calls ++ [.propagate failed]) other ↔
      other = failed ∨ LastPropagated calls other := by
    rw [lastPropagated_snoc]
    by_cases same : failed = other
    · simp [FailureCall.drvId, same]
    · simp [FailureCall.drvId, same, Ne.symm same]
  rw [mem_blockers, last]
  split
  · rename_i strict
    rw [Finset.mem_insert, mem_blockers]
    constructor
    · intro ⟨earlier, path⟩
      exact earlier.imp_right (⟨·, path⟩)
    · intro member
      rcases member with same | ⟨earlier, path⟩
      · exact ⟨.inl same, same ▸ strict⟩
      · exact ⟨.inr earlier, path⟩
  · rename_i loose
    rw [mem_blockers]
    constructor
    · intro ⟨earlier, path⟩
      rcases earlier with same | earlier
      · exact absurd (same ▸ path) loose
      · exact ⟨earlier, path⟩
    · intro ⟨earlier, path⟩
      exact ⟨.inr earlier, path⟩

theorem blockers_clear :
    graph.blockers (calls ++ [.clear failed]) drvId = (graph.blockers calls drvId).erase failed := by
  ext other
  rw [mem_blockers, Finset.mem_erase, mem_blockers, lastPropagated_snoc]
  by_cases same : failed = other
  · simp [FailureCall.drvId, same]
  · simp [FailureCall.drvId, same, Ne.symm same]

omit [DecidableEq DrvId] in
theorem everBlocked_propagate : graph.EverBlocked (calls ++ [.propagate failed]) drvId ↔
    graph.EverBlocked calls drvId ∨ graph.StrictDependent failed drvId := by
  simp [EverBlocked, FailureCall.drvId, or_and_right, exists_or]

omit [DecidableEq DrvId] in
theorem everBlocked_clear :
    graph.EverBlocked (calls ++ [.clear failed]) drvId ↔ graph.EverBlocked calls drvId := by
  simp [EverBlocked, or_and_right, exists_or]

theorem describe_propagate (node : GraphNode DrvId) :
    graph.describe (calls ++ [.propagate failed]) drvId node =
      if graph.StrictDependent failed drvId then (graph.describe calls drvId node).block failed
      else graph.describe calls drvId node := by
  by_cases strict : graph.StrictDependent failed drvId <;>
    simp [describe, blockers_propagate, everBlocked_propagate, strict, GraphNode.block]

theorem describe_clear (node : GraphNode DrvId) :
    graph.describe (calls ++ [.clear failed]) drvId node =
      if LastPropagated calls failed ∧ graph.StrictDependent failed drvId then
        (graph.describe calls drvId node).unblock failed
      else graph.describe calls drvId node := by
  split
  · rename_i blocked
    have member := mem_blockers.mpr blocked
    have ever := everBlocked_of_mem_blockers member
    have nonempty : graph.blockers calls drvId ≠ ∅ := Finset.ne_empty_of_mem member
    simp only [describe, blockers_clear, everBlocked_clear, ever, nonempty, GraphNode.unblock, if_true,
      if_false]
    split <;> rfl
  · rename_i free
    rw [← mem_blockers] at free
    simp only [describe, blockers_clear, everBlocked_clear, Finset.erase_eq_of_notMem free]

end Snoc

/-- The state of a run of calls, in terms of the graph it started from. -/
structure Described (graph : BuildGraph DrvId) (calls : List (FailureCall DrvId))
    (reached : BuildGraph DrvId) : Prop where
  topology : SameTopology reached graph
  node : ∀ drvId, reached.getNode drvId = (graph.getNode drvId).map (graph.describe calls drvId)
  map : ∀ failed, reached.transitiveFailureMap failed =
    if LastPropagated calls failed then some (graph.getAllTransitiveDependents failed) else none

theorem Untracked.described (untracked : graph.Untracked) : Described graph [] graph := by
  refine ⟨⟨rfl, fun _ => rfl⟩, ?_, ?_⟩
  · intro drvId
    cases found : graph.getNode drvId with
    | none => rfl
    | some node =>
      have empty := untracked.blocking drvId node found
      cases node
      simp_all [describe, EverBlocked, blockers]
  · intro failed
    simp [LastPropagated, untracked.map failed]

theorem Described.mem_blockedBy (described : Described graph calls reached) :
    drvId ∈ reached.blockedBy failed ↔ failed ∈ graph.blockers calls drvId := by
  rw [mem_blockers, blockedBy, described.map]
  by_cases last : LastPropagated calls failed <;> simp [last, mem_getAllTransitiveDependents]

theorem Described.snoc (described : Described graph calls reached) (call : FailureCall DrvId) :
    Described graph (calls ++ [call]) (reached.performCall call) := by
  cases call with
  | propagate failed =>
    refine ⟨(propagateFailure_topology ..).trans described.topology, ?_, ?_⟩
    · intro drvId
      simp only [performCall, propagateFailure_getNode, described.topology.strictDependent,
        described.node]
      by_cases strict : graph.StrictDependent failed drvId <;>
        cases graph.getNode drvId <;> simp [describe_propagate, strict]
    · intro other
      simp only [performCall, propagateFailure_map, described.topology.transitiveDependents,
        described.map, lastPropagated_snoc]
      by_cases same : other = failed
      · simp [same, FailureCall.drvId]
      · simp [same, Ne.symm same, FailureCall.drvId]
  | clear failed =>
    refine ⟨(clearFailure_topology ..).trans described.topology, ?_, ?_⟩
    · intro drvId
      simp only [performCall, clearFailure_getNode, described.mem_blockedBy, mem_blockers,
        described.node]
      by_cases blocked : LastPropagated calls failed ∧ graph.StrictDependent failed drvId <;>
        cases graph.getNode drvId <;> simp [describe_clear, blocked]
    · intro other
      simp only [performCall, clearFailure_map, described.map, lastPropagated_snoc]
      by_cases same : other = failed
      · simp [same, FailureCall.drvId]
      · simp [same, Ne.symm same, FailureCall.drvId]

theorem Untracked.performCalls (untracked : graph.Untracked) (calls : List (FailureCall DrvId)) :
    Described graph calls (graph.performCalls calls) := by
  induction calls using List.reverseRecOn with
  | nil => exact untracked.described
  | append_singleton calls call ih =>
    rw [BuildGraph.performCalls, List.foldl_append]
    exact ih.snoc call

theorem block_comm (first second : DrvId) (node : GraphNode DrvId) :
    (node.block first).block second = (node.block second).block first := by
  simp [GraphNode.block, Finset.insert_comm]

theorem propagateFailure_stateOf (graph : BuildGraph DrvId) (failedDrv drvId : DrvId) :
    (graph.propagateFailure failedDrv).2.stateOf drvId =
      if graph.StrictDependent failedDrv drvId then
        (graph.stateOf drvId).map fun _ => .transitiveFailure
      else graph.stateOf drvId := by
  simp only [stateOf, propagateFailure_getNode]
  split <;> simp [Function.comp_def, GraphNode.block]

theorem propagateFailure_twice_getNode (graph : BuildGraph DrvId) (first second drvId : DrvId) :
    ((graph.propagateFailure first).2.propagateFailure second).2.getNode drvId =
      (graph.getNode drvId).map fun node =>
        let once := if graph.StrictDependent first drvId then node.block first else node
        if graph.StrictDependent second drvId then once.block second else once := by
  have same := (propagateFailure_topology graph first).strictDependent second drvId
  simp only [propagateFailure_getNode, same]
  by_cases reachedFirst : graph.StrictDependent first drvId <;>
    by_cases reachedSecond : graph.StrictDependent second drvId <;>
    simp [reachedFirst, reachedSecond, Function.comp_def]

theorem mem_propagateFailure_twice_byState {first second : DrvId} {state : DrvBuildState} :
    drvId ∈ ((graph.propagateFailure first).2.propagateFailure second).2.byState state ↔
      if graph.StrictDependent first drvId ∨ graph.StrictDependent second drvId then
        state = .transitiveFailure ∨ (drvId ∈ graph.byState state ∧ graph.stateOf drvId ≠ some state)
      else drvId ∈ graph.byState state := by
  have same := (propagateFailure_topology graph first).strictDependent second drvId
  simp only [mem_propagateFailure_byState, propagateFailure_stateOf, same]
  by_cases reachedFirst : graph.StrictDependent first drvId
  · by_cases reachedSecond : graph.StrictDependent second drvId
    · simp only [reachedFirst, reachedSecond, if_true, or_self]
      by_cases target : state = .transitiveFailure
      · simp [target]
      · cases graph.stateOf drvId <;> simp [target, Ne.symm target]
    · simp [reachedFirst, reachedSecond]
  · simp [reachedFirst]

theorem propagateFailure_comm (graph : BuildGraph DrvId) (first second : DrvId) :
    ((graph.propagateFailure first).2.propagateFailure second).2 =
      ((graph.propagateFailure second).2.propagateFailure first).2 := by
  have frame := fun first second =>
    propagateFailure_frame (graph.propagateFailure first).2 second
  have kept := propagateFailure_frame graph
  ext1
  · apply LruCache.ext
    · simp only [frame, kept]
    · intro drvId
      have left := propagateFailure_twice_getNode graph first second drvId
      have right := propagateFailure_twice_getNode graph second first drvId
      refine left.trans (Eq.trans ?_ right.symm)
      refine congrArg (fun change => Option.map change (graph.getNode drvId)) (funext fun node => ?_)
      by_cases reachedFirst : graph.StrictDependent first drvId <;>
        by_cases reachedSecond : graph.StrictDependent second drvId <;>
        simp [reachedFirst, reachedSecond, block_comm first second]
    · simp only [frame, kept]
  · funext state
    ext drvId
    simp only [mem_propagateFailure_twice_byState, or_comm]
  · simp only [frame, kept]
  · funext other
    simp only [propagateFailure_map, (propagateFailure_topology ..).transitiveDependents]
    by_cases isFirst : other = first <;> by_cases isSecond : other = second <;> simp_all
  · simp only [frame, kept]
  · simp only [frame, kept]

theorem propagateFailure_idempotent (graph : BuildGraph DrvId) (failedDrv : DrvId) :
    ((graph.propagateFailure failedDrv).2.propagateFailure failedDrv).2 =
      (graph.propagateFailure failedDrv).2 := by
  have frame := propagateFailure_frame (graph.propagateFailure failedDrv).2 failedDrv
  ext1
  · apply LruCache.ext
    · simp only [frame]
    · intro drvId
      have twice := propagateFailure_twice_getNode graph failedDrv failedDrv drvId
      refine twice.trans (Eq.trans ?_ (propagateFailure_getNode graph failedDrv drvId).symm)
      by_cases reached : graph.StrictDependent failedDrv drvId <;> simp [reached, block_idempotent]
    · simp only [frame]
  · funext state
    ext drvId
    rw [mem_propagateFailure_twice_byState]
    simp only [mem_propagateFailure_byState, or_self]
  · simp only [frame]
  · funext other
    simp only [propagateFailure_map, (propagateFailure_topology ..).transitiveDependents]
    split <;> rfl
  · simp only [frame]
  · simp only [frame]

theorem Described.clearFailure (described : Described graph calls reached) (formerlyFailed drvId : DrvId) :
    drvId ∈ (reached.clearFailure formerlyFailed).1 ↔
      ∃ node, reached.getNode drvId = some node ∧ node.blockingFailures = {formerlyFailed} := by
  rw [mem_clearFailure_fst, described.mem_blockedBy, described.node]
  simp only [Option.map_eq_some_iff]
  constructor
  · intro ⟨blocked, node, ⟨original, found, same⟩, last⟩
    refine ⟨node, ⟨original, found, same⟩, ?_⟩
    subst same
    exact (Finset.erase_eq_empty_iff _ _).mp last |>.resolve_left (Finset.ne_empty_of_mem blocked)
  · intro ⟨node, ⟨original, found, same⟩, alone⟩
    subst same
    have alone : graph.blockers calls drvId = {formerlyFailed} := alone
    refine ⟨by simp [alone], _, ⟨original, found, rfl⟩, ?_⟩
    simp [describe, alone]

/-- On a graph without failure tracking, whatever calls are made: a node is
blocked by exactly the failures propagated last that it strictly depends on, it
is transitively failed while there are such and queued once there are none, and
nodes never reached keep their state. Edges may leave the graph. -/
theorem performCalls_algebra (graph : BuildGraph DrvId) (untracked : graph.Untracked)
    (calls : List (FailureCall DrvId)) :
    (∀ drvId, (∀ node, (graph.performCalls calls).getNode drvId = some node →
        ∃ original, graph.getNode drvId = some original ∧
          (∀ failed, failed ∈ node.blockingFailures ↔
            LastPropagated calls failed ∧ graph.StrictDependent failed drvId) ∧
          (graph.EverBlocked calls drvId → node.buildState =
            if node.blockingFailures.Nonempty then .transitiveFailure else .queued) ∧
          (¬ graph.EverBlocked calls drvId → node.buildState = original.buildState)) ∧
      ((graph.performCalls calls).getNode drvId = none ↔ graph.getNode drvId = none)) ∧
    (∀ first second, (((graph.performCalls calls).propagateFailure first).2.propagateFailure second).2 =
      (((graph.performCalls calls).propagateFailure second).2.propagateFailure first).2) ∧
    (∀ failed, (((graph.performCalls calls).propagateFailure failed).2.propagateFailure failed).2 =
      ((graph.performCalls calls).propagateFailure failed).2) ∧
    (∀ failed drvId, drvId ∈ ((graph.performCalls calls).clearFailure failed).1 ↔
      ∃ node, (graph.performCalls calls).getNode drvId = some node ∧
        node.blockingFailures = {failed}) ∧
    (∀ failed drvId node, (graph.performCalls calls).getNode drvId = some node →
      ((graph.performCalls calls).clearFailure failed).2.getNode drvId =
        some (if node.blockingFailures = {failed} then
          { node with buildState := .queued, blockingFailures := ∅ }
        else { node with blockingFailures := node.blockingFailures.erase failed })) := by
  have described := untracked.performCalls calls
  refine ⟨?_, propagateFailure_comm _, propagateFailure_idempotent _, described.clearFailure, ?_⟩
  · intro drvId
    refine ⟨?_, by simp [described.node]⟩
    intro node found
    rw [described.node, Option.map_eq_some_iff] at found
    obtain ⟨original, found, same⟩ := found
    subst same
    refine ⟨original, found, fun _ => mem_blockers, ?_, ?_⟩
    · intro ever
      by_cases free : graph.blockers calls drvId = ∅ <;>
        simp [describe, ever, free, Finset.nonempty_iff_ne_empty]
    · intro never
      simp [describe, never]
  · intro failed drvId node found
    have blocked : drvId ∈ (graph.performCalls calls).blockedBy failed ↔
        failed ∈ node.blockingFailures := by
      obtain ⟨original, _, same⟩ := Option.map_eq_some_iff.mp ((described.node drvId).symm.trans found)
      rw [described.mem_blockedBy, ← same]
      rfl
    rw [clearFailure_getNode, found, Option.map_some]
    by_cases member : failed ∈ node.blockingFailures
    · have alone : node.blockingFailures.erase failed = ∅ ↔ node.blockingFailures = {failed} := by
        rw [Finset.erase_eq_empty_iff]
        exact or_iff_right (Finset.ne_empty_of_mem member)
      rw [if_pos (blocked.mpr member), GraphNode.unblock]
      simp only [alone]
      split
      · rename_i only
        simp [only]
      · rfl
    · have others : node.blockingFailures ≠ {failed} := by
        intro only
        simp [only] at member
      rw [if_neg (mt blocked.mp member), if_neg others, Finset.erase_eq_of_notMem member]

/-- Four queued drvs: 1 and 2 depend on 0, and 3 on both of them. -/
def diamond : BuildGraph Nat :=
  load 4 (by decide) 0 ([0, 1, 2, 3].map (.plain · .queued)) [(1, 0), (2, 0), (3, 1), (3, 2)]

theorem performCalls_algebra_diamond :
    diamond.Untracked ∧
      3 ∈ ((diamond.performCalls [.propagate 0, .propagate 1, .clear 0]).clearFailure 1).1 ∧
      2 ∉ ((diamond.performCalls [.propagate 0, .propagate 1, .clear 0]).clearFailure 1).1 := by
  have untracked : diamond.Untracked := load_untracked ..
  obtain ⟨-, -, -, cleared, -⟩ :=
    performCalls_algebra diamond untracked [.propagate 0, .propagate 1, .clear 0]
  refine ⟨untracked, (cleared 1 3).mpr ?_, fun member => ?_⟩
  · exact ⟨_, rfl, by decide⟩
  · obtain ⟨node, found, alone⟩ := (cleared 1 2).mp member
    cases found
    exact absurd alone (by decide)

end BuildGraph

end EkaCI
