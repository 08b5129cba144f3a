import EkaCI.Graph.Propagation
import EkaCI.Lib.Run

/-! Failure tracking is stored twice: at each node the failures that block it,
and for each failure the drvs it blocks. Here is which operations keep the two
in step, and what follows while they do. -/

namespace EkaCI

open Lib

variable {DrvId : Type}

inductive GraphOperation (DrvId : Type) where
  | insertNode (now : Instant) (drv : Drv DrvId)
  | addEdge (referrer reference : DrvId)
  | updateState (now : Instant) (drvId : DrvId) (newState : DrvBuildState)
  | propagateFailure (failedDrv : DrvId)
  | clearFailure (formerlyFailed : DrvId)
  | evictStaleFailures (now : Instant)

namespace BuildGraph

/-- Both sides of the failure tracking agree on every resident drv. -/
def Coherent [DecidableEq DrvId] (graph : BuildGraph DrvId) : Prop :=
  ∀ drvId node, graph.getNode drvId = some node →
    ∀ failed, failed ∈ node.blockingFailures ↔ drvId ∈ graph.blockedBy failed

variable [DecidableEq DrvId]

def perform (graph : BuildGraph DrvId) : GraphOperation DrvId → BuildGraph DrvId
  | .insertNode now drv => (graph.insertNode now drv).2
  | .addEdge referrer reference => graph.addEdge referrer reference
  | .updateState now drvId newState => graph.updateState now drvId newState
  | .propagateFailure failedDrv => (graph.propagateFailure failedDrv).2
  | .clearFailure formerlyFailed => (graph.clearFailure formerlyFailed).2
  | .evictStaleFailures now => (graph.evictStaleFailures now).2

/-- When an operation keeps a coherent graph coherent: a new node is blocked by
nothing, so nothing may be recorded to block it; a second propagation forgets
the drvs that the first reached and this one does not; and dropping a stale
failure does not touch the nodes it blocks. -/
def KeepsCoherent (graph : BuildGraph DrvId) : GraphOperation DrvId → Prop
  | .insertNode _ drv => ∀ failed, drv.drvPath ∉ graph.blockedBy failed
  | .propagateFailure failedDrv => ∀ drvId ∈ graph.blockedBy failedDrv,
      graph.getNode drvId ≠ none → graph.StrictDependent failedDrv drvId
  | .evictStaleFailures now => ∀ failed ∈ graph.staleFailures now,
      ∀ drvId ∈ graph.blockedBy failed, graph.getNode drvId = none
  | _ => True

section Sides

variable {graph : BuildGraph DrvId}
variable (now : Instant)

theorem updateState_blockedBy (drvId failed : DrvId) (newState : DrvBuildState) :
    (graph.updateState now drvId newState).blockedBy failed = graph.blockedBy failed := by
  unfold updateState
  split <;> rfl

theorem propagateFailure_blockedBy (failedDrv failed : DrvId) :
    (graph.propagateFailure failedDrv).2.blockedBy failed =
      if failed = failedDrv then graph.getAllTransitiveDependents failedDrv
      else graph.blockedBy failed := by
  simp only [blockedBy, propagateFailure_map]
  split <;> rfl

theorem clearFailure_blockedBy (formerlyFailed failed : DrvId) :
    (graph.clearFailure formerlyFailed).2.blockedBy failed =
      if failed = formerlyFailed then [] else graph.blockedBy failed := by
  simp only [blockedBy, clearFailure_map]
  split <;> rfl

theorem foldl_dropFailure (list : List DrvId) (graph : BuildGraph DrvId) (failed : DrvId) :
    let dropped := list.foldl (fun graph drvId =>
      { graph with
        failedDrvs := graph.failedDrvs.erase drvId
        transitiveFailureMap := Function.update graph.transitiveFailureMap drvId none }) graph
    dropped.nodes = graph.nodes ∧
      dropped.blockedBy failed = if failed ∈ list then [] else graph.blockedBy failed := by
  induction list generalizing graph with
  | nil => simp
  | cons head rest ih =>
    simp only [List.foldl_cons, ih, List.mem_cons, true_and]
    by_cases same : failed = head
    · simp [same, blockedBy]
    · simp [same, blockedBy]

theorem evictStaleFailures_frame :
    (graph.evictStaleFailures now).2.nodes = graph.nodes ∧
      (graph.evictStaleFailures now).2.byState = graph.byState ∧
      (graph.evictStaleFailures now).2.pinned = graph.pinned := by
  refine List.foldlRecOn (graph.staleFailures now) _ (motive := fun next : BuildGraph DrvId =>
    next.nodes = graph.nodes ∧ next.byState = graph.byState ∧ next.pinned = graph.pinned) ⟨rfl, rfl, rfl⟩ ?_
  exact fun next kept _ _ => kept

theorem evictStaleFailures_getNode (drvId : DrvId) :
    (graph.evictStaleFailures now).2.getNode drvId = graph.getNode drvId := by
  rw [getNode, getNode, (evictStaleFailures_frame now).1]

theorem evictStaleFailures_blockedBy (failed : DrvId) :
    (graph.evictStaleFailures now).2.blockedBy failed =
      if failed ∈ graph.staleFailures now then [] else graph.blockedBy failed := by
  rw [evictStaleFailures, (foldl_dropFailure _ _ failed).2]

end Sides

namespace Coherent

variable {graph : BuildGraph DrvId}

theorem insertNode_iff (coherent : graph.Coherent) (now : Instant) (drv : Drv DrvId) :
    (graph.insertNode now drv).2.Coherent ↔ ∀ failed, drv.drvPath ∉ graph.blockedBy failed := by
  constructor
  · intro next failed member
    have blocked := (next drv.drvPath _ insertNode_getNode_self failed).mpr member
    simp [GraphNode.fromDrv] at blocked
  · intro unlisted drvId node found failed
    by_cases same : drvId = drv.drvPath
    · subst same
      rw [insertNode_getNode_self] at found
      cases found
      exact iff_of_false (Finset.notMem_empty failed) (unlisted failed)
    · exact coherent drvId node (getNode_of_insertNode same found) failed

theorem addEdge (coherent : graph.Coherent) (referrer reference : DrvId) :
    (graph.addEdge referrer reference).Coherent := by
  intro drvId node found failed
  obtain ⟨original, found, same⟩ := getNode_of_addEdge found
  rw [same]
  exact coherent drvId original found failed

theorem updateState (coherent : graph.Coherent) (now : Instant) (drvId : DrvId)
    (newState : DrvBuildState) : (graph.updateState now drvId newState).Coherent := by
  intro other node found failed
  rw [updateState_blockedBy]
  rw [updateState_getNode] at found
  split at found
  · obtain ⟨original, held, same⟩ := Option.map_eq_some_iff.mp found
    subst same
    exact coherent other original held failed
  · exact coherent other node found failed

theorem propagateFailure_iff (coherent : graph.Coherent) (failedDrv : DrvId) :
    (graph.propagateFailure failedDrv).2.Coherent ↔ ∀ drvId ∈ graph.blockedBy failedDrv,
      graph.getNode drvId ≠ none → graph.StrictDependent failedDrv drvId := by
  constructor
  · intro next drvId member resident
    obtain ⟨node, found⟩ := Option.ne_none_iff_exists'.mp resident
    by_contra loose
    have kept : (graph.propagateFailure failedDrv).2.getNode drvId = some node := by
      rw [propagateFailure_getNode, if_neg loose, found]
    have blocked := (coherent drvId node found failedDrv).mpr member
    have listed := (next drvId node kept failedDrv).mp blocked
    rw [propagateFailure_blockedBy, if_pos rfl] at listed
    exact loose (mem_getAllTransitiveDependents.mp listed)
  · intro covered drvId node found failed
    rw [propagateFailure_getNode] at found
    rw [propagateFailure_blockedBy]
    split at found
    · rename_i strict
      obtain ⟨original, held, same⟩ := Option.map_eq_some_iff.mp found
      subst same
      rw [GraphNode.block, Finset.mem_insert, coherent drvId original held failed]
      by_cases same : failed = failedDrv
      · simp [same, mem_getAllTransitiveDependents, strict]
      · simp [same]
    · rename_i loose
      rw [coherent drvId node found failed]
      by_cases same : failed = failedDrv
      · subst same
        rw [if_pos rfl, mem_getAllTransitiveDependents]
        refine iff_of_false (fun member => loose ?_) loose
        exact covered drvId member (found ▸ Option.some_ne_none node)
      · simp [same]

theorem unblock_blockingFailures (failed : DrvId) (node : GraphNode DrvId) :
    (node.unblock failed).blockingFailures = node.blockingFailures.erase failed := by
  unfold GraphNode.unblock
  dsimp only
  split <;> rfl

theorem clearFailure (coherent : graph.Coherent) (formerlyFailed : DrvId) :
    (graph.clearFailure formerlyFailed).2.Coherent := by
  intro drvId node found failed
  rw [clearFailure_getNode] at found
  rw [clearFailure_blockedBy]
  split at found
  · obtain ⟨original, held, same⟩ := Option.map_eq_some_iff.mp found
    subst same
    rw [unblock_blockingFailures, Finset.mem_erase, coherent drvId original held failed]
    by_cases same : failed = formerlyFailed <;> simp [same]
  · rename_i unlisted
    rw [coherent drvId node found failed]
    by_cases same : failed = formerlyFailed
    · simp [same, unlisted]
    · simp [same]

theorem evictStaleFailures_iff (coherent : graph.Coherent) (now : Instant) :
    (graph.evictStaleFailures now).2.Coherent ↔ ∀ failed ∈ graph.staleFailures now,
      ∀ drvId ∈ graph.blockedBy failed, graph.getNode drvId = none := by
  constructor
  · intro next failed stale drvId member
    by_contra resident
    obtain ⟨node, found⟩ := Option.ne_none_iff_exists'.mp resident
    have blocked := (coherent drvId node found failed).mpr member
    have listed := (next drvId node (by rw [evictStaleFailures_getNode, found]) failed).mp blocked
    rw [evictStaleFailures_blockedBy, if_pos stale] at listed
    exact absurd listed List.not_mem_nil
  · intro gone drvId node found failed
    rw [evictStaleFailures_getNode] at found
    rw [evictStaleFailures_blockedBy, coherent drvId node found failed]
    split
    · rename_i stale
      refine iff_of_false (fun member => ?_) List.not_mem_nil
      rw [gone failed stale drvId member] at found
      cases found
    · rfl

theorem perform_iff (coherent : graph.Coherent) (operation : GraphOperation DrvId) :
    (graph.perform operation).Coherent ↔ graph.KeepsCoherent operation := by
  cases operation with
  | insertNode now drv => exact coherent.insertNode_iff now drv
  | addEdge referrer reference => exact iff_of_true (coherent.addEdge referrer reference) trivial
  | updateState now drvId newState =>
    exact iff_of_true (coherent.updateState now drvId newState) trivial
  | propagateFailure failedDrv => exact coherent.propagateFailure_iff failedDrv
  | clearFailure formerlyFailed => exact iff_of_true (coherent.clearFailure formerlyFailed) trivial
  | evictStaleFailures now => exact coherent.evictStaleFailures_iff now

theorem clearAll (coherent : graph.Coherent) {drvId : DrvId} {node : GraphNode DrvId}
    (found : graph.getNode drvId = some node)
    (free : node.blockingFailures = ∅ → node.buildState = .queued) {failures : List DrvId}
    (covered : ∀ failed ∈ node.blockingFailures, failed ∈ failures) :
    (failures.foldl (fun graph failed => (graph.clearFailure failed).2) graph).stateOf drvId =
      some .queued := by
  induction failures generalizing graph node with
  | nil =>
    have empty := Finset.eq_empty_of_forall_notMem fun failed member =>
      List.not_mem_nil (covered failed member)
    simp [stateOf, found, free empty]
  | cons head rest ih =>
    rw [List.foldl_cons]
    have step := clearFailure_getNode graph head drvId
    simp only [found, Option.map_some, ← coherent drvId node found] at step
    split at step
    · refine ih (coherent.clearFailure head) step ?_ ?_
      · intro empty
        rw [unblock_blockingFailures] at empty
        simp [GraphNode.unblock, empty]
      · intro failed member
        rw [unblock_blockingFailures, Finset.mem_erase] at member
        exact List.mem_of_ne_of_mem member.1 (covered failed member.2)
    · rename_i unblocked
      apply ih (coherent.clearFailure head) step free
      intro failed member
      refine List.mem_of_ne_of_mem (fun same => unblocked ?_) (covered failed member)
      exact same ▸ member

end Coherent

end BuildGraph

/-- A graph with the drvs that a propagation has blocked and that nothing has
moved since: no replacement, no state update, no clearing. -/
structure TrackedGraph (DrvId : Type) where
  graph : BuildGraph DrvId
  marked : Finset DrvId

namespace TrackedGraph

variable [DecidableEq DrvId]

def new (capacity : Nat) (positive : 0 < capacity) : TrackedGraph DrvId :=
  ⟨.new capacity positive, ∅⟩

def perform (tracked : TrackedGraph DrvId) (operation : GraphOperation DrvId) : TrackedGraph DrvId where
  graph := tracked.graph.perform operation
  marked := match operation with
    | .insertNode _ drv => tracked.marked.erase drv.drvPath
    | .updateState _ drvId _ => tracked.marked.erase drvId
    | .propagateFailure failedDrv =>
      tracked.marked ∪ (tracked.graph.propagateFailure failedDrv).1.toFinset
    | .clearFailure formerlyFailed =>
      tracked.marked \ (tracked.graph.clearFailure formerlyFailed).1.toFinset
    | .addEdge .. | .evictStaleFailures _ => tracked.marked

def performAll (tracked : TrackedGraph DrvId) (operations : List (GraphOperation DrvId)) :
    TrackedGraph DrvId :=
  operations.foldl perform tracked

/-- Every marked resident drv has a blocker. -/
def Blocked (tracked : TrackedGraph DrvId) : Prop :=
  ∀ drvId ∈ tracked.marked, ∀ node, tracked.graph.getNode drvId = some node →
    node.blockingFailures.Nonempty

/-- Failure tracking is coherent: both sides agree, marked drvs are blocked, and
clearing all that blocks a marked drv queues it. -/
structure TracksFailures (tracked : TrackedGraph DrvId) : Prop where
  coherent : tracked.graph.Coherent
  blocked : tracked.Blocked
  recoverable : ∀ drvId ∈ tracked.marked, ∀ node, tracked.graph.getNode drvId = some node →
    ∀ failures : List DrvId, (∀ failed, failed ∈ failures ↔ failed ∈ node.blockingFailures) →
      (failures.foldl (fun graph failed => (graph.clearFailure failed).2) tracked.graph).stateOf drvId =
        some .queued

theorem Blocked.perform {tracked : TrackedGraph DrvId} (blocked : tracked.Blocked)
    (operation : GraphOperation DrvId) : (tracked.perform operation).Blocked := by
  intro drvId marked node found
  cases operation with
  | insertNode now drv =>
    obtain ⟨different, marked⟩ := Finset.mem_erase.mp marked
    exact blocked drvId marked node (BuildGraph.getNode_of_insertNode different found)
  | addEdge referrer reference =>
    obtain ⟨original, held, same⟩ := BuildGraph.getNode_of_addEdge found
    rw [same]
    exact blocked drvId marked original held
  | updateState now other newState =>
    obtain ⟨different, marked⟩ := Finset.mem_erase.mp marked
    have kept := (BuildGraph.updateState_getNode drvId).symm.trans found
    rw [if_neg different] at kept
    exact blocked drvId marked node kept
  | propagateFailure failedDrv =>
    have kept := (BuildGraph.propagateFailure_getNode ..).symm.trans found
    split at kept
    · obtain ⟨original, -, same⟩ := Option.map_eq_some_iff.mp kept
      rw [← same]
      exact ⟨failedDrv, Finset.mem_insert_self ..⟩
    · rename_i loose
      rcases Finset.mem_union.mp marked with marked | reached
      · exact blocked drvId marked node kept
      · rw [List.mem_toFinset, BuildGraph.propagateFailure_fst,
          BuildGraph.mem_getAllTransitiveDependents] at reached
        exact absurd reached loose
  | clearFailure formerlyFailed =>
    obtain ⟨marked, held⟩ := Finset.mem_sdiff.mp marked
    rw [List.mem_toFinset, BuildGraph.mem_clearFailure_fst] at held
    have kept := (BuildGraph.clearFailure_getNode ..).symm.trans found
    split at kept
    · rename_i listed
      obtain ⟨original, present, same⟩ := Option.map_eq_some_iff.mp kept
      rw [← same, BuildGraph.Coherent.unblock_blockingFailures, Finset.nonempty_iff_ne_empty]
      exact fun last => held ⟨listed, original, present, last⟩
    · exact blocked drvId marked node kept
  | evictStaleFailures now =>
    have kept := (BuildGraph.evictStaleFailures_getNode ..).symm.trans found
    exact blocked drvId marked node kept

theorem performAll_blocked (capacity : Nat) (positive : 0 < capacity)
    (operations : List (GraphOperation DrvId)) :
    ((new capacity positive).performAll operations).Blocked := by
  induction operations using List.reverseRecOn with
  | nil => exact fun _ member => absurd member (Finset.notMem_empty _)
  | append_singleton operations operation ih =>
    rw [performAll, List.foldl_append]
    exact ih.perform operation

theorem tracksFailures_iff {tracked : TrackedGraph DrvId} (blocked : tracked.Blocked) :
    tracked.TracksFailures ↔ tracked.graph.Coherent := by
  refine ⟨TracksFailures.coherent, fun coherent => ⟨coherent, blocked, ?_⟩⟩
  intro drvId marked node found failures same
  refine coherent.clearAll found ?_ fun failed => (same failed).mpr
  intro empty
  exact absurd empty (blocked drvId marked node found).ne_empty

/-- Failure tracking is coherent after every prefix of a sequence of operations
exactly if every operation meets its condition. -/
theorem tracksFailures_iff_keepsCoherent (capacity : Nat) (positive : 0 < capacity)
    (operations : List (GraphOperation DrvId)) :
    (∀ before after, operations = before ++ after →
      ((new capacity positive).performAll before).TracksFailures) ↔
    (∀ before operation after, operations = before ++ operation :: after →
      ((new capacity positive).performAll before).graph.KeepsCoherent operation) := by
  have blocked := fun before : List (GraphOperation DrvId) =>
    performAll_blocked capacity positive before
  have initial : (new capacity positive : TrackedGraph DrvId).graph.Coherent := by
    intro drvId node found
    cases found
  have exactly : ∀ (tracked : TrackedGraph DrvId) operation, tracked.graph.Coherent →
      ((tracked.perform operation).graph.Coherent ↔ tracked.graph.KeepsCoherent operation) :=
    fun tracked operation coherent => coherent.perform_iff operation
  refine Iff.trans ?_ (always_iff (p := fun tracked : TrackedGraph DrvId => tracked.graph.Coherent)
    initial exactly operations)
  constructor
  · intro holds before after split
    exact (holds before after split).coherent
  · intro holds before after split
    exact (tracksFailures_iff (blocked before)).mpr (holds before after split)

/-- A failure is propagated to one dependent and cleared again. -/
def blockAndClear : List (GraphOperation Nat) :=
  [.insertNode 0 (.plain 0 .queued), .insertNode 0 (.plain 1 .queued), .addEdge 1 0,
    .propagateFailure 0, .clearFailure 0]

theorem blockAndClear_tracksFailures :
    ((new 2 (by decide) : TrackedGraph Nat).performAll blockAndClear).TracksFailures := by
  refine (tracksFailures_iff_keepsCoherent 2 (by decide) blockAndClear).mpr ?_ blockAndClear [] rfl
  intro before operation after split
  simp only [blockAndClear, List.cons_eq_append_iff, List.cons.injEq, List.nil_eq_append_iff,
    reduceCtorEq, and_false, exists_false, or_false] at split
  rcases split with ⟨rfl, rfl, -⟩ | ⟨_, rfl, ⟨rfl, rfl, -⟩ | ⟨_, rfl, ⟨rfl, rfl, -⟩ |
    ⟨_, rfl, ⟨rfl, rfl, -⟩ | ⟨_, rfl, rfl, rfl, -⟩⟩⟩⟩
  · exact fun _ => List.not_mem_nil
  · exact fun _ => List.not_mem_nil
  · trivial
  · exact List.forall_mem_nil _
  · trivial

/-- A dependent of a failed drv is inserted a second time. -/
def reinsertBlocked : List (GraphOperation Nat) :=
  [.insertNode 0 (.plain 0 .queued), .insertNode 0 (.plain 1 .queued), .addEdge 1 0,
    .propagateFailure 0, .insertNode 1 (.plain 1 .queued)]

theorem reinsertBlocked_not_tracksFailures :
    ¬ ((new 2 (by decide) : TrackedGraph Nat).performAll reinsertBlocked).TracksFailures := by
  intro holds
  have blocked := (holds.coherent 1 _ rfl 0).mpr (by decide)
  exact absurd blocked (by decide)

end TrackedGraph

end EkaCI
