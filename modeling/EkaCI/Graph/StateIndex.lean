import EkaCI.Graph.Algebra
import EkaCI.Graph.Coherence

/-! The graph indexes its nodes by state and keeps a set of pinned nodes beside
them. Every operation updates the two by hand; here is which of them keep the
indexes true to the nodes. -/

namespace EkaCI.BuildGraph

open Lib

variable {DrvId : Type}

/-- Both indexes describe exactly the resident nodes. -/
structure Indexed (graph : BuildGraph DrvId) : Prop where
  byState : ∀ state drvId, drvId ∈ graph.byState state ↔ graph.stateOf drvId = some state
  pinned : ∀ drvId, drvId ∈ graph.pinned ↔
    ∃ state, graph.stateOf drvId = some state ∧ isTerminalState state = false

theorem stateOf_eq_some {graph : BuildGraph DrvId} {drvId : DrvId} {state : DrvBuildState} :
    graph.stateOf drvId = some state ↔ ∃ node, graph.getNode drvId = some node ∧ node.buildState = state :=
  Option.map_eq_some_iff

/-- When an operation keeps the indexes true to the nodes: an insertion must not
evict another drv, nor change the state of a drv that is resident already; a
propagation must only reach resident drvs that are unpinned; a clearing must not
queue a drv that is unpinned. -/
def KeepsIndexed [DecidableEq DrvId] (graph : BuildGraph DrvId) : GraphOperation DrvId → Prop
  | .insertNode _ drv => match graph.stateOf drv.drvPath with
    | some state => state = drv.buildState
    | none => graph.nodes.keys.length < graph.nodes.cap
  | .propagateFailure failedDrv => ∀ drvId, graph.StrictDependent failedDrv drvId →
      ∃ state, graph.stateOf drvId = some state ∧ isTerminalState state = true
  | .clearFailure formerlyFailed => ∀ drvId ∈ graph.blockedBy formerlyFailed, ∀ node,
      graph.getNode drvId = some node → node.blockingFailures.erase formerlyFailed = ∅ →
        isTerminalState node.buildState = false
  | _ => True

theorem Indexed.new (capacity : Nat) (positive : 0 < capacity) :
    (BuildGraph.new capacity positive : BuildGraph DrvId).Indexed := by
  refine ⟨fun state drvId => ?_, fun drvId => ?_⟩
  · exact iff_of_false (Finset.notMem_empty drvId) (Option.some_ne_none state).symm
  · apply iff_of_false (Finset.notMem_empty drvId)
    rintro ⟨state, held, -⟩
    cases held

/-- The first index alone. -/
def StatesIndexed (graph : BuildGraph DrvId) : Prop :=
  ∀ state drvId, drvId ∈ graph.byState state ↔ graph.stateOf drvId = some state

theorem Indexed.statesIndexed {graph : BuildGraph DrvId} (indexed : graph.Indexed) : graph.StatesIndexed :=
  indexed.byState

namespace StatesIndexed

variable [DecidableEq DrvId] {graph : BuildGraph DrvId}

theorem move (indexed : graph.StatesIndexed) {drvId : DrvId} {node : GraphNode DrvId}
    {change : GraphNode DrvId → GraphNode DrvId} {next : BuildGraph DrvId}
    (found : graph.getNode drvId = some node) (nodes : next.nodes = graph.nodes.modify drvId change)
    (index : next.byState = reindex graph.byState drvId node.buildState (change node).buildState) :
    next.StatesIndexed := by
  intro state other
  rw [index, mem_reindex, stateOf, getNode, nodes, LruCache.modify_peek, ← getNode]
  by_cases same : other = drvId
  · subst same
    simp only [if_true, found, Option.map_some, indexed state, stateOf, Option.some.injEq]
    constructor
    · rintro (moved | ⟨held, left⟩)
      · exact moved.symm
      · exact absurd held.symm left
    · exact fun moved => .inl moved.symm
  · simp only [same, if_false]
    exact indexed state other

theorem addEdge (indexed : graph.StatesIndexed) (referrer reference : DrvId) :
    (graph.addEdge referrer reference).StatesIndexed := by
  intro state drvId
  rw [addEdge_stateOf]
  exact indexed state drvId

theorem updateState (indexed : graph.StatesIndexed) (now : Instant) (drvId : DrvId)
    (newState : DrvBuildState) : (graph.updateState now drvId newState).StatesIndexed := by
  unfold BuildGraph.updateState
  split
  · exact indexed
  · rename_i node found
    exact indexed.move found rfl rfl

theorem clearFailure (indexed : graph.StatesIndexed) (formerlyFailed : DrvId) :
    (graph.clearFailure formerlyFailed).2.StatesIndexed := by
  have step : ∀ (cleared : List DrvId × BuildGraph DrvId) blockedId, cleared.2.StatesIndexed →
      (unblock formerlyFailed cleared blockedId).2.StatesIndexed := by
    intro cleared blockedId indexed
    unfold unblock
    dsimp only
    split
    · exact indexed
    · rename_i node found
      split
      · rename_i last
        exact indexed.move found rfl (by simp [GraphNode.unblock, last])
      · rename_i more
        intro state other
        rw [stateOf, getNode_modify, indexed state other, stateOf]
        by_cases same : other = blockedId
        · subst same
          simp [found, GraphNode.unblock, more]
        · simp [same]
  unfold BuildGraph.clearFailure
  split
  · exact indexed
  · rename_i blockedSet _
    refine List.foldlRecOn blockedSet _
      (motive := fun cleared : List DrvId × BuildGraph DrvId => cleared.2.StatesIndexed) ?_ ?_
    · exact indexed
    · exact fun cleared held blockedId _ => step cleared blockedId held

end StatesIndexed

section Steps

variable [DecidableEq DrvId]

theorem clearFailure_pinned (graph : BuildGraph DrvId) (formerlyFailed : DrvId) :
    (graph.clearFailure formerlyFailed).2.pinned = graph.pinned := by
  unfold clearFailure
  split
  · rfl
  · rename_i blockedSet _
    refine List.foldlRecOn blockedSet _
      (motive := fun cleared : List DrvId × BuildGraph DrvId => cleared.2.pinned = graph.pinned) rfl ?_
    intro cleared held blockedId _
    rw [← held]
    unfold unblock
    dsimp only
    split
    · rfl
    · split <;> rfl

theorem clearFailure_stateOf (graph : BuildGraph DrvId) (formerlyFailed drvId : DrvId) :
    (graph.clearFailure formerlyFailed).2.stateOf drvId =
      (graph.getNode drvId).map fun node =>
        if drvId ∈ graph.blockedBy formerlyFailed ∧ node.blockingFailures.erase formerlyFailed = ∅ then .queued
        else node.buildState := by
  rw [stateOf, clearFailure_getNode]
  by_cases listed : drvId ∈ graph.blockedBy formerlyFailed
  · simp only [listed, if_true, Option.map_map, true_and]
    congr 1
    funext node
    by_cases last : node.blockingFailures.erase formerlyFailed = ∅ <;> simp [GraphNode.unblock, last]
  · simp [listed]

namespace Indexed

variable {graph : BuildGraph DrvId}

theorem keepsIndexed_insertNode {now : Instant} {drv : Drv DrvId} :
    graph.KeepsIndexed (.insertNode now drv) ↔ graph.nodes.victim drv.drvPath = none ∧
      ∀ state, graph.stateOf drv.drvPath = some state → state = drv.buildState := by
  rw [KeepsIndexed]
  cases held : graph.stateOf drv.drvPath with
  | some state =>
    obtain ⟨node, found, -⟩ := stateOf_eq_some.mp held
    have present : graph.nodes.contains drv.drvPath = true := Option.isSome_iff_exists.mpr ⟨node, found⟩
    simp [LruCache.victim_of_contains present]
  | none =>
    have absent : graph.nodes.peek drv.drvPath = none := Option.map_eq_none_iff.mp held
    constructor
    · intro room
      exact ⟨LruCache.victim_of_room room, by simp⟩
    · rintro ⟨none, -⟩
      refine Nat.lt_of_le_of_ne graph.nodes.bounded fun full => ?_
      obtain ⟨other, leaves⟩ := LruCache.victim_of_full absent full
      rw [none] at leaves
      cases leaves

theorem mem_insertNode_byState {now : Instant} {drv : Drv DrvId} {state : DrvBuildState} {drvId : DrvId} :
    drvId ∈ (graph.insertNode now drv).2.byState state ↔
      (state = drv.buildState ∧ drvId = drv.drvPath) ∨ drvId ∈ graph.byState state := by
  by_cases same : state = drv.buildState <;> simp [BuildGraph.insertNode, same]

theorem mem_insertNode_pinned {now : Instant} {drv : Drv DrvId} {drvId : DrvId} :
    drvId ∈ (graph.insertNode now drv).2.pinned ↔
      (drvId = drv.drvPath ∧ isTerminalState drv.buildState = false) ∨ drvId ∈ graph.pinned := by
  cases terminal : isTerminalState drv.buildState <;> simp [BuildGraph.insertNode, terminal]

theorem insertNode_iff (indexed : graph.Indexed) (now : Instant) (drv : Drv DrvId) :
    (graph.insertNode now drv).2.Indexed ↔ graph.KeepsIndexed (.insertNode now drv) := by
  rw [keepsIndexed_insertNode]
  -- an index entry survives every insertion, so its drv must be resident in that state afterwards
  have survives : ∀ state drvId, graph.stateOf drvId = some state →
      drvId ∈ (graph.insertNode now drv).2.byState state := fun state drvId held =>
    mem_insertNode_byState.mpr (.inr ((indexed.byState state drvId).mpr held))
  constructor
  · intro next
    constructor
    · by_contra evicts
      obtain ⟨other, leaves⟩ := Option.ne_none_iff_exists'.mp evicts
      obtain ⟨different, node, found⟩ := LruCache.victim_peek leaves
      have held := (next.byState _ other).mp (survives _ other (stateOf_eq_some.mpr ⟨node, found, rfl⟩))
      rw [stateOf, insertNode_getNode, if_neg different, if_pos leaves] at held
      cases held
    · intro state held
      have moved := (next.byState _ _).mp (survives state _ held)
      rw [stateOf, insertNode_getNode_self] at moved
      exact (Option.some.inj moved).symm
  · rintro ⟨stays, agrees⟩
    have states : ∀ drvId, (graph.insertNode now drv).2.stateOf drvId =
        if drvId = drv.drvPath then some drv.buildState else graph.stateOf drvId := by
      intro drvId
      rw [stateOf, insertNode_getNode, stays]
      by_cases same : drvId = drv.drvPath <;> simp [same, stateOf, GraphNode.fromDrv]
    constructor
    · intro state drvId
      rw [mem_insertNode_byState, states, indexed.byState state drvId]
      by_cases same : drvId = drv.drvPath
      · subst same
        simp only [and_true, if_true, Option.some.injEq, eq_comm (a := drv.buildState), or_iff_left_iff_imp]
        exact agrees state
      · simp [same]
    · intro drvId
      rw [mem_insertNode_pinned, states, indexed.pinned drvId]
      by_cases same : drvId = drv.drvPath
      · subst same
        simp only [true_and, if_true, Option.some.injEq, exists_eq_left', or_iff_left_iff_imp]
        rintro ⟨state, held, live⟩
        rw [← agrees state held]
        exact live
      · simp [same]

theorem addEdge (indexed : graph.Indexed) (referrer reference : DrvId) :
    (graph.addEdge referrer reference).Indexed := by
  refine ⟨indexed.statesIndexed.addEdge referrer reference, fun drvId => ?_⟩
  rw [addEdge_stateOf]
  exact indexed.pinned drvId

theorem updateState (indexed : graph.Indexed) (now : Instant) (drvId : DrvId)
    (newState : DrvBuildState) : (graph.updateState now drvId newState).Indexed := by
  refine ⟨indexed.statesIndexed.updateState now drvId newState, fun other => ?_⟩
  rw [updateState_stateOf]
  unfold BuildGraph.updateState
  split
  · rename_i absent
    rw [indexed.pinned other]
    by_cases same : other = drvId
    · subst same
      simp [stateOf, absent]
    · simp [same]
  · rename_i node found
    by_cases same : other = drvId
    · subst same
      cases terminal : isTerminalState newState <;> simp [terminal, stateOf, found]
    · cases isTerminalState newState <;> simp [same, indexed.pinned other]

theorem propagateFailure_iff (indexed : graph.Indexed) (failedDrv : DrvId) :
    (graph.propagateFailure failedDrv).2.Indexed ↔ graph.KeepsIndexed (.propagateFailure failedDrv) := by
  have pinned := (propagateFailure_frame graph failedDrv).2.2.2.2
  constructor
  · intro next drvId strict
    have listed : drvId ∈ (graph.propagateFailure failedDrv).2.byState .transitiveFailure := by
      rw [mem_propagateFailure_byState, if_pos strict]
      exact .inl rfl
    have moved := (next.byState _ drvId).mp listed
    have unpinned : drvId ∉ graph.pinned := by
      rw [← pinned, next.pinned, moved]
      simp [isTerminalState]
    rw [propagateFailure_stateOf, if_pos strict, Option.map_eq_some_iff] at moved
    obtain ⟨state, held, -⟩ := moved
    refine ⟨state, held, ?_⟩
    by_contra live
    exact unpinned ((indexed.pinned drvId).mpr ⟨state, held, Bool.eq_false_of_not_eq_true live⟩)
  · intro reaches
    constructor
    · intro state drvId
      rw [mem_propagateFailure_byState, propagateFailure_stateOf]
      split
      · rename_i strict
        obtain ⟨old, held, -⟩ := reaches drvId strict
        simp only [indexed.byState state drvId, held, Option.map_some, ne_eq, and_not_self, or_false,
          Option.some.injEq]
        exact eq_comm
      · exact indexed.byState state drvId
    · intro drvId
      rw [pinned, indexed.pinned drvId, propagateFailure_stateOf]
      split
      · rename_i strict
        obtain ⟨old, held, terminal⟩ := reaches drvId strict
        simp only [held, Option.map_some, Option.some.injEq, exists_eq_left', terminal]
        exact iff_of_false (by decide) (by decide)
      · rfl

theorem clearFailure_iff (indexed : graph.Indexed) (formerlyFailed : DrvId) :
    (graph.clearFailure formerlyFailed).2.Indexed ↔ graph.KeepsIndexed (.clearFailure formerlyFailed) := by
  have pinned := clearFailure_pinned graph formerlyFailed
  have states := clearFailure_stateOf graph formerlyFailed
  constructor
  · intro next drvId listed node found last
    have queued : (graph.clearFailure formerlyFailed).2.stateOf drvId = some .queued := by
      rw [states, found, Option.map_some, if_pos ⟨listed, last⟩]
    have member := (next.pinned drvId).mpr ⟨.queued, queued, rfl⟩
    rw [pinned, indexed.pinned drvId, stateOf, found] at member
    obtain ⟨state, same, live⟩ := member
    cases same
    exact live
  · intro frees
    refine ⟨indexed.statesIndexed.clearFailure formerlyFailed, fun drvId => ?_⟩
    rw [pinned, indexed.pinned drvId, states, stateOf]
    cases found : graph.getNode drvId with
    | none => simp
    | some node =>
      simp only [Option.map_some, Option.some.injEq, exists_eq_left']
      split
      · rename_i freed
        exact iff_of_true (frees drvId freed.1 node found freed.2) rfl
      · rfl

theorem evictStaleFailures (indexed : graph.Indexed) (now : Instant) :
    (graph.evictStaleFailures now).2.Indexed := by
  obtain ⟨nodes, index, pinned⟩ := @evictStaleFailures_frame _ _ graph now
  have states : ∀ drvId, (graph.evictStaleFailures now).2.stateOf drvId = graph.stateOf drvId := by
    intro drvId
    rw [stateOf, getNode, nodes, ← getNode, stateOf]
  refine ⟨fun state drvId => ?_, fun drvId => ?_⟩
  · rw [index, states]
    exact indexed.byState state drvId
  · rw [pinned, states]
    exact indexed.pinned drvId

theorem perform_iff (indexed : graph.Indexed) (operation : GraphOperation DrvId) :
    (graph.perform operation).Indexed ↔ graph.KeepsIndexed operation := by
  cases operation with
  | insertNode now drv => exact indexed.insertNode_iff now drv
  | addEdge referrer reference => exact iff_of_true (indexed.addEdge referrer reference) trivial
  | updateState now drvId newState =>
    exact iff_of_true (indexed.updateState now drvId newState) trivial
  | propagateFailure failedDrv => exact indexed.propagateFailure_iff failedDrv
  | clearFailure formerlyFailed => exact indexed.clearFailure_iff formerlyFailed
  | evictStaleFailures now => exact iff_of_true (indexed.evictStaleFailures now) trivial

end Indexed

def performAll (graph : BuildGraph DrvId) (operations : List (GraphOperation DrvId)) : BuildGraph DrvId :=
  operations.foldl perform graph

/-- After every prefix of a sequence of operations on an empty graph the indexes
describe the resident nodes, exactly if every operation meets its condition. -/
theorem performAll_indexed_iff (capacity : Nat) (positive : 0 < capacity)
    (operations : List (GraphOperation DrvId)) :
    (∀ before after, operations = before ++ after →
      ((new capacity positive).performAll before).Indexed) ↔
    (∀ before operation after, operations = before ++ operation :: after →
      ((new capacity positive).performAll before).KeepsIndexed operation) :=
  always_iff (Indexed.new capacity positive) (fun _ operation indexed => indexed.perform_iff operation)
    operations

end Steps

/-- One of two drvs is built, and the other is submitted again as it is. -/
def buildAndRepeat : List (GraphOperation Nat) :=
  [.insertNode 0 (.plain 0 .queued), .insertNode 0 (.plain 1 .queued), .addEdge 1 0,
    .updateState 1 0 (.completed .success), .insertNode 2 (.plain 1 .queued)]

theorem buildAndRepeat_indexed :
    ((new 2 (by decide)).performAll buildAndRepeat).Indexed := by
  refine (performAll_indexed_iff 2 (by decide) buildAndRepeat).mpr ?_ buildAndRepeat [] rfl
  intro before operation after split
  simp only [buildAndRepeat, List.cons_eq_append_iff, List.cons.injEq, List.nil_eq_append_iff,
    reduceCtorEq, and_false, exists_false, or_false] at split
  rcases split with ⟨rfl, rfl, -⟩ | ⟨_, rfl, ⟨rfl, rfl, -⟩ | ⟨_, rfl, ⟨rfl, rfl, -⟩ |
    ⟨_, rfl, ⟨rfl, rfl, -⟩ | ⟨_, rfl, rfl, rfl, -⟩⟩⟩⟩
  · exact Nat.lt_of_sub_eq_succ rfl
  · exact Nat.lt_of_sub_eq_succ rfl
  · trivial
  · trivial
  · rfl

/-- A resident drv comes back in another state: its old index entry stays. -/
theorem reinserted_not_indexed :
    ¬ ((new 1 (by decide)).performAll
      [.insertNode 0 (.plain 0 .queued), .insertNode 1 (.plain 0 (.completed .success))]).Indexed := by
  intro indexed
  have held := (indexed.byState .queued 0).mp (by decide)
  exact absurd held (by decide)

end EkaCI.BuildGraph
