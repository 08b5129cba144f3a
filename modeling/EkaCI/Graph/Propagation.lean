import EkaCI.Graph.BuildGraph

/-! What failure propagation and clearing do to a graph, node by node. The
topology never changes under them, so a run of calls can be described by the
calls alone. -/

namespace EkaCI.BuildGraph

open Lib

variable {DrvId : Type}

/-- One step along `dependents`. Only resident drvs have dependents. -/
def Dependent (graph : BuildGraph DrvId) (source target : DrvId) : Prop :=
  target ∈ graph.getDependents source

/-- Transitive dependents other than the drv itself, which a cycle may reach. -/
def StrictDependent (graph : BuildGraph DrvId) (source target : DrvId) : Prop :=
  target ≠ source ∧ Relation.TransGen graph.Dependent source target

/-- Two graphs with the same resident drvs and the same edges between them. -/
structure SameTopology (first second : BuildGraph DrvId) : Prop where
  keys : first.nodes.keys = second.nodes.keys
  dependents : ∀ drvId, first.getDependents drvId = second.getDependents drvId

theorem SameTopology.trans {first second third : BuildGraph DrvId} (left : SameTopology first second)
    (right : SameTopology second third) : SameTopology first third :=
  ⟨left.keys.trans right.keys, fun drvId => (left.dependents drvId).trans (right.dependents drvId)⟩

theorem SameTopology.strictDependent {first second : BuildGraph DrvId}
    (same : SameTopology first second) (source target : DrvId) :
    first.StrictDependent source target ↔ second.StrictDependent source target := by
  have edges : first.Dependent = second.Dependent := by
    funext source target
    simp only [Dependent, same.dependents]
  simp only [StrictDependent, edges]

variable {graph : BuildGraph DrvId} {source target other blockedId failedDrv formerlyFailed : DrvId}
  {seeds : List DrvId} {state : DrvBuildState}

theorem Dependent.resident (edge : graph.Dependent source target) : source ∈ graph.nodes.keys := by
  cases found : graph.getNode source with
  | none => simp [Dependent, getDependents, found] at edge
  | some node => exact LruCache.mem_keys_iff.mpr ⟨node, found⟩

variable [DecidableEq DrvId]

theorem SameTopology.transitiveDependents {first second : BuildGraph DrvId}
    (same : SameTopology first second) (drvId : DrvId) :
    first.getAllTransitiveDependents drvId = second.getAllTransitiveDependents drvId := by
  have next : first.getDependents = second.getDependents := funext same.dependents
  simp only [getAllTransitiveDependents, traversable, next, same.keys]

theorem mem_getAllTransitiveDependents :
    target ∈ graph.getAllTransitiveDependents source ↔ graph.StrictDependent source target := by
  have closed : ∀ item ∈ source :: graph.traversable,
      graph.getDependents item ⊆ source :: graph.traversable := by
    intro item _ other edge
    exact List.mem_cons_of_mem _ (List.mem_flatMap.mpr ⟨item, Dependent.resident edge, edge⟩)
  rw [getAllTransitiveDependents, List.mem_filter,
    mem_search_iff (List.nodup_singleton source) (by simp) closed]
  simp only [List.mem_singleton, exists_eq_left, decide_eq_true_eq, StrictDependent]
  constructor
  · rintro ⟨path, different⟩
    rcases Relation.reflTransGen_iff_eq_or_transGen.mp path with same | path
    · exact absurd same different
    · exact ⟨different, path⟩
  · rintro ⟨different, path⟩
    exact ⟨path.to_reflTransGen, different⟩

theorem getAllTransitiveDependents_nodup (graph : BuildGraph DrvId) (drvId : DrvId) :
    (graph.getAllTransitiveDependents drvId).Nodup :=
  (search_nodup _ (List.nodup_singleton drvId)).filter _

theorem mem_reverseReachableFromSet :
    target ∈ graph.reverseReachableFromSet seeds ↔ ∃ seed ∈ seeds, seed ∈ graph.nodes.keys ∧
      Relation.ReflTransGen graph.Dependent seed target := by
  have closed : ∀ item ∈ fresh [] (seeds.filter (graph.nodes.contains ·)) ++ graph.traversable,
      graph.getDependents item ⊆ fresh [] (seeds.filter (graph.nodes.contains ·)) ++ graph.traversable := by
    intro item _ other edge
    exact List.mem_append_right _ (List.mem_flatMap.mpr ⟨item, Dependent.resident edge, edge⟩)
  rw [reverseReachableFromSet, mem_search_iff (fresh_nodup ..) (List.subset_append_left ..) closed]
  constructor
  · rintro ⟨seed, member, path⟩
    obtain ⟨asked, resident⟩ := List.mem_filter.mp (mem_fresh.mp member).1
    exact ⟨seed, asked, LruCache.contains_iff.mp resident, path⟩
  · rintro ⟨seed, asked, resident, path⟩
    refine ⟨seed, mem_fresh.mpr ⟨List.mem_filter.mpr ⟨asked, ?_⟩, List.not_mem_nil⟩, path⟩
    exact LruCache.contains_iff.mpr resident

theorem blastRadiusPerSeed_get {seed : DrvId} (asked : seed ∈ seeds) : (graph.blastRadiusPerSeed seeds).get seed =
      some (if graph.nodes.contains seed then (graph.getAllTransitiveDependents seed).length else 0) := by
  rw [blastRadiusPerSeed]
  induction seeds using List.reverseRecOn with
  | nil => cases asked
  | append_singleton rest last ih =>
    rw [List.foldl_append, List.foldl_cons, List.foldl_nil, Table.push_get]
    split
    · rename_i same
      rw [same]
    · rename_i different
      refine ih ((List.mem_append.mp asked).resolve_right fun single => different ?_)
      exact List.mem_singleton.mp single

instance (graph : BuildGraph DrvId) (source target : DrvId) :
    Decidable (graph.StrictDependent source target) :=
  decidable_of_iff _ mem_getAllTransitiveDependents

theorem block_idempotent (failedDrv : DrvId) (node : GraphNode DrvId) :
    (node.block failedDrv).block failedDrv = node.block failedDrv := by
  simp [GraphNode.block]

theorem getNode_modify (graph : BuildGraph DrvId) (drvId other : DrvId)
    (change : GraphNode DrvId → GraphNode DrvId) :
    { graph with nodes := graph.nodes.modify drvId change }.getNode other =
      if other = drvId then (graph.getNode other).map change else graph.getNode other :=
  LruCache.modify_peek ..

theorem markBlocked_getNode (failedDrv blockedId other : DrvId) (graph : BuildGraph DrvId) :
    (markBlocked failedDrv graph blockedId).getNode other =
      if other = blockedId then (graph.getNode other).map (GraphNode.block failedDrv)
      else graph.getNode other := by
  unfold markBlocked
  split
  · rename_i absent
    by_cases same : other = blockedId
    · subst other
      simp [getNode] at absent ⊢
      simp [absent]
    · simp [same, getNode]
  · exact getNode_modify graph blockedId other _

theorem markBlocked_frame (failedDrv blockedId : DrvId) (graph : BuildGraph DrvId) :
    (markBlocked failedDrv graph blockedId).nodes.keys = graph.nodes.keys ∧
      (markBlocked failedDrv graph blockedId).nodes.cap = graph.nodes.cap ∧
      (markBlocked failedDrv graph blockedId).failedDrvs = graph.failedDrvs ∧
      (markBlocked failedDrv graph blockedId).transitiveFailureMap = graph.transitiveFailureMap ∧
      (markBlocked failedDrv graph blockedId).failureTtl = graph.failureTtl ∧
      (markBlocked failedDrv graph blockedId).pinned = graph.pinned := by
  unfold markBlocked
  split <;> simp

theorem mem_reindex {byState : DrvBuildState → Finset DrvId} {drvId : DrvId} {oldState newState : DrvBuildState} :
    other ∈ reindex byState drvId oldState newState state ↔
      if other = drvId then state = newState ∨ (other ∈ byState state ∧ state ≠ oldState)
      else other ∈ byState state := by
  unfold reindex
  by_cases same : other = drvId
  · subst other
    by_cases target : state = newState
    · subst state
      simp
    · by_cases source : state = oldState
      · subst state
        simp [target]
      · simp [target, source]
  · by_cases target : state = newState <;> by_cases source : state = oldState <;>
      simp_all [Function.update_apply]

theorem mem_markBlocked_byState :
    other ∈ (markBlocked failedDrv graph blockedId).byState state ↔
      if other = blockedId then
        state = .transitiveFailure ∨ (other ∈ graph.byState state ∧ graph.stateOf other ≠ some state)
      else other ∈ graph.byState state := by
  unfold markBlocked
  split
  · rename_i absent
    by_cases same : other = blockedId
    · subst other
      by_cases target : state = .transitiveFailure <;> simp [target, stateOf, absent]
    · by_cases target : state = .transitiveFailure
      · subst state
        simp [same]
      · simp [target, same]
  · rename_i node found
    simp only [mem_reindex]
    by_cases same : other = blockedId
    · subst other
      simp [stateOf, found, eq_comm]
    · simp [same]

section Loop

variable (failedDrv : DrvId) (list : List DrvId)

theorem foldl_markBlocked_getNode (graph : BuildGraph DrvId) (other : DrvId) :
    (list.foldl (markBlocked failedDrv) graph).getNode other =
      if other ∈ list then (graph.getNode other).map (GraphNode.block failedDrv)
      else graph.getNode other := by
  induction list generalizing graph with
  | nil => simp
  | cons head rest ih =>
    rw [List.foldl_cons, ih, markBlocked_getNode]
    by_cases same : other = head
    · subst other
      by_cases later : head ∈ rest <;>
        simp [later, Option.map_map, Function.comp_def, block_idempotent]
    · simp [same]

theorem foldl_markBlocked_frame (graph : BuildGraph DrvId) :
    (list.foldl (markBlocked failedDrv) graph).nodes.keys = graph.nodes.keys ∧
      (list.foldl (markBlocked failedDrv) graph).nodes.cap = graph.nodes.cap ∧
      (list.foldl (markBlocked failedDrv) graph).failedDrvs = graph.failedDrvs ∧
      (list.foldl (markBlocked failedDrv) graph).transitiveFailureMap = graph.transitiveFailureMap ∧
      (list.foldl (markBlocked failedDrv) graph).failureTtl = graph.failureTtl ∧
      (list.foldl (markBlocked failedDrv) graph).pinned = graph.pinned := by
  induction list generalizing graph with
  | nil => simp
  | cons head rest ih =>
    rw [List.foldl_cons]
    have step := markBlocked_frame failedDrv head graph
    have rest := ih (markBlocked failedDrv graph head)
    simp only [step] at rest
    exact rest

theorem mem_foldl_markBlocked_byState :
    other ∈ (list.foldl (markBlocked failedDrv) graph).byState state ↔
      if other ∈ list then
        state = .transitiveFailure ∨ (other ∈ graph.byState state ∧ graph.stateOf other ≠ some state)
      else other ∈ graph.byState state := by
  induction list generalizing graph with
  | nil => simp
  | cons head rest ih =>
    rw [List.foldl_cons, ih, mem_markBlocked_byState]
    by_cases same : other = head
    · subst other
      by_cases later : head ∈ rest
      · by_cases target : state = .transitiveFailure
        · simp [target]
        · cases found : graph.getNode head with
          | none => simp [later, target, stateOf, markBlocked_getNode, found]
          | some node =>
            simp [later, target, stateOf, markBlocked_getNode, found, GraphNode.block]
            exact fun _ _ => Ne.symm target
      · simp [later]
    · simp [same, stateOf, markBlocked_getNode]

end Loop

@[simp] theorem propagateFailure_fst (graph : BuildGraph DrvId) (failedDrv : DrvId) :
    (graph.propagateFailure failedDrv).1 = graph.getAllTransitiveDependents failedDrv := rfl

theorem propagateFailure_getNode (graph : BuildGraph DrvId) (failedDrv other : DrvId) :
    (graph.propagateFailure failedDrv).2.getNode other =
      if graph.StrictDependent failedDrv other then
        (graph.getNode other).map (GraphNode.block failedDrv)
      else graph.getNode other := by
  have node := foldl_markBlocked_getNode failedDrv
    (graph.getAllTransitiveDependents failedDrv) graph other
  simp only [mem_getAllTransitiveDependents] at node
  exact node

theorem propagateFailure_map (graph : BuildGraph DrvId) (failedDrv other : DrvId) :
    (graph.propagateFailure failedDrv).2.transitiveFailureMap other =
      if other = failedDrv then some (graph.getAllTransitiveDependents failedDrv)
      else graph.transitiveFailureMap other := by
  obtain ⟨-, -, -, kept, -⟩ :=
    foldl_markBlocked_frame failedDrv (graph.getAllTransitiveDependents failedDrv) graph
  simp only [propagateFailure, kept, Function.update_apply]

theorem propagateFailure_frame (graph : BuildGraph DrvId) (failedDrv : DrvId) :
    (graph.propagateFailure failedDrv).2.nodes.keys = graph.nodes.keys ∧
      (graph.propagateFailure failedDrv).2.nodes.cap = graph.nodes.cap ∧
      (graph.propagateFailure failedDrv).2.failedDrvs = graph.failedDrvs ∧
      (graph.propagateFailure failedDrv).2.failureTtl = graph.failureTtl ∧
      (graph.propagateFailure failedDrv).2.pinned = graph.pinned := by
  obtain ⟨keys, cap, failed, -, ttl, pinned⟩ :=
    foldl_markBlocked_frame failedDrv (graph.getAllTransitiveDependents failedDrv) graph
  exact ⟨keys, cap, failed, ttl, pinned⟩

theorem mem_propagateFailure_byState :
    other ∈ (graph.propagateFailure failedDrv).2.byState state ↔
      if graph.StrictDependent failedDrv other then
        state = .transitiveFailure ∨ (other ∈ graph.byState state ∧ graph.stateOf other ≠ some state)
      else other ∈ graph.byState state := by
  have index := @mem_foldl_markBlocked_byState _ graph other state _ failedDrv
    (graph.getAllTransitiveDependents failedDrv)
  simp only [mem_getAllTransitiveDependents] at index
  exact index

theorem propagateFailure_topology (graph : BuildGraph DrvId) (failedDrv : DrvId) :
    SameTopology (graph.propagateFailure failedDrv).2 graph := by
  refine ⟨(propagateFailure_frame graph failedDrv).1, fun drvId => ?_⟩
  simp only [getDependents, propagateFailure_getNode]
  split
  · simp [Option.map_map, Function.comp_def, GraphNode.block]
  · rfl

theorem unblock_idempotent (formerlyFailed : DrvId) (node : GraphNode DrvId) :
    (node.unblock formerlyFailed).unblock formerlyFailed = node.unblock formerlyFailed := by
  by_cases last : node.blockingFailures.erase formerlyFailed = ∅ <;>
    simp [GraphNode.unblock, last]

theorem unblock_getNode (formerlyFailed blockedId other : DrvId)
    (cleared : List DrvId × BuildGraph DrvId) :
    (unblock formerlyFailed cleared blockedId).2.getNode other =
      if other = blockedId then (cleared.2.getNode other).map (GraphNode.unblock formerlyFailed)
      else cleared.2.getNode other := by
  unfold unblock
  dsimp only
  split
  · rename_i absent
    by_cases same : other = blockedId
    · subst other
      simp [absent]
    · simp [same]
  · split <;> exact getNode_modify cleared.2 blockedId other _

theorem unblock_frame (formerlyFailed blockedId : DrvId) (cleared : List DrvId × BuildGraph DrvId) :
    (unblock formerlyFailed cleared blockedId).2.nodes.keys = cleared.2.nodes.keys ∧
      (unblock formerlyFailed cleared blockedId).2.transitiveFailureMap =
        cleared.2.transitiveFailureMap := by
  unfold unblock
  dsimp only
  split
  · simp
  · split <;> simp

theorem mem_unblock_fst {cleared : List DrvId × BuildGraph DrvId} :
    other ∈ (unblock formerlyFailed cleared blockedId).1 ↔ other ∈ cleared.1 ∨
      (other = blockedId ∧ ∃ node, cleared.2.getNode other = some node ∧
        node.blockingFailures.erase formerlyFailed = ∅) := by
  unfold unblock
  dsimp only
  split
  · rename_i absent
    constructor
    · exact .inl
    · rintro (member | ⟨same, node, found, -⟩)
      · exact member
      · rw [same, absent] at found
        cases found
  · rename_i node found
    split
    · rename_i last
      rw [List.mem_append, List.mem_singleton]
      constructor
      · rintro (member | same)
        · exact .inl member
        · exact .inr ⟨same, node, same ▸ found, last⟩
      · rintro (member | ⟨same, -⟩)
        · exact .inl member
        · exact .inr same
    · rename_i more
      constructor
      · exact .inl
      · rintro (member | ⟨same, other, found', last⟩)
        · exact member
        · rw [same, found] at found'
          cases found'
          exact absurd last more

section Loop

variable (formerlyFailed : DrvId) (list : List DrvId)

theorem foldl_unblock_getNode (cleared : List DrvId × BuildGraph DrvId) (other : DrvId) :
    (list.foldl (unblock formerlyFailed) cleared).2.getNode other =
      if other ∈ list then (cleared.2.getNode other).map (GraphNode.unblock formerlyFailed)
      else cleared.2.getNode other := by
  induction list generalizing cleared with
  | nil => simp
  | cons head rest ih =>
    rw [List.foldl_cons, ih, unblock_getNode]
    by_cases same : other = head
    · subst other
      by_cases later : head ∈ rest <;>
        simp [later, Option.map_map, Function.comp_def, unblock_idempotent]
    · simp [same]

theorem foldl_unblock_frame (cleared : List DrvId × BuildGraph DrvId) :
    (list.foldl (unblock formerlyFailed) cleared).2.nodes.keys = cleared.2.nodes.keys ∧
      (list.foldl (unblock formerlyFailed) cleared).2.transitiveFailureMap =
        cleared.2.transitiveFailureMap := by
  induction list generalizing cleared with
  | nil => simp
  | cons head rest ih =>
    have step := unblock_frame formerlyFailed head cleared
    have rest := ih (unblock formerlyFailed cleared head)
    rw [List.foldl_cons]
    exact ⟨rest.1.trans step.1, rest.2.trans step.2⟩

theorem mem_foldl_unblock_fst {cleared : List DrvId × BuildGraph DrvId} :
    other ∈ (list.foldl (unblock formerlyFailed) cleared).1 ↔ other ∈ cleared.1 ∨
      (other ∈ list ∧ ∃ node, cleared.2.getNode other = some node ∧
        node.blockingFailures.erase formerlyFailed = ∅) := by
  induction list generalizing cleared with
  | nil => simp
  | cons head rest ih =>
    rw [List.foldl_cons, ih, mem_unblock_fst, unblock_getNode]
    by_cases same : other = head
    · subst other
      cases found : cleared.2.getNode head with
      | none => simp
      | some node =>
        by_cases last : node.blockingFailures.erase formerlyFailed = ∅ <;>
          simp [last, GraphNode.unblock]
    · simp [same]

end Loop

/-- The drvs a failure is recorded to block; none if it is not tracked. -/
def blockedBy (graph : BuildGraph DrvId) (failedDrv : DrvId) : List DrvId :=
  (graph.transitiveFailureMap failedDrv).getD []

theorem clearFailure_getNode (graph : BuildGraph DrvId) (formerlyFailed other : DrvId) :
    (graph.clearFailure formerlyFailed).2.getNode other =
      if other ∈ graph.blockedBy formerlyFailed then
        (graph.getNode other).map (GraphNode.unblock formerlyFailed)
      else graph.getNode other := by
  unfold clearFailure blockedBy
  split
  · rename_i untracked
    simp [untracked]
  · rename_i blockedSet tracked
    rw [foldl_unblock_getNode, tracked]
    rfl

theorem clearFailure_map (graph : BuildGraph DrvId) (formerlyFailed other : DrvId) :
    (graph.clearFailure formerlyFailed).2.transitiveFailureMap other =
      if other = formerlyFailed then none else graph.transitiveFailureMap other := by
  unfold clearFailure
  split
  · rename_i untracked
    by_cases same : other = formerlyFailed
    · subst other
      simp [untracked]
    · simp [same]
  · rw [(foldl_unblock_frame ..).2]
    simp [Function.update_apply]

theorem mem_clearFailure_fst :
    other ∈ (graph.clearFailure formerlyFailed).1 ↔ other ∈ graph.blockedBy formerlyFailed ∧
      ∃ node, graph.getNode other = some node ∧ node.blockingFailures.erase formerlyFailed = ∅ := by
  unfold clearFailure blockedBy
  split
  · rename_i untracked
    simp [untracked]
  · rename_i blockedSet tracked
    rw [mem_foldl_unblock_fst, tracked]
    simp [getNode]

theorem clearFailure_topology (graph : BuildGraph DrvId) (formerlyFailed : DrvId) :
    SameTopology (graph.clearFailure formerlyFailed).2 graph := by
  constructor
  · unfold clearFailure
    split
    · rfl
    · exact (foldl_unblock_frame ..).1
  · intro drvId
    simp only [getDependents, clearFailure_getNode]
    split
    · rw [Option.map_map]
      congr 2
      funext node
      simp only [Function.comp_apply, GraphNode.unblock]
      split <;> rfl
    · rfl

end EkaCI.BuildGraph
