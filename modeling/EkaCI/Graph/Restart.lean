import EkaCI.Graph.Algebra
import EkaCI.Graph.Startup

/-! What a restart makes of a database, and when a graph is the one that a restart
would make, up to the work that a restart forgets. -/

namespace EkaCI

open Lib

variable {DrvId : Type} [DecidableEq DrvId]

namespace BuildGraph

section Load

variable {now : Instant}

theorem insertNodes_getNode (now : Instant) (drvs : List (Drv DrvId)) (graph : BuildGraph DrvId)
    (room : graph.nodes.keys.length + drvs.length ≤ graph.nodes.cap)
    (distinct : (drvs.map (·.drvPath)).Nodup) :
    (∀ drv ∈ drvs, (drvs.foldl (fun graph drv => (graph.insertNode now drv).2) graph).getNode drv.drvPath =
        some (.fromDrv drv)) ∧
      ∀ drvId, drvId ∉ drvs.map (·.drvPath) →
        (drvs.foldl (fun graph drv => (graph.insertNode now drv).2) graph).getNode drvId =
          graph.getNode drvId := by
  induction drvs generalizing graph with
  | nil => exact ⟨List.forall_mem_nil _, fun _ _ => rfl⟩
  | cons drv rest ih =>
    rw [List.map_cons, List.nodup_cons] at distinct
    rw [List.length_cons] at room
    have grown := insertNode_length now drv graph
    have inserted := fun drvId => @insertNode_getNode_of_room _ _ graph now drvId drv (by omega)
    obtain ⟨present, kept⟩ := ih (graph.insertNode now drv).2 (by omega) distinct.2
    constructor
    · intro other member
      rcases List.mem_cons.mp member with same | later
      · subst same
        rw [List.foldl_cons, kept other.drvPath distinct.1, inserted, if_pos rfl]
      · exact present other later
    · intro drvId absent
      rw [List.map_cons, List.mem_cons, not_or] at absent
      rw [List.foldl_cons, kept drvId absent.2, inserted, if_neg absent.1]

variable {graph : BuildGraph DrvId} {node : GraphNode DrvId} {referrer target reference source : DrvId}
  {refs : List (DrvId × DrvId)} {drvs : List (Drv DrvId)}

theorem insertNodes_failed {failed : DrvId} :
    failed ∈ (drvs.foldl (fun graph drv => (graph.insertNode now drv).2) graph).failedDrvs.keys ↔
      (∃ drv ∈ drvs, drv.drvPath = failed ∧ drv.buildState = .completed .failure) ∨
        failed ∈ graph.failedDrvs.keys := by
  induction drvs generalizing graph with
  | nil => simp
  | cons drv rest ih =>
    rw [List.foldl_cons, ih]
    have inserted : failed ∈ (graph.insertNode now drv).2.failedDrvs.keys ↔
        (drv.drvPath = failed ∧ drv.buildState = .completed .failure) ∨ failed ∈ graph.failedDrvs.keys := by
      simp only [insertNode]
      split
      · rename_i failure
        rw [Table.push_keys]
        by_cases same : failed = drv.drvPath
        · simp [same, failure]
        · simp [same, Ne.symm same]
      · rename_i other
        simp [other]
    rw [inserted]
    simp only [List.mem_cons, exists_eq_or_imp]
    rw [or_left_comm, or_assoc]

omit [DecidableEq DrvId] in
theorem addDependency_dependents [DecidableEq DrvId] (reference : DrvId) (node : GraphNode DrvId) :
    (node.addDependency reference).dependents = node.dependents := by
  unfold GraphNode.addDependency
  split <;> rfl

theorem mem_addDependent :
    target ∈ (node.addDependent referrer).dependents ↔ target ∈ node.dependents ∨ target = referrer := by
  unfold GraphNode.addDependent
  split
  · rename_i listed
    refine ⟨.inl, fun found => found.elim id fun same => same ▸ listed⟩
  · simp

theorem mem_addEdge_getDependents :
    target ∈ (graph.addEdge referrer reference).getDependents source ↔
      target ∈ graph.getDependents source ∨
        (source ∈ graph.nodes.keys ∧ target = referrer ∧ source = reference) := by
  have resident : source ∈ graph.nodes.keys ↔ ∃ node, graph.getNode source = some node := LruCache.mem_keys_iff
  rw [resident]
  simp only [getDependents, addEdge_getNode, Option.map_map]
  cases found : graph.getNode source with
  | none => simp
  | some node =>
    have forward : (if source = referrer then node.addDependency reference else node).dependents =
        node.dependents := by
      split
      · exact addDependency_dependents reference node
      · rfl
    simp only [Option.map_some, Function.comp_apply, Option.getD_some, Option.some.injEq, exists_eq', true_and]
    split
    · rename_i same
      rw [mem_addDependent, forward]
      simp [same]
    · rename_i different
      simp [forward, different]

omit [DecidableEq DrvId] in
theorem addDependent_dependencies [DecidableEq DrvId] (referrer : DrvId) (node : GraphNode DrvId) :
    (node.addDependent referrer).dependencies = node.dependencies := by
  unfold GraphNode.addDependent
  split <;> rfl

theorem mem_addDependency :
    target ∈ (node.addDependency reference).dependencies ↔ target ∈ node.dependencies ∨ target = reference := by
  unfold GraphNode.addDependency
  split
  · rename_i listed
    refine ⟨.inl, fun found => found.elim id fun same => same ▸ listed⟩
  · simp

theorem mem_addEdge_getDependencies :
    target ∈ (graph.addEdge referrer reference).getDependencies source ↔
      target ∈ graph.getDependencies source ∨
        (source ∈ graph.nodes.keys ∧ source = referrer ∧ target = reference) := by
  have resident : source ∈ graph.nodes.keys ↔ ∃ node, graph.getNode source = some node := LruCache.mem_keys_iff
  rw [resident]
  simp only [getDependencies, addEdge_getNode, Option.map_map]
  cases found : graph.getNode source with
  | none => simp
  | some node =>
    simp only [Option.map_some, Function.comp_apply, Option.getD_some, Option.some.injEq, exists_eq', true_and]
    have backward : ∀ node : GraphNode DrvId,
        (if source = reference then node.addDependent referrer else node).dependencies = node.dependencies := by
      intro node
      split
      · exact addDependent_dependencies referrer node
      · rfl
    rw [backward]
    split
    · rename_i same
      rw [mem_addDependency]
      simp [same]
    · rename_i different
      simp [different]

theorem addEdge_getFailedDependencies (referrer reference drvId : DrvId) (graph : BuildGraph DrvId) :
    (graph.addEdge referrer reference).getFailedDependencies drvId = graph.getFailedDependencies drvId := by
  rw [getFailedDependencies, getFailedDependencies]
  cases found : (graph.addEdge referrer reference).getNode drvId with
  | none =>
    rw [addEdge_getNode, Option.map_eq_none_iff] at found
    rw [found]
  | some node =>
    obtain ⟨original, held, same⟩ := getNode_of_addEdge found
    rw [held, same]
    rfl

theorem addEdges_getDependents :
    target ∈ (refs.foldl (fun graph edge => graph.addEdge edge.1 edge.2) graph).getDependents source ↔
      target ∈ graph.getDependents source ∨ (source ∈ graph.nodes.keys ∧ (target, source) ∈ refs) := by
  induction refs generalizing graph with
  | nil => simp
  | cons edge rest ih =>
    have keys : (graph.addEdge edge.1 edge.2).nodes.keys = graph.nodes.keys := rfl
    rw [List.foldl_cons, ih, keys, mem_addEdge_getDependents, List.mem_cons, Prod.ext_iff]
    tauto

theorem addEdges_getDependencies :
    target ∈ (refs.foldl (fun graph edge => graph.addEdge edge.1 edge.2) graph).getDependencies source ↔
      target ∈ graph.getDependencies source ∨ (source ∈ graph.nodes.keys ∧ (source, target) ∈ refs) := by
  induction refs generalizing graph with
  | nil => simp
  | cons edge rest ih =>
    have keys : (graph.addEdge edge.1 edge.2).nodes.keys = graph.nodes.keys := rfl
    rw [List.foldl_cons, ih, keys, mem_addEdge_getDependencies, List.mem_cons, Prod.ext_iff]
    tauto

theorem addEdges_frame (refs : List (DrvId × DrvId)) (graph : BuildGraph DrvId) :
    (refs.foldl (fun graph edge => graph.addEdge edge.1 edge.2) graph).nodes.keys = graph.nodes.keys ∧
      (refs.foldl (fun graph edge => graph.addEdge edge.1 edge.2) graph).failedDrvs = graph.failedDrvs ∧
      (refs.foldl (fun graph edge => graph.addEdge edge.1 edge.2) graph).transitiveFailureMap =
        graph.transitiveFailureMap ∧
      (∀ drvId, (refs.foldl (fun graph edge => graph.addEdge edge.1 edge.2) graph).stateOf drvId =
        graph.stateOf drvId) ∧
      ∀ drvId, (refs.foldl (fun graph edge => graph.addEdge edge.1 edge.2) graph).getFailedDependencies drvId =
        graph.getFailedDependencies drvId := by
  induction refs generalizing graph with
  | nil => exact ⟨rfl, rfl, rfl, fun _ => rfl, fun _ => rfl⟩
  | cons edge rest ih =>
    obtain ⟨keys, failed, map, states, blockers⟩ := ih (graph.addEdge edge.1 edge.2)
    exact ⟨keys, failed, map, fun drvId => (states drvId).trans (addEdge_stateOf ..),
      fun drvId => (blockers drvId).trans (addEdge_getFailedDependencies ..)⟩

theorem insertNodes_map (drvs : List (Drv DrvId)) (graph : BuildGraph DrvId) :
    (drvs.foldl (fun graph drv => (graph.insertNode now drv).2) graph).transitiveFailureMap =
      graph.transitiveFailureMap := by
  induction drvs generalizing graph with
  | nil => rfl
  | cons drv rest ih => exact ih _

/-- The graph with drvs and then edges added. -/
def extend (graph : BuildGraph DrvId) (now : Instant) (drvs : List (Drv DrvId)) (refs : List (DrvId × DrvId)) :
    BuildGraph DrvId :=
  refs.foldl (fun graph edge => graph.addEdge edge.1 edge.2)
    (drvs.foldl (fun graph drv => (graph.insertNode now drv).2) graph)

/-- What new drvs and edges make of a graph when nothing has to leave. -/
structure Extended (graph : BuildGraph DrvId) (drvs : List (Drv DrvId)) (refs : List (DrvId × DrvId))
    (next : BuildGraph DrvId) : Prop where
  resident : ∀ drvId, drvId ∈ next.nodes.keys ↔ drvId ∈ graph.nodes.keys ∨ drvId ∈ drvs.map (·.drvPath)
  dependent : ∀ source target, next.Dependent source target ↔
    graph.Dependent source target ∨ (source ∈ next.nodes.keys ∧ (target, source) ∈ refs)
  inserted : ∀ drv ∈ drvs, next.stateOf drv.drvPath = some drv.buildState
  kept : ∀ drvId, drvId ∉ drvs.map (·.drvPath) → next.stateOf drvId = graph.stateOf drvId
  blockers : ∀ drvId, next.getFailedDependencies drvId = graph.getFailedDependencies drvId
  map : next.transitiveFailureMap = graph.transitiveFailureMap
  failed : ∀ drvId, drvId ∈ next.failedDrvs.keys ↔
    (∃ drv ∈ drvs, drv.drvPath = drvId ∧ drv.buildState = .completed .failure) ∨
      drvId ∈ graph.failedDrvs.keys

theorem extend_extended (refs : List (DrvId × DrvId)) (room : graph.nodes.keys.length + drvs.length ≤ graph.nodes.cap)
    (distinct : (drvs.map (·.drvPath)).Nodup) (fresh : ∀ drv ∈ drvs, drv.drvPath ∉ graph.nodes.keys) :
    Extended graph drvs refs (graph.extend now drvs refs) := by
  obtain ⟨present, absent⟩ := insertNodes_getNode now drvs graph room distinct
  obtain ⟨keys, failed, map, states, blockers⟩ := addEdges_frame refs
    (drvs.foldl (fun graph drv => (graph.insertNode now drv).2) graph)
  have missing : ∀ drv ∈ drvs, graph.getNode drv.drvPath = none := by
    intro drv member
    cases found : graph.getNode drv.drvPath with
    | none => rfl
    | some node => exact absurd (LruCache.mem_keys_iff.mpr ⟨node, found⟩) (fresh drv member)
  -- a new node has no edge and no blocker, as it had none while it was absent
  have dependents : ∀ source, (drvs.foldl (fun graph drv => (graph.insertNode now drv).2) graph).getDependents
      source = graph.getDependents source := by
    intro source
    by_cases new : source ∈ drvs.map (·.drvPath)
    · obtain ⟨drv, member, rfl⟩ := List.mem_map.mp new
      rw [getDependents, present drv member, getDependents, missing drv member]
      rfl
    · rw [getDependents, absent source new, getDependents]
  have resident : ∀ drvId, drvId ∈ (graph.extend now drvs refs).nodes.keys ↔
      drvId ∈ graph.nodes.keys ∨ drvId ∈ drvs.map (·.drvPath) := by
    intro drvId
    rw [extend, keys, LruCache.mem_keys_iff, ← getNode]
    by_cases new : drvId ∈ drvs.map (·.drvPath)
    · obtain ⟨drv, member, rfl⟩ := List.mem_map.mp new
      simp [present drv member, new]
    · rw [absent drvId new, getNode, ← LruCache.mem_keys_iff]
      simp only [new, or_false]
  refine ⟨resident, fun source target => ?_, fun drv member => ?_, fun drvId old => ?_, fun drvId => ?_, ?_,
    fun drvId => ?_⟩
  · rw [Dependent, extend, addEdges_getDependents, dependents, keys]
    rfl
  · rw [extend, states, stateOf, present drv member]
    rfl
  · rw [extend, states, stateOf, absent drvId old, stateOf]
  · rw [extend, blockers]
    by_cases new : drvId ∈ drvs.map (·.drvPath)
    · obtain ⟨drv, member, rfl⟩ := List.mem_map.mp new
      rw [getFailedDependencies, present drv member, getFailedDependencies, missing drv member]
      rfl
    · rw [getFailedDependencies, absent drvId new, getFailedDependencies]
  · rw [extend, map, insertNodes_map]
  · rw [extend, failed, insertNodes_failed]

theorem load_extended {capacity : Nat} {positive : 0 < capacity} (refs : List (DrvId × DrvId))
    (room : drvs.length ≤ capacity) (distinct : (drvs.map (·.drvPath)).Nodup) :
    Extended (new capacity positive) drvs refs (load capacity positive now drvs refs) := by
  refine extend_extended refs ?_ distinct fun _ _ => List.not_mem_nil
  rw [← Nat.zero_add drvs.length] at room
  exact room

end Load

omit [DecidableEq DrvId] in
theorem getFailedDependencies_of_absent {graph : BuildGraph DrvId} {drvId : DrvId}
    (absent : drvId ∉ graph.nodes.keys) : graph.getFailedDependencies drvId = ∅ := by
  cases found : graph.getNode drvId with
  | none => rw [getFailedDependencies, found, Option.map_none, Option.getD_none]
  | some node => exact absurd (LruCache.mem_keys_iff.mpr ⟨node, found⟩) absent

omit [DecidableEq DrvId] in
theorem stateOf_of_absent {graph : BuildGraph DrvId} {drvId : DrvId} (absent : drvId ∉ graph.nodes.keys) :
    graph.stateOf drvId = none := by
  cases found : graph.getNode drvId with
  | none => rw [stateOf, found, Option.map_none]
  | some node => exact absurd (LruCache.mem_keys_iff.mpr ⟨node, found⟩) absent

end BuildGraph

@[simp] theorem DrvBuildState.normalize_normalize (state : DrvBuildState) :
    state.normalize.normalize = state.normalize := by
  cases state <;> rfl

theorem DrvBuildState.normalize_eq_failure {state : DrvBuildState} :
    state.normalize = .completed .failure ↔ state = .completed .failure := by
  cases state <;> simp [normalize]

namespace BuildGraph

/-- The graph has the drvs and the edges of the database, its blockers are the
permanent failures there, and the drvs that nothing blocks have the state of
their row, up to the work that a restart forgets. -/
structure Agrees (graph : BuildGraph DrvId) (db : Database DrvId) : Prop where
  resident : ∀ drvId, drvId ∈ graph.nodes.keys ↔ drvId ∈ db.drvs.keys
  dependent : ∀ source target, graph.Dependent source target ↔
    source ∈ db.drvs.keys ∧ (target, source) ∈ db.refs
  blockers : ∀ drvId ∈ graph.nodes.keys, ∀ failed, failed ∈ graph.getFailedDependencies drvId ↔
    db.rowState failed = some (.completed .failure) ∧ graph.StrictDependent failed drvId
  blocked : ∀ drvId, graph.getFailedDependencies drvId ≠ ∅ → graph.stateOf drvId = some .transitiveFailure
  free : ∀ drvId, graph.getFailedDependencies drvId = ∅ →
    (graph.stateOf drvId).map (·.normalize) = (db.rowState drvId).map (·.normalize)

theorem lastPropagated_map {list : List DrvId} {drvId : DrvId} :
    LastPropagated (list.map .propagate) drvId ↔ drvId ∈ list := by
  induction list using List.reverseRecOn with
  | nil => simp [LastPropagated]
  | append_singleton list last ih =>
    rw [List.map_append, List.map_singleton, lastPropagated_snoc, ih]
    by_cases same : last = drvId
    · simp [FailureCall.drvId, same]
    · simp [FailureCall.drvId, same, Ne.symm same]

section Restart

variable {db : Database DrvId} {capacity : Nat} {positive : 0 < capacity} {now : Instant}

/-- The drvs that a restart loads. -/
def normalDrvs (db : Database DrvId) : List (Drv DrvId) :=
  db.getAllDrvs.map fun drv => { drv with buildState := drv.buildState.normalize, preferLocalBuild := false }

omit [DecidableEq DrvId] in
theorem normalDrvs_paths : (normalDrvs db).map (·.drvPath) = db.drvs.keys.reverse := by
  rw [normalDrvs, List.map_map]
  exact db.getAllDrvs_paths

omit [DecidableEq DrvId] in
theorem mem_normalDrvs {drvId : DrvId} {state : DrvBuildState} :
    (∃ drv ∈ normalDrvs db, drv.drvPath = drvId ∧ drv.buildState = state) ↔
      ∃ row, db.rowState drvId = some row ∧ row.normalize = state := by
  constructor
  · rintro ⟨normal, member, rfl, rfl⟩
    obtain ⟨drv, inside, rfl⟩ := List.mem_map.mp member
    refine ⟨drv.buildState, ?_, rfl⟩
    rw [Database.rowState, Database.mem_getAllDrvs.mp inside, Option.map_some]
  · rintro ⟨row, found, rfl⟩
    obtain ⟨drv, held, rfl⟩ := Option.map_eq_some_iff.mp found
    have path : drv.drvPath = drvId := db.keyed drvId drv held
    subst path
    exact ⟨_, List.mem_map_of_mem (Database.mem_getAllDrvs.mpr held), rfl, rfl⟩

theorem fromDatabase_described (room : db.drvs.keys.length ≤ capacity) : ∃ loaded : BuildGraph DrvId,
    Extended (new capacity positive) (normalDrvs db) db.refs loaded ∧
      Described loaded (loaded.failedDrvs.keys.map .propagate) (fromDatabase db capacity positive now) := by
  have fits : (normalDrvs db).length ≤ capacity := by
    rw [← List.length_map, normalDrvs_paths, List.length_reverse]
    exact room
  have distinct : ((normalDrvs db).map (·.drvPath)).Nodup := by
    rw [normalDrvs_paths]
    exact List.nodup_reverse.mpr db.drvs.nodup
  refine ⟨load capacity positive now (normalDrvs db) db.refs, load_extended db.refs fits distinct, ?_⟩
  have calls : fromDatabase db capacity positive now =
      (load capacity positive now (normalDrvs db) db.refs).performCalls
        ((load capacity positive now (normalDrvs db) db.refs).failedDrvs.keys.map .propagate) := by
    rw [performCalls, List.foldl_map]
    rfl
  rw [calls]
  exact (load_untracked ..).performCalls _

omit [DecidableEq DrvId] in
theorem mem_failed_of_extended {loaded : BuildGraph DrvId}
    (held : Extended (new capacity positive) (normalDrvs db) db.refs loaded) {failed : DrvId} :
    failed ∈ loaded.failedDrvs.keys ↔ db.rowState failed = some (.completed .failure) := by
  have none : failed ∉ (new capacity positive : BuildGraph DrvId).failedDrvs.keys := List.not_mem_nil
  rw [held.failed, mem_normalDrvs, or_iff_left none]
  constructor
  · rintro ⟨row, found, normal⟩
    rw [found, DrvBuildState.normalize_eq_failure.mp normal]
  · intro found
    exact ⟨_, found, rfl⟩

theorem describe_of_free {loaded : BuildGraph DrvId} {list : List DrvId} {drvId : DrvId}
    (free : loaded.blockers (list.map .propagate) drvId = ∅) (node : GraphNode DrvId) :
    (loaded.describe (list.map .propagate) drvId node).buildState = node.buildState := by
  have never : ¬ loaded.EverBlocked (list.map .propagate) drvId := by
    rintro ⟨call, member, -, strict⟩
    obtain ⟨failed, listed, rfl⟩ := List.mem_map.mp member
    have blocked := mem_blockers.mpr ⟨lastPropagated_map.mpr listed, strict⟩
    rw [free] at blocked
    exact Finset.notMem_empty _ blocked
  simp only [describe, if_neg never]

theorem fromDatabase_agrees (room : db.drvs.keys.length ≤ capacity) :
    (fromDatabase db capacity positive now).Agrees db := by
  obtain ⟨loaded, held, described⟩ := @fromDatabase_described _ _ db capacity positive now room
  have resident : ∀ drvId, drvId ∈ (fromDatabase db capacity positive now).nodes.keys ↔
      drvId ∈ db.drvs.keys := by
    intro drvId
    have none : drvId ∉ (new capacity positive : BuildGraph DrvId).nodes.keys := List.not_mem_nil
    rw [described.topology.keys, held.resident, normalDrvs_paths, List.mem_reverse, or_iff_right none]
  have blockers : ∀ drvId node, loaded.getNode drvId = some node →
      (fromDatabase db capacity positive now).getFailedDependencies drvId =
        loaded.blockers (loaded.failedDrvs.keys.map .propagate) drvId := by
    intro drvId node found
    rw [getFailedDependencies, described.node, found]
    rfl
  have found : ∀ drvId, drvId ∈ (fromDatabase db capacity positive now).nodes.keys →
      ∃ node, loaded.getNode drvId = some node := by
    intro drvId member
    rw [described.topology.keys] at member
    exact LruCache.mem_keys_iff.mp member
  refine ⟨resident, fun source target => ?_, fun drvId member failed => ?_, fun drvId nonempty => ?_,
    fun drvId empty => ?_⟩
  · have none : ¬ (new capacity positive : BuildGraph DrvId).Dependent source target := List.not_mem_nil
    rw [Dependent, described.topology.dependents, ← Dependent, held.dependent, ← resident,
      described.topology.keys, or_iff_right none]
  · obtain ⟨node, present⟩ := found drvId member
    rw [blockers drvId node present, mem_blockers, lastPropagated_map, mem_failed_of_extended held,
      described.topology.strictDependent]
  · cases present : loaded.getNode drvId with
    | none => simp [getFailedDependencies, described.node, present] at nonempty
    | some node =>
      rw [blockers drvId node present] at nonempty
      obtain ⟨failed, member⟩ := Finset.nonempty_iff_ne_empty.mpr nonempty
      simp [stateOf, described.node, present, describe, everBlocked_of_mem_blockers member, nonempty]
  · cases present : loaded.getNode drvId with
    | none =>
      have missing : drvId ∉ db.drvs.keys := by
        rw [← resident, described.topology.keys, LruCache.mem_keys_iff]
        rintro ⟨node, other⟩
        cases present.symm.trans other
      simp [stateOf, described.node, present, Database.rowState, Database.getDrv,
        Table.get_none_iff.mpr missing]
    | some node =>
      rw [blockers drvId node present] at empty
      have state : (fromDatabase db capacity positive now).stateOf drvId = some node.buildState := by
        rw [stateOf, described.node, present, Option.map_some, Option.map_some, describe_of_free empty]
      have listed : drvId ∈ (normalDrvs db).map (·.drvPath) :=
        ((held.resident drvId).mp (LruCache.mem_keys_iff.mpr ⟨node, present⟩)).resolve_left List.not_mem_nil
      obtain ⟨drv, inside, named⟩ := List.mem_map.mp listed
      have loadedState := held.inserted drv inside
      rw [named, stateOf, present, Option.map_some, Option.some.injEq] at loadedState
      obtain ⟨row, stored, normal⟩ := mem_normalDrvs.mp ⟨drv, inside, named, loadedState.symm⟩
      rw [state, stored, Option.map_some, Option.map_some, ← normal, DrvBuildState.normalize_normalize]

theorem fromDatabase_blockedBy (room : db.drvs.keys.length ≤ capacity) {failed drvId : DrvId}
    (listed : drvId ∈ (fromDatabase db capacity positive now).blockedBy failed) :
    (fromDatabase db capacity positive now).StrictDependent failed drvId ∧
      (drvId ∈ (fromDatabase db capacity positive now).nodes.keys →
        failed ∈ (fromDatabase db capacity positive now).getFailedDependencies drvId) := by
  obtain ⟨loaded, held, described⟩ := @fromDatabase_described _ _ db capacity positive now room
  obtain ⟨last, strict⟩ := mem_blockers.mp (described.mem_blockedBy.mp listed)
  have strict := (described.topology.strictDependent failed drvId).mpr strict
  rw [lastPropagated_map, mem_failed_of_extended held] at last
  exact ⟨strict, fun resident =>
    ((fromDatabase_agrees room).blockers drvId resident failed).mpr ⟨last, strict⟩⟩

theorem fromDatabase_normal {drvId : DrvId} :
    ((fromDatabase db capacity positive now).stateOf drvId).map (·.normalize) =
      (fromDatabase db capacity positive now).stateOf drvId := by
  cases found : (fromDatabase db capacity positive now).stateOf drvId with
  | none => rfl
  | some state =>
    rcases fromDatabase_stateOf found with rfl | ⟨drv, -, -, rfl⟩
    · rfl
    · rw [Option.map_some, DrvBuildState.normalize_normalize]

/-- A graph that agrees with a database is, up to the work that a restart
forgets, the graph that the restart makes. -/
theorem Agrees.restart {graph : BuildGraph DrvId} (agrees : graph.Agrees db)
    (room : db.drvs.keys.length ≤ capacity) (drvId : DrvId) :
    (fromDatabase db capacity positive now).stateOf drvId = (graph.stateOf drvId).map (·.normalize) ∧
      (fromDatabase db capacity positive now).getFailedDependencies drvId =
        graph.getFailedDependencies drvId := by
  have restarted := @fromDatabase_agrees _ _ db capacity positive now room
  have edges : (fromDatabase db capacity positive now).Dependent = graph.Dependent := by
    funext source target
    exact propext ((restarted.dependent source target).trans (agrees.dependent source target).symm)
  have blockers : (fromDatabase db capacity positive now).getFailedDependencies drvId =
      graph.getFailedDependencies drvId := by
    by_cases resident : drvId ∈ graph.nodes.keys
    · ext failed
      have reloaded := (restarted.resident drvId).mpr ((agrees.resident drvId).mp resident)
      rw [restarted.blockers drvId reloaded, agrees.blockers drvId resident]
      simp only [StrictDependent, edges]
    · have gone : drvId ∉ (fromDatabase db capacity positive now).nodes.keys := by
        rwa [restarted.resident, ← agrees.resident]
      rw [getFailedDependencies_of_absent resident, getFailedDependencies_of_absent gone]
  refine ⟨?_, blockers⟩
  by_cases free : graph.getFailedDependencies drvId = ∅
  · rw [← fromDatabase_normal, restarted.free drvId (blockers.trans free), agrees.free drvId free]
  · rw [agrees.blocked drvId free, restarted.blocked drvId (blockers ▸ free)]
    rfl

end Restart


end BuildGraph

end EkaCI
