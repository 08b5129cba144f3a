import EkaCI.Graph.Effects

/-! The graph service as it starts: what the database leaves in the graph, in the
state index and in the shared view. -/

namespace EkaCI

open Lib

variable {DrvId : Type} [DecidableEq DrvId]

namespace BuildGraph

section Load

variable {now : Instant} {graph : BuildGraph DrvId} {drvId : DrvId} {node : GraphNode DrvId}

theorem getNode_of_insertNodes {drvs : List (Drv DrvId)}
    (found : (drvs.foldl (fun graph drv => (graph.insertNode now drv).2) graph).getNode drvId = some node) :
    (∃ drv ∈ drvs, drv.drvPath = drvId ∧ node = .fromDrv drv) ∨ graph.getNode drvId = some node := by
  induction drvs generalizing graph with
  | nil => exact .inr found
  | cons drv rest ih =>
    rcases ih found with ⟨later, member, named, made⟩ | earlier
    · exact .inl ⟨later, List.mem_cons_of_mem _ member, named, made⟩
    · by_cases same : drvId = drv.drvPath
      · subst same
        rw [insertNode_getNode_self] at earlier
        exact .inl ⟨drv, List.mem_cons_self .., rfl, (Option.some.inj earlier).symm⟩
      · exact .inr (getNode_of_insertNode same earlier)

theorem mem_byState_of_insertNodes {drvs : List (Drv DrvId)} {state : DrvBuildState}
    (member : drvId ∈ (drvs.foldl (fun graph drv => (graph.insertNode now drv).2) graph).byState state) :
    (∃ drv ∈ drvs, drv.buildState = state) ∨ drvId ∈ graph.byState state := by
  induction drvs generalizing graph with
  | nil => exact .inr member
  | cons drv rest ih =>
    rcases ih member with ⟨later, inside, same⟩ | earlier
    · exact .inl ⟨later, List.mem_cons_of_mem _ inside, same⟩
    · by_cases same : drv.buildState = state
      · exact .inl ⟨drv, List.mem_cons_self .., same⟩
      · simp only [insertNode, Function.update_of_ne (Ne.symm same)] at earlier
        exact .inr earlier

theorem getNode_of_addEdges {refs : List (DrvId × DrvId)}
    (found : (refs.foldl (fun graph edge => graph.addEdge edge.1 edge.2) graph).getNode drvId = some node) :
    ∃ original, graph.getNode drvId = some original ∧
      node = { original with dependencies := node.dependencies, dependents := node.dependents } := by
  induction refs generalizing graph node with
  | nil => exact ⟨node, found, rfl⟩
  | cons edge rest ih =>
    obtain ⟨linked, held, same⟩ := ih found
    obtain ⟨original, kept, made⟩ := getNode_of_addEdge held
    refine ⟨original, kept, ?_⟩
    rw [same, made]

theorem addEdges_byState (refs : List (DrvId × DrvId)) (graph : BuildGraph DrvId) :
    (refs.foldl (fun graph edge => graph.addEdge edge.1 edge.2) graph).byState = graph.byState := by
  induction refs generalizing graph with
  | nil => rfl
  | cons edge rest ih => exact ih _

theorem getNode_of_load {capacity : Nat} {positive : 0 < capacity} {drvs : List (Drv DrvId)}
    {refs : List (DrvId × DrvId)} (found : (load capacity positive now drvs refs).getNode drvId = some node) :
    ∃ drv ∈ drvs, drv.drvPath = drvId ∧ node.buildState = drv.buildState := by
  obtain ⟨original, held, same⟩ := getNode_of_addEdges found
  rcases getNode_of_insertNodes held with ⟨drv, member, named, made⟩ | missing
  · refine ⟨drv, member, named, ?_⟩
    rw [same, made]
    rfl
  · cases missing

end Load

theorem foldl_propagateFailure_topology (list : List DrvId) (graph : BuildGraph DrvId) :
    SameTopology (list.foldl (fun graph failed => (graph.propagateFailure failed).2) graph) graph := by
  induction list generalizing graph with
  | nil => exact ⟨rfl, fun _ => rfl⟩
  | cons failed rest ih => exact (ih _).trans (propagateFailure_topology graph failed)

theorem foldl_propagateFailure_stateOf {graph : BuildGraph DrvId} {list : List DrvId} {drvId : DrvId}
    {state : DrvBuildState}
    (found : (list.foldl (fun graph failed => (graph.propagateFailure failed).2) graph).stateOf drvId =
      some state) :
    state = .transitiveFailure ∨ graph.stateOf drvId = some state := by
  induction list generalizing graph with
  | nil => exact .inr found
  | cons failed rest ih =>
    rcases ih found with blocked | earlier
    · exact .inl blocked
    · rw [stateOf, propagateFailure_getNode] at earlier
      split at earlier
      · obtain ⟨node, held, same⟩ := Option.map_eq_some_iff.mp earlier
        obtain ⟨original, -, made⟩ := Option.map_eq_some_iff.mp held
        rw [← same, ← made]
        exact .inl rfl
      · exact .inr earlier

theorem foldl_propagateFailure_byState {graph : BuildGraph DrvId} {list : List DrvId} {drvId : DrvId}
    {state : DrvBuildState}
    (member : drvId ∈ (list.foldl (fun graph failed => (graph.propagateFailure failed).2) graph).byState state) :
    state = .transitiveFailure ∨ drvId ∈ graph.byState state := by
  induction list generalizing graph with
  | nil => exact .inr member
  | cons failed rest ih =>
    rcases ih member with blocked | earlier
    · exact .inl blocked
    · rw [mem_propagateFailure_byState] at earlier
      split at earlier
      · exact earlier.imp_right (·.1)
      · exact .inr earlier

section FromDatabase

variable {db : Database DrvId} {capacity : Nat} {positive : 0 < capacity} {now : Instant} {drvId : DrvId}
  {state : DrvBuildState}

theorem fromDatabase_stateOf (found : (fromDatabase db capacity positive now).stateOf drvId = some state) :
    state = .transitiveFailure ∨
      ∃ drv ∈ db.getAllDrvs, drv.drvPath = drvId ∧ state = drv.buildState.normalize := by
  rcases foldl_propagateFailure_stateOf found with blocked | loaded
  · exact .inl blocked
  · obtain ⟨node, held, same⟩ := Option.map_eq_some_iff.mp loaded
    obtain ⟨normal, member, named, made⟩ := getNode_of_load held
    obtain ⟨drv, inside, equal⟩ := List.mem_map.mp member
    refine .inr ⟨drv, inside, ?_, ?_⟩
    · rw [← named, ← equal]
    · rw [← same, made, ← equal]

theorem mem_rows_of_fromDatabase (resident : drvId ∈ (fromDatabase db capacity positive now).nodes.keys) :
    drvId ∈ db.drvs.keys := by
  rw [fromDatabase, (foldl_propagateFailure_topology ..).keys] at resident
  obtain ⟨node, found⟩ := LruCache.mem_keys_iff.mp resident
  obtain ⟨normal, member, named, -⟩ := getNode_of_load found
  obtain ⟨drv, inside, equal⟩ := List.mem_map.mp member
  have path : drv.drvPath = drvId := by rw [← named, ← equal]
  exact Table.mem_keys_of_get (path ▸ Database.mem_getAllDrvs.mp inside)

theorem fromDatabase_buildable :
    (fromDatabase db capacity positive now).getDrvsByState .buildable = ∅ := by
  refine Finset.eq_empty_of_forall_notMem fun drvId member => ?_
  rcases foldl_propagateFailure_byState member with impossible | loaded
  · cases impossible
  · rw [load, addEdges_byState] at loaded
    rcases mem_byState_of_insertNodes loaded with ⟨normal, inside, same⟩ | earlier
    · obtain ⟨drv, -, equal⟩ := List.mem_map.mp inside
      rw [← equal] at same
      cases found : drv.buildState <;> simp [DrvBuildState.normalize, found] at same
    · exact absurd earlier (Finset.notMem_empty drvId)

end FromDatabase

end BuildGraph

namespace GraphService

variable {db : Database DrvId} {capacity : Nat} {positive : 0 < capacity} {now : Instant}

theorem new_view (drvId : DrvId) : (new db capacity positive now).sharedView.get drvId =
    ((BuildGraph.fromDatabase db capacity positive now).getNode drvId).map .fromGraphNode := by
  simp only [new]
  rw [Table.foldl_push_get]
  cases found : (BuildGraph.fromDatabase db capacity positive now).getNode drvId with
  | none => simp
  | some node =>
    have resident := LruCache.mem_keys_iff.mpr ⟨node, found⟩
    simp [resident]

theorem mem_new_view {drvId : DrvId} : drvId ∈ (new db capacity positive now).sharedView.keys ↔
    drvId ∈ (BuildGraph.fromDatabase db capacity positive now).nodes.keys := by
  rw [Table.mem_keys, new_view, Option.isSome_map, Option.isSome_iff_exists, LruCache.mem_keys_iff]
  rfl

theorem new_view_state {drvId : DrvId} {state : DrvBuildState}
    (found : (new db capacity positive now).sharedView.getBuildState drvId = some state) :
    state = .transitiveFailure ∨
      ∃ drv ∈ db.getAllDrvs, drv.drvPath = drvId ∧ state = drv.buildState.normalize := by
  rw [SharedView.getBuildState, new_view, Option.map_map] at found
  exact BuildGraph.fromDatabase_stateOf found

theorem new_view_not_building (drvId : DrvId) :
    (new db capacity positive now).sharedView.getBuildState drvId ≠ some .building := by
  intro found
  rcases new_view_state found with impossible | ⟨drv, -, -, same⟩
  · cases impossible
  · cases state : drv.buildState <;> simp [DrvBuildState.normalize, state] at same

end GraphService

end EkaCI
