import EkaCI.Graph.Effects

/-! What insertions and reloads do to the shared view while the graph has room
for them, and which commands leave the states of given drvs alone. -/

namespace EkaCI

open Lib

variable {DrvId : Type} [DecidableEq DrvId]

/-- From one view to another by writing fresh entries for the given drvs. -/
structure Inserted (before after : SharedView DrvId) (drvs : List (Drv DrvId)) : Prop where
  kept : ∀ drvId, (∀ drv ∈ drvs, drv.drvPath ≠ drvId) → after.get drvId = before.get drvId
  states : ∀ drvId, (∃ drv ∈ drvs, drv.drvPath = drvId ∧ after.getBuildState drvId = some drv.buildState) ∨
    after.getBuildState drvId = before.getBuildState drvId

namespace Inserted

omit [DecidableEq DrvId]

theorem refl (view : SharedView DrvId) : Inserted view view [] :=
  ⟨fun _ _ => rfl, fun _ => .inr rfl⟩

theorem trans {first second third : SharedView DrvId} {earlier later : List (Drv DrvId)}
    (left : Inserted first second earlier) (right : Inserted second third later) :
    Inserted first third (earlier ++ later) := by
  constructor
  · intro drvId absent
    rw [right.kept drvId fun drv member => absent drv (List.mem_append_right _ member)]
    exact left.kept drvId fun drv member => absent drv (List.mem_append_left _ member)
  · intro drvId
    rcases right.states drvId with ⟨drv, member, named, written⟩ | same
    · exact .inl ⟨drv, List.mem_append_right _ member, named, written⟩
    · rcases left.states drvId with ⟨drv, member, named, written⟩ | unwritten
      · exact .inl ⟨drv, List.mem_append_left _ member, named, same.trans written⟩
      · exact .inr (same.trans unwritten)

theorem mono {before after : SharedView DrvId} {drvs more : List (Drv DrvId)}
    (inserted : Inserted before after drvs) (subset : drvs ⊆ more) : Inserted before after more := by
  refine ⟨fun drvId absent => inserted.kept drvId fun drv member => absent drv (subset member), ?_⟩
  intro drvId
  apply (inserted.states drvId).imp_left
  intro ⟨drv, member, written⟩
  exact ⟨drv, subset member, written⟩

end Inserted

namespace GraphService

variable {service : GraphService DrvId} {now : Instant} {drvId : DrvId}

/-- The drvs that a command puts into the graph: what it inserts, or what it has to reload. -/
def inserts (service : GraphService DrvId) : GraphCommand DrvId → List (Drv DrvId)
  | .insertDrvs drvs _ => drvs
  | command => (command.seeds.filter fun seed => !service.graph.nodes.contains seed).filterMap service.db.getDrv

/-- The graph can take what a command inserts without evicting anything. -/
def fits (service : GraphService DrvId) (command : GraphCommand DrvId) : Bool :=
  service.graph.nodes.keys.length + (service.inserts command).length ≤ service.graph.nodes.cap

theorem forgetEvicted_graph (evicted : Option (DrvId × GraphNode DrvId)) :
    (service.forgetEvicted evicted).graph = service.graph := by
  cases evicted <;> rfl

theorem insertDrv_graph (drv : Drv DrvId) :
    (service.insertDrv now drv).graph = (service.graph.insertNode now drv).2 :=
  forgetEvicted_graph _

theorem insertDrv_db (drv : Drv DrvId) : (service.insertDrv now drv).db = service.db := by
  unfold insertDrv
  dsimp only
  cases (service.graph.insertNode now drv).1 <;> rfl

theorem insertDrv_view {drv : Drv DrvId}
    (room : service.graph.nodes.keys.length < service.graph.nodes.cap) (different : drvId ≠ drv.drvPath) :
    (service.insertDrv now drv).sharedView.get drvId = service.sharedView.get drvId := by
  unfold insertDrv
  dsimp only
  cases evicted : (service.graph.insertNode now drv).1 with
  | none => rfl
  | some entry =>
    have displaced : entry.1 = drv.drvPath := service.graph.nodes.push_fst_of_room _ _ room evicted
    simp only [forgetEvicted, displaced]
    rw [Table.erase_get, if_neg different]

theorem cacheNode_view {cached : DrvId} (different : drvId ≠ cached) :
    (service.cacheNode cached).sharedView.get drvId = service.sharedView.get drvId := by
  unfold cacheNode
  split
  · rfl
  · rw [Table.push_get, if_neg different]

theorem cacheNode_state {state : DrvBuildState} (resident : service.graph.stateOf drvId = some state) :
    (service.cacheNode drvId).sharedView.getBuildState drvId = some state := by
  obtain ⟨node, found, same⟩ := Option.map_eq_some_iff.mp resident
  simp [cacheNode, found, SharedView.getBuildState, CachedNode.fromGraphNode, same]

theorem cacheNode_graph (cached : DrvId) : (service.cacheNode cached).graph = service.graph := by
  unfold cacheNode
  split <;> rfl

theorem cacheNode_db (cached : DrvId) : (service.cacheNode cached).db = service.db := by
  unfold cacheNode
  split <;> rfl

theorem insertDrv_stateOf (drv : Drv DrvId) :
    (service.insertDrv now drv).graph.stateOf drv.drvPath = some drv.buildState := by
  rw [insertDrv_graph, BuildGraph.stateOf, BuildGraph.insertNode_getNode_self]
  rfl

theorem inserted_single {drv : Drv DrvId} {linked : GraphService DrvId}
    (room : service.graph.nodes.keys.length < service.graph.nodes.cap)
    (view : linked.sharedView = (service.insertDrv now drv).sharedView)
    (state : linked.graph.stateOf drv.drvPath = (service.insertDrv now drv).graph.stateOf drv.drvPath) :
    Inserted service.sharedView (linked.cacheNode drv.drvPath).sharedView [drv] := by
  have others : ∀ drvId, drvId ≠ drv.drvPath →
      (linked.cacheNode drv.drvPath).sharedView.get drvId = service.sharedView.get drvId := by
    intro drvId different
    rw [cacheNode_view different, view, insertDrv_view room different]
  constructor
  · intro drvId absent
    exact others drvId (absent drv (List.mem_singleton_self drv)).symm
  · intro drvId
    by_cases same : drvId = drv.drvPath
    · subst same
      refine .inl ⟨drv, List.mem_singleton_self drv, rfl, ?_⟩
      exact cacheNode_state (state.trans (insertDrv_stateOf drv))
    · exact .inr (congrArg _ (others drvId same))

theorem foldl_insertDrv_inserted (now : Instant) (drvs : List (Drv DrvId)) (service : GraphService DrvId)
    (room : service.graph.nodes.keys.length + drvs.length ≤ service.graph.nodes.cap) :
    Inserted service.sharedView (drvs.foldl (fun service drv =>
      (service.insertDrv now drv).cacheNode drv.drvPath) service).sharedView drvs := by
  induction drvs generalizing service with
  | nil => exact .refl _
  | cons drv rest ih =>
    rw [List.length_cons] at room
    have grown := BuildGraph.insertNode_length now drv service.graph
    have first : Inserted service.sharedView
        ((service.insertDrv now drv).cacheNode drv.drvPath).sharedView [drv] :=
      inserted_single (by omega) rfl rfl
    refine first.trans (ih _ ?_)
    rw [cacheNode_graph, insertDrv_graph]
    omega

theorem insertRefs_view (refs : List (DrvId × DrvId)) (service : GraphService DrvId) :
    let after := (refs.foldl (fun service edge =>
      (service.insertRef edge.1 edge.2).cacheDependencies edge.1) service).sharedView
    (∀ drvId, after.getBuildState drvId = service.sharedView.getBuildState drvId) ∧
      ∀ drvId, (∀ edge ∈ refs, edge.1 ≠ drvId) → after.get drvId = service.sharedView.get drvId := by
  induction refs generalizing service with
  | nil => exact ⟨fun _ => rfl, fun _ _ => rfl⟩
  | cons edge rest ih =>
    obtain ⟨states, entries⟩ := ih ((service.insertRef edge.1 edge.2).cacheDependencies edge.1)
    have first : ∀ drvId,
        ((service.insertRef edge.1 edge.2).cacheDependencies edge.1).sharedView.getBuildState drvId =
            service.sharedView.getBuildState drvId ∧
          (edge.1 ≠ drvId →
            ((service.insertRef edge.1 edge.2).cacheDependencies edge.1).sharedView.get drvId =
              service.sharedView.get drvId) := by
      intro drvId
      unfold cacheDependencies
      split
      · exact ⟨rfl, fun _ => rfl⟩
      · simp only [SharedView.getBuildState, Table.modify_get]
        refine ⟨?_, fun different => if_neg (Ne.symm different)⟩
        split <;> simp [Function.comp_def, insertRef]
    refine ⟨fun drvId => (states drvId).trans (first drvId).1, fun drvId absent => ?_⟩
    rw [List.foldl_cons, entries drvId fun other member => absent other (List.mem_cons_of_mem _ member)]
    exact (first drvId).2 (absent edge (List.mem_cons_self ..))

theorem foldl_insertRef (edges : List (DrvId × DrvId)) (service : GraphService DrvId) :
    let linked := edges.foldl (fun service edge => service.insertRef edge.1 edge.2) service
    linked.sharedView = service.sharedView ∧ linked.db = service.db ∧
      linked.graph.nodes.keys = service.graph.nodes.keys ∧ linked.graph.nodes.cap = service.graph.nodes.cap ∧
      ∀ drvId, linked.graph.stateOf drvId = service.graph.stateOf drvId := by
  induction edges generalizing service with
  | nil => exact ⟨rfl, rfl, rfl, rfl, fun _ => rfl⟩
  | cons edge rest ih =>
    obtain ⟨view, db, keys, cap, states⟩ := ih (service.insertRef edge.1 edge.2)
    exact ⟨view, db, keys, cap, fun drvId => (states drvId).trans (BuildGraph.addEdge_stateOf ..)⟩

theorem foldl_insertRef_graph (edges : List (DrvId × DrvId)) (service : GraphService DrvId) :
    (edges.foldl (fun service edge => service.insertRef edge.1 edge.2) service).graph =
      edges.foldl (fun graph edge => graph.addEdge edge.1 edge.2) service.graph := by
  induction edges generalizing service with
  | nil => rfl
  | cons edge rest ih => exact ih (service.insertRef edge.1 edge.2)

theorem ensureLoaded_eq (now : Instant) {drv : Drv DrvId}
    (evicted : service.graph.nodes.contains drvId = false) (stored : service.db.getDrv drvId = some drv) :
    ensureLoaded now service drvId = ((service.db.edgesOf drvId).foldl (fun service edge =>
      service.insertRef edge.1 edge.2) (service.insertDrv now drv)).cacheNode drvId := by
  simp only [ensureLoaded, evicted, stored, Bool.false_eq_true, if_false, Database.edgesOf,
    List.foldl_append, List.foldl_map]

theorem ensureLoaded_of_resident (now : Instant) (resident : service.graph.nodes.contains drvId = true) :
    ensureLoaded now service drvId = service := by
  rw [ensureLoaded, if_pos resident]

theorem ensureLoaded_of_unknown (now : Instant) (unknown : service.db.getDrv drvId = none) :
    ensureLoaded now service drvId = service := by
  rw [ensureLoaded, unknown]
  split <;> rfl

/-- What a reload of an evicted drv does, with room for it. -/
structure Reloaded (service next : GraphService DrvId) (drv : Drv DrvId) : Prop where
  inserted : Inserted service.sharedView next.sharedView [drv]
  db : next.db = service.db
  length : next.graph.nodes.keys.length ≤ service.graph.nodes.keys.length + 1
  cap : next.graph.nodes.cap = service.graph.nodes.cap
  resident : ∀ drvId, service.graph.nodes.contains drvId = true → next.graph.nodes.contains drvId = true

theorem ensureLoaded_reloaded (now : Instant) {drv : Drv DrvId}
    (room : service.graph.nodes.keys.length < service.graph.nodes.cap)
    (evicted : service.graph.nodes.contains drvId = false) (stored : service.db.getDrv drvId = some drv) :
    Reloaded service (ensureLoaded now service drvId) drv := by
  have path : drv.drvPath = drvId := service.db.keyed drvId drv stored
  subst path
  obtain ⟨view, db, keys, cap, states⟩ :=
    foldl_insertRef (service.db.edgesOf drv.drvPath) (service.insertDrv now drv)
  have grown := BuildGraph.insertNode_length now drv service.graph
  rw [insertDrv_graph] at keys cap
  rw [ensureLoaded_eq now evicted stored]
  constructor
  · exact inserted_single room view (states _)
  · rw [cacheNode_db, db, insertDrv_db]
  · rw [cacheNode_graph, keys]
    exact grown.1
  · rw [cacheNode_graph, cap]
    exact grown.2
  · intro other resident
    obtain ⟨node, found⟩ := Option.isSome_iff_exists.mp resident
    have pushed := service.graph.nodes.push_peek_of_room drv.drvPath other (.fromDrv drv) room
    have present : other ∈ (service.graph.insertNode now drv).2.nodes.keys := by
      apply LruCache.mem_keys_iff.mpr
      split at pushed
      · exact ⟨_, pushed⟩
      · exact ⟨node, pushed.trans found⟩
    rw [← keys] at present
    rw [cacheNode_graph]
    exact (Table.mem_keys _ other).mp present

theorem foldl_ensureLoaded_inserted (seeds : List DrvId) (service : GraphService DrvId)
    (room : service.graph.nodes.keys.length +
        ((seeds.filter fun seed => !service.graph.nodes.contains seed).filterMap service.db.getDrv).length ≤
      service.graph.nodes.cap) :
    Inserted service.sharedView (seeds.foldl (ensureLoaded now) service).sharedView
      ((seeds.filter fun seed => !service.graph.nodes.contains seed).filterMap service.db.getDrv) := by
  induction seeds generalizing service with
  | nil => exact .refl _
  | cons seed rest ih =>
    rw [List.foldl_cons]
    cases resident : service.graph.nodes.contains seed with
    | true =>
      have unchanged : ensureLoaded now service seed = service := by simp [ensureLoaded, resident]
      simp only [unchanged, List.filter_cons, resident, Bool.not_true, Bool.false_eq_true, if_false] at room ⊢
      exact ih service room
    | false =>
      cases stored : service.db.getDrv seed with
      | none =>
        have unchanged : ensureLoaded now service seed = service := by
          simp [ensureLoaded, resident, stored]
        simp only [unchanged, List.filter_cons, resident, Bool.not_false, if_true,
          List.filterMap_cons, stored] at room ⊢
        exact ih service room
      | some drv =>
        simp only [List.filter_cons, resident, Bool.not_false, if_true, List.filterMap_cons, stored,
          List.length_cons] at room ⊢
        have reloaded := ensureLoaded_reloaded now (by omega) resident stored
        have fewer : (rest.filter fun other =>
              !(ensureLoaded now service seed).graph.nodes.contains other).filterMap
                (ensureLoaded now service seed).db.getDrv |>.Sublist
            ((rest.filter fun other => !service.graph.nodes.contains other).filterMap service.db.getDrv) := by
          rw [reloaded.db]
          refine (List.monotone_filter_right rest fun other absent => ?_).filterMap _
          rw [Bool.not_eq_true'] at absent ⊢
          by_contra held
          rw [reloaded.resident other (Bool.not_eq_false _ ▸ held)] at absent
          cases absent
        have shorter := fewer.length_le
        have longer := reloaded.length
        have same := reloaded.cap
        exact (reloaded.inserted.trans (ih _ (by omega))).mono (List.cons_subset_cons _ fewer.subset)

/-- A command writes nothing over the states of the chosen drvs, unless it
writes the state they are in. -/
def keepsStates (service : GraphService DrvId) (chosen : DrvId → Bool) (state : DrvBuildState) :
    GraphCommand DrvId → Bool
  | .updateState drvId newState => !chosen drvId || newState = state
  | .propagateFailure failedDrv => (service.graph.getAllTransitiveDependents failedDrv).all (!chosen ·)
  | .clearFailure formerlyFailed => (service.graph.blockedBy formerlyFailed).all fun drvId =>
      !chosen drvId || !(service.graph.getFailedDependencies drvId ⊆ {formerlyFailed})
  | command => service.fits command &&
      (service.inserts command).all fun drv => !chosen drv.drvPath || drv.buildState = state

theorem handleCommand_inserted {command : GraphCommand DrvId} (asks : command.isQuery = true)
    (room : service.fits command = true) :
    Inserted service.sharedView (service.handleCommand now command).2.sharedView (service.inserts command) := by
  have room := of_decide_eq_true room
  cases command with
  | updateState | insertDrvs | propagateFailure | clearFailure => cases asks
  | _ => exact foldl_ensureLoaded_inserted _ service room

theorem insertDrvs_states {drvs : List (Drv DrvId)} {refs : List (DrvId × DrvId)}
    (room : service.fits (.insertDrvs drvs refs) = true) (drvId : DrvId) :
    (∃ drv ∈ drvs, drv.drvPath = drvId ∧
        (service.insertDrvs now drvs refs).sharedView.getBuildState drvId = some drv.buildState) ∨
      (service.insertDrvs now drvs refs).sharedView.getBuildState drvId =
        service.sharedView.getBuildState drvId := by
  have inserted := foldl_insertDrv_inserted now drvs service (of_decide_eq_true room)
  have linked := (insertRefs_view refs (drvs.foldl (fun service drv =>
    (service.insertDrv now drv).cacheNode drv.drvPath) service)).1 drvId
  rw [insertDrvs, linked]
  exact inserted.states drvId

omit [DecidableEq DrvId] in
private theorem state_of_inserted {drvs : List (Drv DrvId)} {chosen : DrvId → Bool} {state : DrvBuildState}
    {before after : Option DrvBuildState} (held : before = some state) (choice : chosen drvId = true)
    (allowed : ∀ drv ∈ drvs, (!chosen drv.drvPath || decide (drv.buildState = state)) = true)
    (states : (∃ drv ∈ drvs, drv.drvPath = drvId ∧ after = some drv.buildState) ∨ after = before) :
    after = some state := by
  rcases states with ⟨drv, member, named, written⟩ | same
  · have same := allowed drv member
    simp only [named, choice, Bool.not_true, Bool.false_or, decide_eq_true_eq] at same
    rw [written, same]
  · exact same.trans held

section KeepsStates

variable {chosen : DrvId → Bool} {state : DrvBuildState}

theorem not_chosen_of_dependent {failedDrv : DrvId}
    (keeps : service.keepsStates chosen state (.propagateFailure failedDrv) = true)
    (dependent : service.graph.StrictDependent failedDrv drvId) : chosen drvId = false := by
  have spared := List.all_eq_true.mp keeps drvId (BuildGraph.mem_getAllTransitiveDependents.mpr dependent)
  simpa using spared

theorem not_chosen_of_unblocked {formerlyFailed : DrvId}
    (keeps : service.keepsStates chosen state (.clearFailure formerlyFailed) = true)
    (unblocked : drvId ∈ (service.graph.clearFailure formerlyFailed).1) : chosen drvId = false := by
  obtain ⟨listed, node, found, freed⟩ := BuildGraph.mem_clearFailure_fst.mp unblocked
  have spared := List.all_eq_true.mp keeps drvId listed
  have alone : node.blockingFailures ⊆ {formerlyFailed} := by
    rcases (Finset.erase_eq_empty_iff _ _).mp freed with none | single
    · rw [none]
      exact Finset.empty_subset _
    · rw [single]
  simpa [BuildGraph.getFailedDependencies, found, alone] using spared

theorem process_state_of_keepsStates {command : GraphCommand DrvId} (keeps : service.keepsStates chosen state command = true)
    (choice : chosen drvId = true) (held : service.sharedView.getBuildState drvId = some state) :
    (service.process now command).2.sharedView.getBuildState drvId = some state := by
  rw [process_view]
  cases command with
  | updateState updated newState =>
    rw [handleCommand, updateState, SharedView.setState_getBuildState]
    split
    · rename_i same
      subst same
      simp only [keepsStates, choice, Bool.not_true, Bool.false_or, decide_eq_true_eq] at keeps
      rw [held, Option.map_some, keeps]
    · exact held
  | propagateFailure failedDrv =>
    rw [handleCommand, SharedView.getBuildState, propagateFailure_view, if_neg]
    · exact held
    · intro blocked
      rw [not_chosen_of_dependent keeps blocked] at choice
      cases choice
  | clearFailure formerlyFailed =>
    rw [handleCommand, SharedView.getBuildState, clearFailure_view, if_neg]
    · exact held
    · intro unblocked
      rw [not_chosen_of_unblocked keeps unblocked] at choice
      cases choice
  | insertDrvs drvs refs =>
    simp only [keepsStates, Bool.and_eq_true, List.all_eq_true] at keeps
    exact state_of_inserted held choice keeps.2 (insertDrvs_states keeps.1 drvId)
  | _ =>
    simp only [keepsStates, Bool.and_eq_true, List.all_eq_true] at keeps
    exact state_of_inserted held choice keeps.2 ((handleCommand_inserted rfl keeps.1).states drvId)

end KeepsStates

end GraphService

end EkaCI
