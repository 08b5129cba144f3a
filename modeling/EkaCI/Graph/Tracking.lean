import EkaCI.Graph.Coherence
import EkaCI.Graph.Insertion
import EkaCI.Graph.Restart

/-! When what a graph says about failures is backed by a database, and what each
operation needs to keep it so. -/

namespace EkaCI

open Lib

variable {DrvId : Type} [DecidableEq DrvId]

namespace BuildGraph

/-- The drvs, edges and blockers of the graph are those of the database; blocked
drvs are transitively failed, and whom a failure lists it blocks. -/
structure Backed (graph : BuildGraph DrvId) (db : Database DrvId) : Prop where
  resident : ∀ drvId ∈ graph.nodes.keys, drvId ∈ db.drvs.keys
  linked : ∀ source target, graph.Dependent source target →
    (target, source) ∈ db.refs ∧ target ∈ graph.nodes.keys
  failed : ∀ failed drvId, failed ∈ graph.getFailedDependencies drvId →
    db.rowState failed = some (.completed .failure) ∧ graph.StrictDependent failed drvId
  blocked : ∀ drvId, graph.getFailedDependencies drvId ≠ ∅ → graph.stateOf drvId = some .transitiveFailure
  listed : ∀ failed drvId, drvId ∈ graph.blockedBy failed → failed ∈ graph.getFailedDependencies drvId

/-- A failure blocks all that depends on it. -/
def Covers (graph : BuildGraph DrvId) (failed : DrvId) : Prop :=
  ∀ drvId, graph.StrictDependent failed drvId → failed ∈ graph.getFailedDependencies drvId

def blocksNone (graph : BuildGraph DrvId) (drvId : DrvId) : Bool :=
  graph.nodes.keys.all fun other => drvId ∉ graph.getFailedDependencies other

variable {graph next : BuildGraph DrvId} {drvId failed : DrvId}

omit [DecidableEq DrvId] in
theorem mem_keys_of_blocked (blocked : failed ∈ graph.getFailedDependencies drvId) : drvId ∈ graph.nodes.keys := by
  by_contra absent
  rw [getFailedDependencies_of_absent absent] at blocked
  exact Finset.notMem_empty failed blocked

theorem blocksNone_iff : graph.blocksNone drvId = true ↔ ∀ other, drvId ∉ graph.getFailedDependencies other := by
  simp only [blocksNone, List.all_eq_true, decide_eq_true_eq]
  exact ⟨fun none other blocked => none other (mem_keys_of_blocked blocked) blocked,
    fun none other _ => none other⟩

theorem blocksNone_congr (blockers : ∀ drvId, next.getFailedDependencies drvId = graph.getFailedDependencies drvId)
    (none : graph.blocksNone drvId = true) : next.blocksNone drvId = true := by
  rw [blocksNone_iff] at none ⊢
  simpa only [blockers] using none

omit [DecidableEq DrvId] in
theorem Covers.of_topology (covers : graph.Covers failed) (topology : SameTopology next graph)
    (blockers : ∀ drvId, next.getFailedDependencies drvId = graph.getFailedDependencies drvId) :
    next.Covers failed := by
  intro drvId strict
  rw [blockers]
  exact covers drvId ((topology.strictDependent failed drvId).mp strict)

omit [DecidableEq DrvId] in
theorem sameNodes (found : ∀ drvId, next.getNode drvId = graph.getNode drvId) :
    next.getFailedDependencies = graph.getFailedDependencies ∧ next.stateOf = graph.stateOf ∧
      next.Dependent = graph.Dependent ∧ ∀ drvId, drvId ∈ next.nodes.keys ↔ drvId ∈ graph.nodes.keys := by
  have found : next.getNode = graph.getNode := funext found
  refine ⟨?_, ?_, ?_, fun drvId => ?_⟩
  · funext drvId
    rw [getFailedDependencies, found, getFailedDependencies]
  · funext drvId
    rw [stateOf, found, stateOf]
  · funext source target
    rw [Dependent, getDependents, found, Dependent, getDependents]
  · rw [LruCache.mem_keys_iff, LruCache.mem_keys_iff, ← getNode, ← getNode, found]

namespace Backed

variable {graph next : BuildGraph DrvId} {db stored : Database DrvId}

omit [DecidableEq DrvId]

theorem strictDependent_resident (backed : graph.Backed db) {source target : DrvId}
    (strict : graph.StrictDependent source target) : target ∈ graph.nodes.keys := by
  obtain ⟨middle, -, edge⟩ := Relation.TransGen.tail'_iff.mp strict.2
  exact (backed.linked middle target edge).2

theorem of_rows (backed : graph.Backed db) (keys : ∀ drvId ∈ db.drvs.keys, drvId ∈ stored.drvs.keys)
    (refs : ∀ edge ∈ db.refs, edge ∈ stored.refs)
    (rows : ∀ failed drvId, failed ∈ graph.getFailedDependencies drvId →
      db.rowState failed = some (.completed .failure) → stored.rowState failed = some (.completed .failure)) :
    graph.Backed stored where
  resident drvId member := keys drvId (backed.resident drvId member)
  linked source target edge := (backed.linked source target edge).imp_left (refs _)
  failed failed drvId member :=
    (backed.failed failed drvId member).imp_left (rows failed drvId member)
  blocked := backed.blocked
  listed := backed.listed

theorem of_nodes (backed : graph.Backed db) (found : ∀ drvId, next.getNode drvId = graph.getNode drvId)
    (lists : ∀ failed drvId, drvId ∈ next.blockedBy failed → drvId ∈ graph.blockedBy failed) :
    next.Backed db := by
  obtain ⟨blockers, states, edges, keys⟩ := sameNodes found
  constructor
  · simp only [keys]
    exact backed.resident
  · simp only [keys, edges]
    exact backed.linked
  · simp only [blockers, StrictDependent, edges]
    exact backed.failed
  · rw [blockers, states]
    exact backed.blocked
  · intro failed drvId listed
    rw [blockers]
    exact backed.listed failed drvId (lists failed drvId listed)

end Backed

theorem fromDatabase_backed {db : Database DrvId} {capacity : Nat} {positive : 0 < capacity} {now : Instant}
    (closed : db.RefsClosed) (room : db.drvs.keys.length ≤ capacity) :
    (fromDatabase db capacity positive now).Backed db := by
  have agrees := @fromDatabase_agrees _ _ db capacity positive now room
  have linked : ∀ source target, (fromDatabase db capacity positive now).Dependent source target →
      (target, source) ∈ db.refs ∧ target ∈ (fromDatabase db capacity positive now).nodes.keys := by
    intro source target edge
    have stored := ((agrees.dependent source target).mp edge).2
    exact ⟨stored, (agrees.resident target).mpr (closed _ stored).1⟩
  refine ⟨fun drvId => (agrees.resident drvId).mp, linked, fun failed drvId member => ?_, agrees.blocked,
    fun failed drvId listed => ?_⟩
  · exact (agrees.blockers drvId (mem_keys_of_blocked member) failed).mp member
  · obtain ⟨strict, blocks⟩ := fromDatabase_blockedBy room listed
    obtain ⟨middle, -, edge⟩ := Relation.TransGen.tail'_iff.mp strict.2
    exact blocks (linked middle drvId edge).2

section Update

variable {graph : BuildGraph DrvId} {db : Database DrvId} {now : Instant} {drvId : DrvId} {newState : DrvBuildState}

theorem updateState_getFailedDependencies (other : DrvId) :
    (graph.updateState now drvId newState).getFailedDependencies other = graph.getFailedDependencies other := by
  rw [getFailedDependencies, updateState_getNode, getFailedDependencies]
  split
  · cases graph.getNode other <;> rfl
  · rfl

theorem updateState_topology : SameTopology (graph.updateState now drvId newState) graph := by
  constructor
  · unfold updateState
    split <;> rfl
  · intro other
    rw [getDependents, updateState_getNode, getDependents]
    split
    · cases graph.getNode other <;> rfl
    · rfl

theorem Backed.updateState (backed : graph.Backed db) (free : graph.getFailedDependencies drvId = ∅)
    (keeps : newState = .completed .failure ∨ graph.blocksNone drvId = true) :
    (graph.updateState now drvId newState).Backed (db.updateDrvStatus drvId newState) := by
  have topology := @updateState_topology _ _ graph now drvId newState
  constructor
  · rw [topology.keys]
    exact backed.resident
  · intro source target edge
    rw [Dependent, topology.dependents] at edge
    rw [topology.keys]
    exact backed.linked source target edge
  · intro failed blockedId member
    rw [updateState_getFailedDependencies] at member
    obtain ⟨row, strict⟩ := backed.failed failed blockedId member
    refine ⟨?_, (topology.strictDependent failed blockedId).mpr strict⟩
    rw [Database.updateDrvStatus_rowState]
    split
    · rename_i same
      subst same
      rcases keeps with failure | none
      · rw [row, failure]
        rfl
      · exact absurd member (blocksNone_iff.mp none blockedId)
    · exact row
  · intro other nonempty
    rw [updateState_getFailedDependencies] at nonempty
    have different : other ≠ drvId := by
      rintro rfl
      exact nonempty free
    rw [updateState_stateOf, if_neg different]
    exact backed.blocked other nonempty
  · intro failed other listed
    rw [updateState_blockedBy] at listed
    rw [updateState_getFailedDependencies]
    exact backed.listed failed other listed

end Update

section Failures

variable {graph : BuildGraph DrvId} {db : Database DrvId}

theorem mem_propagateFailure_blockers {failedDrv failed drvId : DrvId} :
    failed ∈ (graph.propagateFailure failedDrv).2.getFailedDependencies drvId ↔
      failed ∈ graph.getFailedDependencies drvId ∨
        (failed = failedDrv ∧ graph.StrictDependent failedDrv drvId ∧ drvId ∈ graph.nodes.keys) := by
  rw [LruCache.mem_keys_iff, ← getNode, getFailedDependencies, propagateFailure_getNode, getFailedDependencies]
  cases graph.getNode drvId with
  | none => split <;> simp
  | some node =>
    split
    · rename_i strict
      simp [GraphNode.block, strict, or_comm]
    · rename_i loose
      simp [loose]

theorem Backed.propagateFailure (backed : graph.Backed db) {failedDrv : DrvId}
    (row : ∀ drvId, graph.StrictDependent failedDrv drvId →
      db.rowState failedDrv = some (.completed .failure))
    (spared : ∀ drvId, graph.StrictDependent failedDrv drvId → graph.blocksNone drvId = true) :
    (graph.propagateFailure failedDrv).2.Backed
      (db.insertTransitiveFailures failedDrv (graph.getAllTransitiveDependents failedDrv)) := by
  have topology := propagateFailure_topology graph failedDrv
  obtain ⟨keys, refs⟩ := @Database.insertTransitiveFailures_frame _ _ db failedDrv
    (graph.getAllTransitiveDependents failedDrv)
  constructor
  · rw [topology.keys, keys]
    exact backed.resident
  · intro source target edge
    rw [Dependent, topology.dependents] at edge
    rw [topology.keys, refs]
    exact backed.linked source target edge
  · intro failed drvId member
    have known : db.rowState failed = some (.completed .failure) ∧ graph.StrictDependent failed drvId ∧
        ¬ graph.StrictDependent failedDrv failed := by
      rcases mem_propagateFailure_blockers.mp member with earlier | ⟨rfl, strict, -⟩
      · obtain ⟨held, strict⟩ := backed.failed failed drvId earlier
        exact ⟨held, strict, fun reached => blocksNone_iff.mp (spared failed reached) drvId earlier⟩
      · exact ⟨row drvId strict, strict, fun reached => reached.1 rfl⟩
    refine ⟨?_, (topology.strictDependent failed drvId).mpr known.2.1⟩
    rw [Database.insertTransitiveFailures_rowState, if_neg (mt mem_getAllTransitiveDependents.mp known.2.2)]
    exact known.1
  · intro drvId nonempty
    rw [propagateFailure_stateOf]
    split
    · rename_i strict
      obtain ⟨node, found⟩ := LruCache.mem_keys_iff.mp (backed.strictDependent_resident strict)
      rw [stateOf, getNode, found]
      rfl
    · rename_i loose
      refine backed.blocked drvId fun empty => nonempty (Finset.eq_empty_of_forall_notMem fun failed member => ?_)
      rcases mem_propagateFailure_blockers.mp member with earlier | ⟨-, strict, -⟩
      · rw [empty] at earlier
        exact Finset.notMem_empty failed earlier
      · exact loose strict
  · intro failed drvId listed
    rw [propagateFailure_blockedBy] at listed
    rw [mem_propagateFailure_blockers]
    split at listed
    · rename_i same
      have strict := mem_getAllTransitiveDependents.mp listed
      exact .inr ⟨same, strict, backed.strictDependent_resident strict⟩
    · exact .inl (backed.listed failed drvId listed)

theorem Backed.clearFailure_nodes (backed : graph.Backed db) {formerlyFailed : DrvId}
    (none : graph.blocksNone formerlyFailed = true) (drvId : DrvId) :
    (graph.clearFailure formerlyFailed).2.getNode drvId = graph.getNode drvId := by
  rw [clearFailure_getNode]
  split
  · rename_i listed
    exact absurd (backed.listed formerlyFailed drvId listed) (blocksNone_iff.mp none drvId)
  · rfl

theorem Backed.clearFailure (backed : graph.Backed db) {formerlyFailed : DrvId}
    (none : graph.blocksNone formerlyFailed = true) :
    (graph.clearFailure formerlyFailed).2.Backed db := by
  refine backed.of_nodes (backed.clearFailure_nodes none) fun failed drvId listed => ?_
  rw [clearFailure_blockedBy] at listed
  split at listed
  · cases listed
  · exact listed

end Failures

namespace Extended

variable {graph next : BuildGraph DrvId} {drvs : List (Drv DrvId)} {refs : List (DrvId × DrvId)}

omit [DecidableEq DrvId]

theorem strictDependent (held : Extended graph drvs refs next) {source target : DrvId}
    (strict : graph.StrictDependent source target) : next.StrictDependent source target :=
  ⟨strict.1, strict.2.lift id fun first second edge => (held.dependent first second).mpr (.inl edge)⟩

theorem strictDependent_of_apart (held : Extended graph drvs refs next) {source target : DrvId}
    (apart : ∀ edge ∈ refs, edge.2 ≠ source ∧ ¬ graph.StrictDependent source edge.2)
    (strict : next.StrictDependent source target) : graph.StrictDependent source target := by
  refine ⟨strict.1, ?_⟩
  have path := strict.2
  clear strict
  induction path with
  | single edge =>
    rcases (held.dependent source _).mp edge with old | ⟨-, added⟩
    · exact .single old
    · exact absurd rfl (apart _ added).1
  | @tail middle last _ edge ih =>
    rcases (held.dependent middle last).mp edge with old | ⟨-, added⟩
    · exact .tail ih old
    · obtain ⟨different, loose⟩ := apart _ added
      exact absurd ⟨different, ih⟩ loose

theorem covers (held : Extended graph drvs refs next) {failed : DrvId} (covers : graph.Covers failed)
    (apart : ∀ edge ∈ refs, edge.2 ≠ failed ∧ graph.getFailedDependencies edge.2 = ∅) :
    next.Covers failed := by
  intro drvId strict
  rw [held.blockers]
  refine covers drvId (held.strictDependent_of_apart (fun edge member => ?_) strict)
  obtain ⟨different, free⟩ := apart edge member
  refine ⟨different, fun reached => ?_⟩
  have blocked := covers edge.2 reached
  rw [free] at blocked
  exact Finset.notMem_empty failed blocked

theorem backed {db : Database DrvId} (held : Extended graph drvs refs next) (backed : graph.Backed db)
    (fresh : ∀ drv ∈ drvs, drv.drvPath ∉ graph.nodes.keys)
    (rows : ∀ drv ∈ drvs, drv.drvPath ∈ db.drvs.keys)
    (edges : ∀ edge ∈ refs, edge ∈ db.refs ∧ edge.1 ∈ drvs.map (·.drvPath)) : next.Backed db := by
  constructor
  · intro drvId member
    rcases (held.resident drvId).mp member with old | new
    · exact backed.resident drvId old
    · obtain ⟨drv, inside, rfl⟩ := List.mem_map.mp new
      exact rows drv inside
  · intro source target edge
    rw [held.resident]
    rcases (held.dependent source target).mp edge with old | ⟨-, added⟩
    · exact (backed.linked source target old).imp_right .inl
    · exact (edges _ added).imp_right .inr
  · intro failed drvId member
    rw [held.blockers] at member
    exact (backed.failed failed drvId member).imp_right held.strictDependent
  · intro drvId nonempty
    rw [held.blockers] at nonempty
    obtain ⟨failed, member⟩ := Finset.nonempty_iff_ne_empty.mpr nonempty
    have old : drvId ∉ drvs.map (·.drvPath) := by
      intro new
      obtain ⟨drv, inside, rfl⟩ := List.mem_map.mp new
      exact fresh drv inside (mem_keys_of_blocked member)
    rw [held.kept drvId old]
    exact backed.blocked drvId nonempty
  · intro failed drvId listed
    rw [blockedBy, held.map] at listed
    rw [held.blockers]
    exact backed.listed failed drvId listed

end Extended

end BuildGraph

namespace GraphService

variable {service : GraphService DrvId}

theorem insertDrvs_graph (service : GraphService DrvId) (now : Instant) (drvs : List (Drv DrvId))
    (refs : List (DrvId × DrvId)) :
    (service.insertDrvs now drvs refs).graph = service.graph.extend now drvs refs ∧
      (service.insertDrvs now drvs refs).db = service.db := by
  have inserted : ∀ service : GraphService DrvId,
      (drvs.foldl (fun service drv => (service.insertDrv now drv).cacheNode drv.drvPath) service).graph =
        drvs.foldl (fun graph drv => (graph.insertNode now drv).2) service.graph ∧
      (drvs.foldl (fun service drv => (service.insertDrv now drv).cacheNode drv.drvPath) service).db =
        service.db := by
    induction drvs with
    | nil => exact fun _ => ⟨rfl, rfl⟩
    | cons drv rest ih =>
      intro service
      obtain ⟨graph, db⟩ := ih ((service.insertDrv now drv).cacheNode drv.drvPath)
      rw [cacheNode_graph, insertDrv_graph] at graph
      rw [cacheNode_db, insertDrv_db] at db
      exact ⟨graph, db⟩
  have linked : ∀ service : GraphService DrvId,
      (refs.foldl (fun service edge => (service.insertRef edge.1 edge.2).cacheDependencies edge.1) service).graph =
        refs.foldl (fun graph edge => graph.addEdge edge.1 edge.2) service.graph ∧
      (refs.foldl (fun service edge => (service.insertRef edge.1 edge.2).cacheDependencies edge.1) service).db =
        service.db := by
    induction refs with
    | nil => exact fun _ => ⟨rfl, rfl⟩
    | cons edge rest ih =>
      intro service
      obtain ⟨graph, db⟩ := ih ((service.insertRef edge.1 edge.2).cacheDependencies edge.1)
      have step : ((service.insertRef edge.1 edge.2).cacheDependencies edge.1).graph =
          service.graph.addEdge edge.1 edge.2 ∧
          ((service.insertRef edge.1 edge.2).cacheDependencies edge.1).db = service.db := by
        unfold cacheDependencies
        split <;> exact ⟨rfl, rfl⟩
      rw [step.1] at graph
      rw [step.2] at db
      exact ⟨graph, db⟩
  obtain ⟨graph, db⟩ := linked (drvs.foldl (fun service drv =>
    (service.insertDrv now drv).cacheNode drv.drvPath) service)
  rw [(inserted service).1] at graph
  rw [(inserted service).2] at db
  exact ⟨graph, db⟩

theorem handleCommand_of_loaded {now : Instant} {command : GraphCommand DrvId} (asks : command.isQuery = true)
    (loaded : service.inserts command = []) : (service.handleCommand now command).2 = service := by
  have fixed : ∀ seeds : List DrvId,
      (seeds.filter fun seed => !service.graph.nodes.contains seed).filterMap service.db.getDrv = [] →
      seeds.foldl (ensureLoaded now) service = service := by
    intro seeds none
    induction seeds with
    | nil => rfl
    | cons seed rest ih =>
      rw [List.filterMap_eq_nil_iff] at none
      have skip : ensureLoaded now service seed = service := by
        unfold ensureLoaded
        split
        · rfl
        · rename_i missing
          rw [none seed (by simp [missing])]
      rw [List.foldl_cons, skip]
      refine ih (List.filterMap_eq_nil_iff.mpr fun other member => none other ?_)
      rw [List.mem_filter] at member ⊢
      exact ⟨List.mem_cons_of_mem _ member.1, member.2⟩
  cases command with
  | updateState | insertDrvs | propagateFailure | clearFailure => cases asks
  | _ => exact fixed _ loaded

theorem maintain_nodes (service : GraphService DrvId) (now : Instant) :
    (service.maintain now).graph.nodes = service.graph.nodes := by
  unfold maintain
  dsimp only
  split
  · exact (BuildGraph.evictStaleFailures_frame now).1
  · rfl

theorem maintain_getNode (service : GraphService DrvId) (now : Instant) (drvId : DrvId) :
    (service.maintain now).graph.getNode drvId = service.graph.getNode drvId := by
  rw [BuildGraph.getNode, BuildGraph.getNode, maintain_nodes]

theorem maintain_blockedBy {now : Instant} {failed drvId : DrvId}
    (listed : drvId ∈ (service.maintain now).graph.blockedBy failed) : drvId ∈ service.graph.blockedBy failed := by
  unfold maintain at listed
  dsimp only at listed
  split at listed
  · rw [BuildGraph.evictStaleFailures_blockedBy] at listed
    split at listed
    · cases listed
    · exact listed
  · exact listed

end GraphService

end EkaCI
