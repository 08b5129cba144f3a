import EkaCI.Graph.Capacity
import EkaCI.Lib.PostOrder

/-! What blocks a drv is something that it needs. Whatever happens to a service, its
graph only knows edges that it was given as references, so failures are propagated
along these, and blockers never form a cycle if the references do not. -/

namespace EkaCI

open Lib

variable {DrvId : Type}

/-- What happens to a service and what it shares: it handles a command, or another
task writes the database or the state of a drv in the view. -/
inductive SharedEvent (DrvId : Type) where
  | command (now : Instant) (command : GraphCommand DrvId)
  | store (db : Database DrvId)
  | announce (drvId : DrvId) (state : DrvBuildState)

/-- The references that an event brings along. -/
def SharedEvent.refs : SharedEvent DrvId → List (DrvId × DrvId)
  | .command _ (.insertDrvs _ refs) => refs
  | .store db => db.refs
  | _ => []

namespace BuildGraph

/-- Dependents and blockers follow the references. -/
structure RestsOn (edges : List (DrvId × DrvId)) (graph : BuildGraph DrvId) : Prop where
  dependents : ∀ source target, target ∈ graph.getDependents source → (target, source) ∈ edges
  blockers : ∀ drvId, ∀ blocker ∈ graph.getFailedDependencies drvId, Leads edges drvId blocker

/-- The blocker may be what the drv waits for. -/
def BlockedBy (graph : BuildGraph DrvId) (drvId blocker : DrvId) : Prop := blocker ∈ graph.getFailedDependencies drvId

namespace RestsOn

variable {edges : List (DrvId × DrvId)} {graph next : BuildGraph DrvId} {now : Instant}

theorem new (edges : List (DrvId × DrvId)) (capacity : Nat) (positive : 0 < capacity) :
    (BuildGraph.new capacity positive).RestsOn edges := by
  constructor
  · intro source target listed
    cases listed
  · intro drvId blocker blocks
    cases blocks

theorem of_kept (rests : graph.RestsOn edges) (dependents : ∀ drvId, next.getDependents drvId ⊆ graph.getDependents drvId)
    (blockers : ∀ drvId, next.getFailedDependencies drvId ⊆ graph.getFailedDependencies drvId) :
    next.RestsOn edges where
  dependents source target listed := rests.dependents source target (dependents source listed)
  blockers drvId blocker blocks := rests.blockers drvId blocker (blockers drvId blocks)

theorem leads (rests : graph.RestsOn edges) {source target : DrvId} (strict : graph.StrictDependent source target) :
    Leads edges target source := by
  obtain ⟨-, path⟩ := strict
  induction path with
  | single edge => exact .single (rests.dependents _ _ edge)
  | tail _ edge ih => exact .head (rests.dependents _ _ edge) ih

variable [DecidableEq DrvId]

theorem insertNode (rests : graph.RestsOn edges) (now : Instant) (drv : Drv DrvId) :
    (graph.insertNode now drv).2.RestsOn edges := by
  apply rests.of_kept
  · exact fun source target => GraphService.mem_getDependents_of_insertNode
  · intro drvId blocker blocks
    rw [getFailedDependencies, insertNode_getNode] at blocks
    split at blocks
    · cases blocks
    · split at blocks
      · cases blocks
      · exact blocks

theorem addEdges (rests : graph.RestsOn edges) {refs : List (DrvId × DrvId)} (given : refs ⊆ edges) :
    (refs.foldl (fun graph edge => graph.addEdge edge.1 edge.2) graph).RestsOn edges := by
  obtain ⟨-, -, -, -, blockers⟩ := addEdges_frame refs graph
  constructor
  · intro source target listed
    rcases addEdges_getDependents.mp listed with old | ⟨-, row⟩
    · exact rests.dependents source target old
    · exact given row
  · intro drvId blocker blocks
    rw [blockers] at blocks
    exact rests.blockers drvId blocker blocks

theorem extend (rests : graph.RestsOn edges) (now : Instant) (drvs : List (Drv DrvId)) {refs : List (DrvId × DrvId)}
    (given : refs ⊆ edges) : (graph.extend now drvs refs).RestsOn edges := by
  apply addEdges _ given
  exact List.foldlRecOn drvs _ (motive := RestsOn edges) rests fun _ held drv _ => held.insertNode now drv

theorem updateState (rests : graph.RestsOn edges) (now : Instant) (drvId : DrvId) (newState : DrvBuildState) :
    (graph.updateState now drvId newState).RestsOn edges := by
  apply rests.of_kept
  · intro other
    rw [updateState_topology.dependents]
    exact List.Subset.refl _
  · intro other
    rw [updateState_getFailedDependencies]

theorem propagateFailure (rests : graph.RestsOn edges) (failedDrv : DrvId) :
    (graph.propagateFailure failedDrv).2.RestsOn edges := by
  constructor
  · intro source target listed
    rw [(propagateFailure_topology graph failedDrv).dependents] at listed
    exact rests.dependents source target listed
  · intro drvId blocker blocks
    rcases mem_propagateFailure_blockers.mp blocks with old | ⟨rfl, strict, -⟩
    · exact rests.blockers drvId blocker old
    · exact rests.leads strict

theorem clearFailure (rests : graph.RestsOn edges) (formerlyFailed : DrvId) :
    (graph.clearFailure formerlyFailed).2.RestsOn edges := by
  apply rests.of_kept
  · intro drvId
    rw [(clearFailure_topology graph formerlyFailed).dependents]
    exact List.Subset.refl _
  · intro drvId blocker blocks
    rw [getFailedDependencies, clearFailure_getNode] at blocks
    rw [getFailedDependencies]
    split at blocks
    · cases found : graph.getNode drvId with
      | none =>
        rw [found] at blocks
        cases blocks
      | some node =>
        rw [found, Option.map_some, Option.map_some, Option.getD_some, Coherent.unblock_blockingFailures] at blocks
        exact Finset.mem_of_mem_erase blocks
    · exact blocks

theorem fromDatabase {db : Database DrvId} (given : db.refs ⊆ edges) (capacity : Nat) (positive : 0 < capacity)
    (now : Instant) : (fromDatabase db capacity positive now).RestsOn edges := by
  let loaded := load capacity positive now (normalDrvs db) db.refs
  apply List.foldlRecOn loaded.failedDrvs.keys _ (motive := RestsOn edges)
  · exact extend (new edges capacity positive) now (normalDrvs db) given
  · exact fun _ held failed _ => held.propagateFailure failed

end RestsOn

end BuildGraph

namespace GraphService

def ShowsResidents (service : GraphService DrvId) : Prop :=
  ∀ drvId ∈ service.sharedView.keys, drvId ∈ service.graph.nodes.keys

structure RestsOn (edges : List (DrvId × DrvId)) (service : GraphService DrvId) : Prop where
  graph : service.graph.RestsOn edges
  shown : service.ShowsResidents
  stored : service.db.refs ⊆ edges

variable [DecidableEq DrvId]

def happen (service : GraphService DrvId) : SharedEvent DrvId → GraphService DrvId
  | .command now command => (service.process now command).2
  | .store db => { service with db := db }
  | .announce drvId state => { service with sharedView := service.sharedView.setState drvId state }

/-- The services that come about with no other references than the given ones. -/
inductive Reached (edges : List (DrvId × DrvId)) : GraphService DrvId → Prop where
  | new (db : Database DrvId) (capacity : Nat) (positive : 0 < capacity) (now : Instant) (given : db.refs ⊆ edges) :
    Reached edges (.new db capacity positive now)
  | step {service : GraphService DrvId} (reached : Reached edges service) (event : SharedEvent DrvId)
    (given : event.refs ⊆ edges) : Reached edges (service.happen event)

variable {edges : List (DrvId × DrvId)} {service next : GraphService DrvId}

omit [DecidableEq DrvId] in
theorem ShowsResidents.of_keys (shown : service.ShowsResidents)
    (view : ∀ drvId ∈ next.sharedView.keys, drvId ∈ service.sharedView.keys)
    (resident : next.graph.nodes.keys = service.graph.nodes.keys) : next.ShowsResidents := by
  intro drvId member
  rw [resident]
  exact shown drvId (view drvId member)

theorem ShowsResidents.cacheNode (shown : service.ShowsResidents) (drvId : DrvId) :
    (service.cacheNode drvId).ShowsResidents := by
  unfold GraphService.cacheNode
  split
  · exact shown
  · rename_i node found
    intro other member
    rw [Table.push_keys, List.mem_cons] at member
    rcases member with rfl | member
    · exact LruCache.mem_keys_iff.mpr ⟨node, found⟩
    · exact shown other (List.mem_of_mem_erase member)

theorem ShowsResidents.insertDrv (shown : service.ShowsResidents) (now : Instant) (drv : Drv DrvId) :
    (service.insertDrv now drv).ShowsResidents := by
  intro drvId member
  by_cases same : drvId = drv.drvPath
  · subst same
    rw [insertDrv_graph]
    exact LruCache.mem_keys_iff.mpr ⟨_, BuildGraph.insertNode_getNode_self⟩
  · rw [Table.mem_keys, insertDrv_get] at member
    rw [mem_insertDrv_keys same]
    cases present : service.graph.nodes.contains drv.drvPath with
    | true =>
      have other : ¬ some drv.drvPath = some drvId := fun equal => same (Option.some.inj equal).symm
      rw [present, if_pos rfl, if_neg other] at member
      refine ⟨shown drvId ((Table.mem_keys ..).mpr member), fun leaves => ?_⟩
      rw [LruCache.victim_of_contains present] at leaves
      cases leaves
    | false =>
      rw [present, if_neg Bool.false_ne_true] at member
      by_cases leaves : service.graph.nodes.victim drv.drvPath = some drvId
      · rw [if_pos leaves] at member
        cases member
      · rw [if_neg leaves] at member
        exact ⟨shown drvId ((Table.mem_keys ..).mpr member), leaves⟩

theorem ShowsResidents.insertDrvs (shown : service.ShowsResidents) (now : Instant) (drvs : List (Drv DrvId))
    (refs : List (DrvId × DrvId)) : (service.insertDrvs now drvs refs).ShowsResidents := by
  apply List.foldlRecOn refs _ (motive := ShowsResidents)
  · exact List.foldlRecOn drvs _ (motive := ShowsResidents) shown fun _ held drv _ =>
      (held.insertDrv now drv).cacheNode drv.drvPath
  · intro linked held edge _
    have kept : (linked.insertRef edge.1 edge.2).ShowsResidents := held.of_keys (fun _ => id) rfl
    unfold cacheDependencies
    split
    · exact kept
    · exact kept.of_keys (fun _ => id) rfl

theorem ShowsResidents.ensureLoaded (shown : service.ShowsResidents) (now : Instant) (drvId : DrvId) :
    (GraphService.ensureLoaded now service drvId).ShowsResidents := by
  cases resident : service.graph.nodes.contains drvId with
  | true =>
    rw [ensureLoaded_of_resident now resident]
    exact shown
  | false =>
    cases stored : service.db.getDrv drvId with
    | none =>
      rw [ensureLoaded_of_unknown now stored]
      exact shown
    | some drv =>
      obtain ⟨view, -, keys, -, -⟩ := foldl_insertRef (service.db.edgesOf drvId) (service.insertDrv now drv)
      rw [ensureLoaded_eq now resident stored]
      apply ShowsResidents.cacheNode
      exact (shown.insertDrv now drv).of_keys (fun _ member => view ▸ member) keys

namespace RestsOn

theorem new {db : Database DrvId} (given : db.refs ⊆ edges) (capacity : Nat) (positive : 0 < capacity)
    (now : Instant) : (GraphService.new db capacity positive now).RestsOn edges where
  graph := .fromDatabase given capacity positive now
  shown := fun _ => mem_new_view.mp
  stored := given

theorem ensureLoaded (rests : service.RestsOn edges) (now : Instant) (drvId : DrvId) :
    (GraphService.ensureLoaded now service drvId).RestsOn edges where
  graph := by
    cases resident : service.graph.nodes.contains drvId with
    | true =>
      rw [ensureLoaded_of_resident now resident]
      exact rests.graph
    | false =>
      cases stored : service.db.getDrv drvId with
      | none =>
        rw [ensureLoaded_of_unknown now stored]
        exact rests.graph
      | some drv =>
        rw [ensureLoaded_eq now resident stored, cacheNode_graph, foldl_insertRef_graph, insertDrv_graph]
        apply (rests.graph.insertNode now drv).addEdges
        exact fun edge row => rests.stored (Database.mem_edgesOf.mp row).1
  shown := rests.shown.ensureLoaded now drvId
  stored := by
    rw [(ensureLoaded_frame service now drvId).1]
    exact rests.stored

theorem insertDrvs (rests : service.RestsOn edges) (now : Instant) (drvs : List (Drv DrvId))
    {refs : List (DrvId × DrvId)} (given : refs ⊆ edges) : (service.insertDrvs now drvs refs).RestsOn edges := by
  obtain ⟨graph, db⟩ := insertDrvs_graph service now drvs refs
  constructor
  · rw [graph]
    exact rests.graph.extend now drvs given
  · exact rests.shown.insertDrvs now drvs refs
  · rw [db]
    exact rests.stored

theorem handleCommand (rests : service.RestsOn edges) (now : Instant) (command : GraphCommand DrvId)
    (given : (SharedEvent.command now command).refs ⊆ edges) : (service.handleCommand now command).2.RestsOn edges := by
  cases command with
  | updateState drvId newState =>
    exact ⟨rests.graph.updateState now drvId newState,
      rests.shown.of_keys (fun _ => id) BuildGraph.updateState_topology.keys, rests.stored⟩
  | insertDrvs drvs refs => exact rests.insertDrvs now drvs given
  | propagateFailure failedDrv =>
    refine ⟨rests.graph.propagateFailure failedDrv, rests.shown.of_keys (fun drvId member => ?_)
      (BuildGraph.propagateFailure_topology ..).keys, ?_⟩
    · rw [GraphService.handleCommand, propagateFailure] at member
      rwa [SharedView.foldl_setState_keys] at member
    · rw [GraphService.handleCommand, propagateFailure_db, (Database.insertTransitiveFailures_frame ..).2]
      exact rests.stored
  | clearFailure formerlyFailed =>
    refine ⟨rests.graph.clearFailure formerlyFailed, rests.shown.of_keys (fun drvId member => ?_)
      (BuildGraph.clearFailure_topology ..).keys, rests.stored⟩
    rw [GraphService.handleCommand, clearFailure] at member
    rwa [SharedView.foldl_setState_keys] at member
  | _ => exact List.foldlRecOn _ _ (motive := RestsOn edges) rests fun _ held seed _ => held.ensureLoaded now seed

omit [DecidableEq DrvId] in
theorem of_nodes (rests : service.RestsOn edges) (nodes : next.graph.nodes = service.graph.nodes)
    (view : next.sharedView.keys = service.sharedView.keys) (refs : next.db.refs ⊆ edges) : next.RestsOn edges where
  graph := by
    apply rests.graph.of_kept
    · intro drvId
      rw [BuildGraph.getDependents, BuildGraph.getNode, nodes]
      exact List.Subset.refl _
    · intro drvId
      rw [BuildGraph.getFailedDependencies, BuildGraph.getNode, nodes]
      exact Finset.Subset.refl _
  shown := rests.shown.of_keys (fun _ member => view ▸ member) (congrArg LruCache.keys nodes)
  stored := refs

theorem maintain (rests : service.RestsOn edges) (now : Instant) : (service.maintain now).RestsOn edges := by
  apply rests.of_nodes (maintain_nodes service now)
  · rw [maintain_view]
  · rw [maintain_db]
    exact rests.stored

theorem happen (rests : service.RestsOn edges) (event : SharedEvent DrvId) (given : event.refs ⊆ edges) :
    (service.happen event).RestsOn edges := by
  cases event with
  | command now command => exact (rests.handleCommand now command given).maintain now
  | store db => exact rests.of_nodes rfl rfl given
  | announce drvId state => exact rests.of_nodes rfl rfl rests.stored

end RestsOn

theorem Reached.restsOn (reached : Reached edges service) : service.RestsOn edges := by
  induction reached with
  | new db capacity positive now given => exact .new given capacity positive now
  | step _ event given ih => exact ih.happen event given

end GraphService

end EkaCI
