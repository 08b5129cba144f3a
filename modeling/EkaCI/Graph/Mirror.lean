import EkaCI.Graph.StateIndex
import EkaCI.Graph.Tracking

/-! Other services read a mirror of the graph that the graph service patches
after each change. Here is when the mirror shows the graph. -/

namespace EkaCI

open Lib

variable {DrvId : Type}

/-- What happens to the service and its database: it handles a command, or
another task writes the database. -/
inductive ServiceEvent (DrvId : Type) where
  | command (now : Instant) (command : GraphCommand DrvId)
  | store (db : Database DrvId)

/-- The cached dependencies of a drv; none if it is not cached. -/
def SharedView.getDependencies (view : SharedView DrvId) (drvId : DrvId) : List DrvId :=
  ((view.get drvId).map (·.dependencies)).getD []

namespace GraphService

/-- The view has the resident drvs as keys, each with the state and the set of
dependencies of its node, and so the handle and the graph agree on readiness. -/
structure Mirrors (service : GraphService DrvId) : Prop where
  keys : ∀ drvId, drvId ∈ service.sharedView.keys ↔ drvId ∈ service.graph.nodes.keys
  states : ∀ drvId, service.sharedView.getBuildState drvId = service.graph.stateOf drvId
  dependencies : ∀ drvId dependency, dependency ∈ service.sharedView.getDependencies drvId ↔
    dependency ∈ service.graph.getDependencies drvId
  buildable : ∀ drvId, service.sharedView.isBuildable drvId = service.graph.isBuildable drvId

/-- One drv is cached as it is in the graph. -/
def Shows (service : GraphService DrvId) (drvId : DrvId) : Prop :=
  service.sharedView.getBuildState drvId = service.graph.stateOf drvId ∧
    ∀ dependency, dependency ∈ service.sharedView.getDependencies drvId ↔
      dependency ∈ service.graph.getDependencies drvId

theorem mirrors_iff {service : GraphService DrvId} : service.Mirrors ↔ ∀ drvId, service.Shows drvId := by
  constructor
  · exact fun mirrors drvId => ⟨mirrors.states drvId, mirrors.dependencies drvId⟩
  · intro shows
    refine ⟨fun drvId => ?_, fun drvId => (shows drvId).1, fun drvId => (shows drvId).2, fun drvId => ?_⟩
    · have same := congrArg Option.isSome (shows drvId).1
      rw [SharedView.getBuildState, BuildGraph.stateOf, Option.isSome_map, Option.isSome_map] at same
      rw [Table.mem_keys, same, Option.isSome_iff_exists, LruCache.mem_keys_iff]
      rfl
    · obtain ⟨state, dependencies⟩ := shows drvId
      have states := fun other => (shows other).1
      unfold SharedView.isBuildable BuildGraph.isBuildable
      rw [SharedView.getBuildState, BuildGraph.stateOf] at state
      rw [Bool.eq_iff_iff]
      simp only [SharedView.getDependencies, BuildGraph.getDependencies] at dependencies
      cases cached : service.sharedView.get drvId with
      | none =>
        cases found : service.graph.getNode drvId with
        | none => rfl
        | some node => simp [cached, found] at state
      | some entry =>
        cases found : service.graph.getNode drvId with
        | none => simp [cached, found] at state
        | some node =>
          rw [cached, found] at dependencies
          simp only [Option.map_some, Option.getD_some] at dependencies
          simp only [List.all_eq_true, decide_eq_true_eq, states, dependencies]

variable [DecidableEq DrvId]

def handle (service : GraphService DrvId) : ServiceEvent DrvId → GraphService DrvId
  | .command now command => (service.process now command).2
  | .store db => { service with db := db }

def handleAll (service : GraphService DrvId) (events : List (ServiceEvent DrvId)) : GraphService DrvId :=
  events.foldl handle service

/-- A drv that is about to be reloaded is listed already at every resident node
that the database has as its dependent. -/
def ListedByDependents (service : GraphService DrvId) (drvId : DrvId) : Prop :=
  service.graph.nodes.contains drvId = false → ∀ drv, service.db.getDrv drvId = some drv →
    ∀ dependent ∈ service.db.getDrvDependents drvId, dependent ≠ drvId →
      dependent ∈ service.graph.nodes.keys → service.graph.nodes.victim drvId ≠ some dependent →
        drvId ∈ service.graph.getDependencies dependent

/-- Each drv that a query reloads meets that condition when its turn comes. -/
def ReloadsListed (now : Instant) (service : GraphService DrvId) (seeds : List DrvId) : Prop :=
  MeetsInTurn (ensureLoaded now) ListedByDependents service seeds

/-- When an event keeps the mirror: queries must only reload drvs that are listed. -/
def KeepsMirror (service : GraphService DrvId) : ServiceEvent DrvId → Prop
  | .command now command => command.isQuery = true → ReloadsListed now service command.seeds
  | .store _ => True

end GraphService

variable [DecidableEq DrvId]

namespace BuildGraph

variable {graph : BuildGraph DrvId}

theorem updateState_getDependencies (now : Instant) (drvId other : DrvId) (newState : DrvBuildState) :
    (graph.updateState now drvId newState).getDependencies other = graph.getDependencies other := by
  rw [getDependencies, updateState_getNode, getDependencies]
  split
  · cases graph.getNode other <;> rfl
  · rfl

theorem propagateFailure_getDependencies (failedDrv drvId : DrvId) :
    (graph.propagateFailure failedDrv).2.getDependencies drvId = graph.getDependencies drvId := by
  rw [getDependencies, propagateFailure_getNode, getDependencies]
  split
  · cases graph.getNode drvId <;> rfl
  · rfl

theorem fromDatabase_getDependencies (db : Database DrvId) (capacity : Nat) (positive : 0 < capacity) (now : Instant)
    (drvId : DrvId) : (fromDatabase db capacity positive now).getDependencies drvId =
      (load capacity positive now (normalDrvs db) db.refs).getDependencies drvId := by
  refine List.foldlRecOn (load capacity positive now (normalDrvs db) db.refs).failedDrvs.keys _
    (motive := fun graph : BuildGraph DrvId => graph.getDependencies drvId = _) rfl ?_
  exact fun graph kept failed _ => (propagateFailure_getDependencies failed drvId).trans kept

theorem clearFailure_getDependencies (formerlyFailed drvId : DrvId) :
    (graph.clearFailure formerlyFailed).2.getDependencies drvId = graph.getDependencies drvId := by
  rw [getDependencies, clearFailure_getNode, getDependencies]
  split
  · cases graph.getNode drvId with
    | none => rfl
    | some node =>
      simp only [Option.map_some, GraphNode.unblock]
      split <;> rfl
  · rfl

end BuildGraph

namespace SharedView

theorem foldl_setState_getDependencies (view : SharedView DrvId) (list : List DrvId) (other : DrvId)
    (state : DrvBuildState) :
    SharedView.getDependencies (list.foldl (fun view drvId => SharedView.setState view drvId state) view) other =
      view.getDependencies other := by
  rw [getDependencies, foldl_setState_get, getDependencies]
  split
  · cases view.get other <;> rfl
  · rfl

theorem foldl_setState_getBuildState (view : SharedView DrvId) (list : List DrvId) (other : DrvId)
    (state : DrvBuildState) :
    SharedView.getBuildState (list.foldl (fun view drvId => SharedView.setState view drvId state) view) other =
      if other ∈ list then (view.getBuildState other).map fun _ => state else view.getBuildState other := by
  rw [getBuildState, foldl_setState_get, getBuildState]
  split <;> simp [Function.comp_def]

end SharedView

namespace GraphService

variable {service : GraphService DrvId} {now : Instant} {drvId : DrvId}

theorem Shows.updateState (shows : service.Shows drvId) (other : DrvId) (newState : DrvBuildState) :
    (service.updateState now other newState).Shows drvId := by
  obtain ⟨state, dependencies⟩ := shows
  refine ⟨?_, fun dependency => ?_⟩
  · simp only [GraphService.updateState, SharedView.setState_getBuildState, BuildGraph.updateState_stateOf, state]
  · have cached := SharedView.foldl_setState_getDependencies service.sharedView [other] drvId newState
    simp only [GraphService.updateState, BuildGraph.updateState_getDependencies, ← dependencies]
    exact (congrArg (dependency ∈ ·) cached).to_iff

theorem Shows.propagateFailure (shows : service.Shows drvId) (failedDrv : DrvId) :
    (service.propagateFailure failedDrv).2.Shows drvId := by
  obtain ⟨state, dependencies⟩ := shows
  refine ⟨?_, fun dependency => ?_⟩
  · simp only [GraphService.propagateFailure, SharedView.foldl_setState_getBuildState, state,
      BuildGraph.propagateFailure_fst, BuildGraph.mem_getAllTransitiveDependents]
    exact (BuildGraph.propagateFailure_stateOf service.graph failedDrv drvId).symm
  · simp only [GraphService.propagateFailure, SharedView.foldl_setState_getDependencies,
      BuildGraph.propagateFailure_getDependencies, dependencies]

theorem Shows.clearFailure (shows : service.Shows drvId) (formerlyFailed : DrvId) :
    (service.clearFailure formerlyFailed).2.Shows drvId := by
  obtain ⟨state, dependencies⟩ := shows
  refine ⟨?_, fun dependency => ?_⟩
  · refine Eq.trans ?_ (BuildGraph.clearFailure_stateOf service.graph formerlyFailed drvId).symm
    simp only [GraphService.clearFailure, SharedView.foldl_setState_getBuildState, state,
      BuildGraph.mem_clearFailure_fst, BuildGraph.stateOf]
    cases service.graph.getNode drvId with
    | none => simp
    | some node =>
      simp only [Option.some.injEq, exists_eq_left', Option.map_some]
      split <;> rfl
  · simp only [GraphService.clearFailure, SharedView.foldl_setState_getDependencies,
      BuildGraph.clearFailure_getDependencies, dependencies]

omit [DecidableEq DrvId] in
theorem Shows.of_nodes {next : GraphService DrvId} (shows : service.Shows drvId)
    (view : next.sharedView.get drvId = service.sharedView.get drvId)
    (node : next.graph.getNode drvId = service.graph.getNode drvId) : next.Shows drvId := by
  unfold Shows SharedView.getBuildState BuildGraph.stateOf SharedView.getDependencies
    BuildGraph.getDependencies at *
  rw [view, node]
  exact shows

theorem shows_cacheNode {node : GraphNode DrvId} (found : service.graph.getNode drvId = some node) :
    (service.cacheNode drvId).Shows drvId := by
  simp [Shows, SharedView.getBuildState, BuildGraph.stateOf, SharedView.getDependencies,
    BuildGraph.getDependencies, cacheNode, found, CachedNode.fromGraphNode]

theorem Shows.cacheNode (shows : service.Shows drvId) {cached : DrvId} (different : drvId ≠ cached) :
    (service.cacheNode cached).Shows drvId :=
  shows.of_nodes (cacheNode_view different) (by rw [cacheNode_graph])

theorem insertDrv_get (drv : Drv DrvId) : (service.insertDrv now drv).sharedView.get drvId =
    if (if service.graph.nodes.contains drv.drvPath then some drv.drvPath
      else service.graph.nodes.victim drv.drvPath) = some drvId then none
    else service.sharedView.get drvId := by
  rw [← LruCache.push_fst_key _ drv.drvPath (.fromDrv drv)]
  have inserted : (service.graph.insertNode now drv).1 =
    (service.graph.nodes.push drv.drvPath (.fromDrv drv)).1 := rfl
  rw [← inserted, insertDrv]
  cases (service.graph.insertNode now drv).1 with
  | none => rfl
  | some entry =>
    simp only [forgetEvicted, Table.erase_get, Option.map_some, Option.some.injEq, eq_comm (a := drvId)]

theorem Shows.insertDrv (shows : service.Shows drvId) {drv : Drv DrvId} (different : drvId ≠ drv.drvPath) :
    (service.insertDrv now drv).Shows drvId := by
  have view := @insertDrv_get _ _ service now drvId drv
  have node := @BuildGraph.insertNode_getNode _ _ service.graph now drvId drv
  rw [← insertDrv_graph, if_neg different] at node
  have leaving : (if service.graph.nodes.contains drv.drvPath then some drv.drvPath
      else service.graph.nodes.victim drv.drvPath) = some drvId ↔
      service.graph.nodes.victim drv.drvPath = some drvId := by
    cases present : service.graph.nodes.contains drv.drvPath with
    | false => simp
    | true => simp [LruCache.victim_of_contains present, Ne.symm different]
  simp only [leaving] at view
  by_cases leaves : service.graph.nodes.victim drv.drvPath = some drvId
  · rw [if_pos leaves] at view node
    simp [Shows, SharedView.getBuildState, BuildGraph.stateOf, SharedView.getDependencies,
      BuildGraph.getDependencies, view, node]
  · rw [if_neg leaves] at view node
    exact shows.of_nodes view node

theorem Mirrors.insertDrv (mirrors : service.Mirrors) (drv : Drv DrvId) :
    ((service.insertDrv now drv).cacheNode drv.drvPath).Mirrors := by
  rw [mirrors_iff] at mirrors ⊢
  intro drvId
  by_cases same : drvId = drv.drvPath
  · subst same
    have found : (service.insertDrv now drv).graph.getNode drv.drvPath = some (.fromDrv drv) := by
      rw [insertDrv_graph, BuildGraph.insertNode_getNode_self]
    exact shows_cacheNode found
  · exact ((mirrors drvId).insertDrv same).cacheNode same

theorem cacheDependencies_get (referrer : DrvId) :
    (service.cacheDependencies referrer).sharedView.get drvId =
      if drvId = referrer then match service.graph.getNode referrer with
        | none => service.sharedView.get drvId
        | some node => (service.sharedView.get drvId).map fun cached =>
            { cached with dependencies := node.dependencies }
      else service.sharedView.get drvId := by
  unfold cacheDependencies
  cases service.graph.getNode referrer with
  | none => simp
  | some node => exact Table.modify_get ..

theorem cacheDependencies_graph (referrer : DrvId) :
    (service.cacheDependencies referrer).graph = service.graph := by
  unfold cacheDependencies
  split <;> rfl

theorem Mirrors.insertRef (mirrors : service.Mirrors) (referrer reference : DrvId) :
    ((service.insertRef referrer reference).cacheDependencies referrer).Mirrors := by
  rw [mirrors_iff] at mirrors ⊢
  intro drvId
  obtain ⟨state, dependencies⟩ := mirrors drvId
  have view := @cacheDependencies_get _ _ (service.insertRef referrer reference) drvId referrer
  have states : (service.insertRef referrer reference).graph.stateOf drvId = service.graph.stateOf drvId :=
    BuildGraph.addEdge_stateOf ..
  rw [Shows, cacheDependencies_graph, SharedView.getBuildState, SharedView.getDependencies, view, states]
  by_cases same : drvId = referrer
  · subst same
    simp only [if_true, BuildGraph.getDependencies]
    cases found : (service.insertRef drvId reference).graph.getNode drvId with
    | none =>
      rw [BuildGraph.stateOf, found] at states
      refine ⟨state, fun dependency => ?_⟩
      have absent : service.graph.getNode drvId = none := Option.map_eq_none_iff.mp states.symm
      rw [BuildGraph.getDependencies, absent] at dependencies
      exact dependencies dependency
    | some node =>
      rw [BuildGraph.stateOf, found] at states
      rw [← states] at state ⊢
      obtain ⟨cached, entry, kept⟩ := Option.map_eq_some_iff.mp state
      have held : (service.insertRef drvId reference).sharedView.get drvId = some cached := entry
      rw [held]
      exact ⟨congrArg some kept, fun dependency => Iff.rfl⟩
  · rw [if_neg same]
    refine ⟨state, fun dependency => (dependencies dependency).trans ?_⟩
    rw [GraphService.insertRef, BuildGraph.mem_addEdge_getDependencies]
    simp [same]

theorem Mirrors.insertDrvs (mirrors : service.Mirrors) (drvs : List (Drv DrvId)) (refs : List (DrvId × DrvId)) :
    (service.insertDrvs now drvs refs).Mirrors := by
  have inserted := List.foldlRecOn drvs (fun service drv => (service.insertDrv now drv).cacheNode drv.drvPath)
    (motive := Mirrors) mirrors fun _ held drv _ => held.insertDrv drv
  exact List.foldlRecOn refs (fun service edge => (service.insertRef edge.1 edge.2).cacheDependencies edge.1)
    (motive := Mirrors) inserted fun _ held edge _ => held.insertRef edge.1 edge.2

theorem Shows.insertRefs_iff (shows : service.Shows drvId) (edges : List (DrvId × DrvId)) :
    (edges.foldl (fun service edge => service.insertRef edge.1 edge.2) service).Shows drvId ↔
      (drvId ∈ service.graph.nodes.keys → ∀ dependency, (drvId, dependency) ∈ edges →
        dependency ∈ service.graph.getDependencies drvId) := by
  obtain ⟨view, -, -, -, states⟩ := foldl_insertRef edges service
  obtain ⟨state, dependencies⟩ := shows
  have linked := fun dependency => @BuildGraph.addEdges_getDependencies _ _ service.graph dependency drvId edges
  rw [Shows, view, states, foldl_insertRef_graph]
  simp only [state, true_and, dependencies, linked]
  constructor
  · exact fun same resident dependency member => (same dependency).mpr (.inr ⟨resident, member⟩)
  · intro listed dependency
    refine ⟨.inl, fun reached => reached.elim id fun new => ?_⟩
    exact listed new.1 dependency new.2

theorem mem_insertDrv_keys {drv : Drv DrvId} (different : drvId ≠ drv.drvPath) :
    drvId ∈ (service.insertDrv now drv).graph.nodes.keys ↔
      drvId ∈ service.graph.nodes.keys ∧ service.graph.nodes.victim drv.drvPath ≠ some drvId := by
  rw [insertDrv_graph, LruCache.mem_keys_iff, LruCache.mem_keys_iff, ← BuildGraph.getNode,
    BuildGraph.insertNode_getNode, if_neg different]
  by_cases leaves : service.graph.nodes.victim drv.drvPath = some drvId
  · simp [leaves]
  · simp [leaves, BuildGraph.getNode]

theorem insertDrv_getDependencies {drv : Drv DrvId} (different : drvId ≠ drv.drvPath)
    (present : drvId ∈ (service.insertDrv now drv).graph.nodes.keys) :
    (service.insertDrv now drv).graph.getDependencies drvId = service.graph.getDependencies drvId := by
  have stays := ((mem_insertDrv_keys different).mp present).2
  rw [BuildGraph.getDependencies, insertDrv_graph, BuildGraph.insertNode_getNode, if_neg different,
    if_neg stays, BuildGraph.getDependencies]

theorem reloaded_shows (now : Instant) (drv : Drv DrvId) (edges : List (DrvId × DrvId)) :
    ((edges.foldl (fun service edge => service.insertRef edge.1 edge.2)
      (service.insertDrv now drv)).cacheNode drv.drvPath).Shows drv.drvPath := by
  obtain ⟨-, -, keys, -, -⟩ := foldl_insertRef edges (service.insertDrv now drv)
  have present : drv.drvPath ∈ (service.insertDrv now drv).graph.nodes.keys := by
    rw [insertDrv_graph]
    exact LruCache.mem_keys_iff.mpr ⟨_, BuildGraph.insertNode_getNode_self⟩
  rw [← keys] at present
  obtain ⟨node, found⟩ := LruCache.mem_keys_iff.mp present
  exact shows_cacheNode found

/-- A reload shows the graph exactly if its drv was listed by its dependents: the
edges from them go into the graph, but only the reloaded drv is cached. -/
theorem Mirrors.reload_iff (mirrors : service.Mirrors) (now : Instant) {drv : Drv DrvId}
    (evicted : service.graph.nodes.contains drv.drvPath = false)
    (stored : service.db.getDrv drv.drvPath = some drv) :
    (ensureLoaded now service drv.drvPath).Mirrors ↔ service.ListedByDependents drv.drvPath := by
  rw [ensureLoaded_eq now evicted stored, mirrors_iff]
  have inserted : ∀ other, other ≠ drv.drvPath → (service.insertDrv now drv).Shows other :=
    fun other different => (mirrors_iff.mp mirrors other).insertDrv different
  constructor
  · intro shows _ _ _ dependent member different present stays
    have linked : ((service.db.edgesOf drv.drvPath).foldl (fun service edge =>
        service.insertRef edge.1 edge.2) (service.insertDrv now drv)).Shows dependent :=
      (shows dependent).of_nodes (cacheNode_view different).symm (by rw [cacheNode_graph])
    have there := (@mem_insertDrv_keys _ _ service now _ drv different).mpr ⟨present, stays⟩
    rw [← insertDrv_getDependencies different there]
    apply ((inserted dependent different).insertRefs_iff _).mp linked there drv.drvPath
    exact Database.mem_edgesOf.mpr ⟨Database.mem_getDrvDependents.mp member, .inr rfl⟩
  · intro listed other
    by_cases same : other = drv.drvPath
    · subst same
      exact reloaded_shows now drv _
    · refine Shows.cacheNode (((inserted other same).insertRefs_iff _).mpr ?_) same
      intro present dependency member
      obtain ⟨row, ends⟩ := Database.mem_edgesOf.mp member
      obtain rfl : dependency = drv.drvPath := ends.resolve_left same
      obtain ⟨there, stays⟩ := (mem_insertDrv_keys same).mp present
      rw [insertDrv_getDependencies same present]
      exact listed evicted drv stored other (Database.mem_getDrvDependents.mpr row) same there stays

theorem Mirrors.ensureLoaded_iff (mirrors : service.Mirrors) (now : Instant) (drvId : DrvId) :
    (ensureLoaded now service drvId).Mirrors ↔ service.ListedByDependents drvId := by
  cases resident : service.graph.nodes.contains drvId with
  | true =>
    rw [ensureLoaded_of_resident now resident]
    exact iff_of_true mirrors fun absent => by simp [resident] at absent
  | false =>
    cases stored : service.db.getDrv drvId with
    | none =>
      rw [ensureLoaded_of_unknown now stored]
      exact iff_of_true mirrors fun _ drv known => by simp [stored] at known
    | some drv =>
      have path : drv.drvPath = drvId := service.db.keyed drvId drv stored
      subst path
      exact mirrors.reload_iff now resident stored

theorem Mirrors.reloads {seeds : List DrvId} (mirrors : service.Mirrors) (listed : ReloadsListed now service seeds) :
    (seeds.foldl (ensureLoaded now) service).Mirrors := by
  refine MeetsInTurn.foldl (p := Mirrors) (q := ListedByDependents) ?_ listed mirrors
  exact fun _ seed mirrors listed => (mirrors.ensureLoaded_iff now seed).mpr listed

theorem new_mirrors (db : Database DrvId) (capacity : Nat) (positive : 0 < capacity) (now : Instant) :
    (new db capacity positive now).Mirrors := by
  rw [mirrors_iff]
  intro drvId
  have view := @new_view _ _ db capacity positive now drvId
  have graph : (new db capacity positive now).graph = BuildGraph.fromDatabase db capacity positive now := rfl
  rw [Shows, SharedView.getBuildState, SharedView.getDependencies, view, graph, BuildGraph.stateOf,
    BuildGraph.getDependencies]
  cases (BuildGraph.fromDatabase db capacity positive now).getNode drvId <;>
    simp [CachedNode.fromGraphNode]

omit [DecidableEq DrvId] in
theorem Mirrors.of_nodes {next : GraphService DrvId} (mirrors : service.Mirrors)
    (view : next.sharedView = service.sharedView)
    (node : ∀ drvId, next.graph.getNode drvId = service.graph.getNode drvId) : next.Mirrors := by
  rw [mirrors_iff] at mirrors ⊢
  exact fun drvId => (mirrors drvId).of_nodes (by rw [view]) (node drvId)

theorem Mirrors.handleCommand {command : GraphCommand DrvId} (mirrors : service.Mirrors)
    (keeps : command.isQuery = true → ReloadsListed now service command.seeds) :
    (service.handleCommand now command).2.Mirrors := by
  have shows := mirrors_iff.mp mirrors
  cases command with
  | updateState other newState => exact mirrors_iff.mpr fun drvId => (shows drvId).updateState other newState
  | insertDrvs drvs refs => exact mirrors.insertDrvs drvs refs
  | propagateFailure failedDrv => exact mirrors_iff.mpr fun drvId => (shows drvId).propagateFailure failedDrv
  | clearFailure formerlyFailed => exact mirrors_iff.mpr fun drvId => (shows drvId).clearFailure formerlyFailed
  | _ => exact mirrors.reloads (keeps rfl)

theorem Mirrors.handle (mirrors : service.Mirrors) {event : ServiceEvent DrvId}
    (keeps : service.KeepsMirror event) : (service.handle event).Mirrors := by
  cases event with
  | store db => exact mirrors.of_nodes rfl fun _ => rfl
  | command now command =>
    exact (mirrors.handleCommand keeps).of_nodes (maintain_view now) (maintain_getNode _ now)

/-- While every reload finds its drv listed by its resident dependents, the view
mirrors the graph after every event. -/
theorem handleAll_mirrors (db : Database DrvId) (capacity : Nat) (positive : 0 < capacity) (start : Instant)
    (events : List (ServiceEvent DrvId))
    (keeps : ∀ before event after, events = before ++ event :: after →
      ((new db capacity positive start).handleAll before).KeepsMirror event)
    (before after : List (ServiceEvent DrvId)) (split : events = before ++ after) :
    ((new db capacity positive start).handleAll before).Mirrors :=
  always_of (new_mirrors db capacity positive start) (fun _ _ mirrors keeps => mirrors.handle keeps) keeps
    before after split

/-- Three drvs, one of which needs another, in a cache for two. -/
def smallCache : GraphService Nat :=
  new (Database.empty.insertDrvsAndReferences
    [.plain 2 .queued, .plain 1 .queued, .plain 0 .queued] [(1, 2)]) 2 Nat.zero_lt_two 0

theorem smallCache_mirrors :
    (smallCache.handleAll [.command 1 (.getDependents 2)]).Mirrors := by
  refine handleAll_mirrors _ 2 (by decide) 0 [.command 1 (.getDependents 2)] ?_ _ [] rfl
  intro before event after split
  simp only [List.cons_eq_append_iff, List.cons.injEq, List.nil_eq_append_iff, reduceCtorEq, and_false,
    exists_false, or_false] at split
  obtain ⟨rfl, rfl, -⟩ := split
  refine fun _ => ⟨?_, trivial⟩
  intro evicted drv stored dependent member different present stays
  obtain rfl : dependent = 1 := by
    rw [Database.mem_getDrvDependents] at member
    have rows : smallCache.db.refs = [(1, 2)] := rfl
    change (dependent, 2) ∈ smallCache.db.refs at member
    simpa [rows] using member
  decide

/-- A drv is submitted again without its dependency, which a query then reloads. -/
theorem resubmitted_not_mirrored :
    ¬ (smallCache.handleAll [.command 1 (.insertDrvs [.plain 1 .queued] []),
      .command 2 (.getDependents 2)]).Mirrors := by
  intro mirrors
  have ready := mirrors.buildable 1
  exact absurd ready (by decide)

end GraphService

end EkaCI
