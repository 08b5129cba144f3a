import EkaCI.Graph.Batching
import EkaCI.Graph.Mirror
import EkaCI.Graph.Reachability

/-! The cache is meant to be invisible: whatever it holds, queries and failure
propagation should answer for the dependency graph in the database. Traversals
do not leave the cache, so this is so as long as all of that graph is in it. -/

namespace EkaCI

open Lib

variable {DrvId : Type}

namespace Database

/-- One step along the dependents in the database. -/
def Dependent (db : Database DrvId) (source target : DrvId) : Prop := (target, source) ∈ db.refs

/-- Transitive dependents other than the drv itself. -/
def StrictDependent (db : Database DrvId) (source target : DrvId) : Prop :=
  target ≠ source ∧ Relation.TransGen db.Dependent source target

end Database

/-- What the service is asked to do: drvs are submitted, which are written to the
database before the command is handled, a state is updated, or a query is made. -/
inductive Request (DrvId : Type) where
  | submit (now : Instant) (drvs : List (Drv DrvId)) (refs : List (DrvId × DrvId))
  | update (now : Instant) (drvId : DrvId) (newState : DrvBuildState)
  | ask (now : Instant) (query : GraphCommand DrvId) (asks : query.isQuery = true)

namespace GraphService

variable [DecidableEq DrvId]

def serve (service : GraphService DrvId) : Request DrvId → GraphService DrvId
  | .submit now drvs refs =>
    let stored := { service with db := service.db.insertDrvsAndReferences drvs refs }
    (stored.process now (.insertDrvs drvs refs)).2
  | .update now drvId newState => (service.process now (.updateState drvId newState)).2
  | .ask now query _ => (service.process now query).2

def serveAll (service : GraphService DrvId) (requests : List (Request DrvId)) : GraphService DrvId :=
  requests.foldl serve service

/-- Every answer is that of the graph in the database. -/
structure Transparent (service : GraphService DrvId) : Prop where
  dependencies : ∀ now drvId reference,
    reference ∈ service.answerDependencies now drvId ↔ (drvId, reference) ∈ service.db.refs
  dependents : ∀ now drvId referrer,
    referrer ∈ service.answerDependents now drvId ↔ (referrer, drvId) ∈ service.db.refs
  reachable : ∀ now seeds drvId, drvId ∈ service.answerReverseReachable now seeds ↔
    ∃ seed ∈ seeds, seed ∈ service.db.drvs.keys ∧ Relation.ReflTransGen service.db.Dependent seed drvId
  radius : ∀ now seeds, ∀ seed ∈ seeds, (service.answerBlastRadius now seeds).get seed =
    some {drvId | service.db.StrictDependent seed drvId}.ncard
  marked : ∀ failed drvId state, service.db.StrictDependent failed drvId →
    service.db.rowState drvId = some state → state.isPropagationImmune = false →
      drvId ∈ (service.propagateFailure failed).1 ∧
        (service.propagateFailure failed).2.graph.stateOf drvId = some .transitiveFailure ∧
        (service.propagateFailure failed).2.db.rowState drvId = some .transitiveFailure

/-- When a request keeps the whole graph in the cache: all rows fit, the references
of the table are between drvs with rows, and drvs that come again come with all
the edges they have. -/
def KeepsComplete (service : GraphService DrvId) : Request DrvId → Prop
  | .submit _ drvs refs =>
    let stored := service.db.insertDrvsAndReferences drvs refs
    stored.drvs.keys.length ≤ service.graph.nodes.cap ∧ stored.RefsClosed ∧
      ∀ drv ∈ drvs, ∀ edge ∈ service.db.refs,
        edge.1 = drv.drvPath ∨ edge.2 = drv.drvPath → edge ∈ refs
  | _ => True

/-- The cache holds every drv of the database, with all its edges. -/
structure Complete (service : GraphService DrvId) : Prop where
  resident : ∀ drvId, drvId ∈ service.graph.nodes.keys ↔ drvId ∈ service.db.drvs.keys
  links : service.graph.Links service.db.refs
  closed : service.db.RefsClosed

namespace Complete

variable {service : GraphService DrvId} (complete : service.Complete)

include complete

theorem ensureLoaded (now : Instant) (drvId : DrvId) : ensureLoaded now service drvId = service := by
  cases resident : service.graph.nodes.contains drvId with
  | true => exact ensureLoaded_of_resident now resident
  | false =>
    refine ensureLoaded_of_unknown now (Table.get_none_iff.mpr ?_)
    rw [← complete.resident, ← LruCache.contains_iff, resident]
    exact Bool.false_ne_true

variable (now : Instant) (drvId : DrvId)

theorem reloads (seeds : List DrvId) : seeds.foldl (GraphService.ensureLoaded now) service = service := by
  induction seeds with
  | nil => rfl
  | cons seed rest ih => rw [List.foldl_cons, complete.ensureLoaded, ih]

omit [DecidableEq DrvId] in
theorem dependent : service.graph.Dependent = service.db.Dependent := by
  funext source target
  exact propext (complete.links target source).2

omit [DecidableEq DrvId] in
theorem strictDependent (source target : DrvId) :
    service.graph.StrictDependent source target ↔ service.db.StrictDependent source target := by
  rw [BuildGraph.StrictDependent, complete.dependent, Database.StrictDependent]

theorem dependencies (reference : DrvId) :
    reference ∈ service.answerDependencies now drvId ↔ (drvId, reference) ∈ service.db.refs := by
  rw [answerDependencies, complete.ensureLoaded]
  split
  · exact (complete.links drvId reference).1
  · rename_i absent
    refine iff_of_false List.not_mem_nil fun edge => absent ?_
    exact LruCache.contains_iff.mpr ((complete.resident drvId).mpr (complete.closed _ edge).1)

theorem dependents (referrer : DrvId) :
    referrer ∈ service.answerDependents now drvId ↔ (referrer, drvId) ∈ service.db.refs := by
  rw [answerDependents, complete.ensureLoaded]
  split
  · exact (complete.links referrer drvId).2
  · rename_i absent
    refine iff_of_false List.not_mem_nil fun edge => absent ?_
    exact LruCache.contains_iff.mpr ((complete.resident drvId).mpr (complete.closed _ edge).2)

theorem radius (seeds : List DrvId) (seed : DrvId) (asked : seed ∈ seeds) :
    (service.answerBlastRadius now seeds).get seed =
      some {drvId | service.db.StrictDependent seed drvId}.ncard := by
  rw [answerBlastRadius, complete.reloads, BuildGraph.blastRadiusPerSeed_get_eq, if_pos asked]
  simp only [complete.strictDependent]

theorem marked (failed drvId : DrvId) (strict : service.db.StrictDependent failed drvId) :
    drvId ∈ (service.propagateFailure failed).1 ∧
      (service.propagateFailure failed).2.graph.stateOf drvId = some .transitiveFailure ∧
      (service.propagateFailure failed).2.db.rowState drvId = some .transitiveFailure := by
  rw [← complete.strictDependent] at strict
  have reached := BuildGraph.mem_getAllTransitiveDependents.mpr strict
  obtain ⟨source, -, edge⟩ := Relation.TransGen.tail'_iff.mp strict.2
  rw [complete.dependent] at edge
  have known := (complete.closed _ edge).1
  have resident := (complete.resident drvId).mpr known
  refine ⟨reached, ?_, ?_⟩
  · obtain ⟨node, found⟩ := LruCache.mem_keys_iff.mp resident
    have state : service.graph.stateOf drvId = some node.buildState := BuildGraph.stateOf_eq_some.mpr ⟨node, found, rfl⟩
    rw [GraphService.propagateFailure, BuildGraph.propagateFailure_stateOf, if_pos strict, state]
    rfl
  · obtain ⟨row, stored⟩ := Table.get_of_mem_keys known
    rw [propagateFailure_row, if_pos strict, Database.rowState, Database.getDrv, stored]
    rfl

theorem transparent : service.Transparent where
  dependencies := complete.dependencies
  dependents := complete.dependents
  reachable now seeds drvId := by
    rw [answerReverseReachable, complete.reloads, BuildGraph.mem_reverseReachableFromSet, complete.dependent]
    simp only [complete.resident]
  radius := complete.radius
  marked failed drvId _ strict _ _ := complete.marked failed drvId strict

omit [DecidableEq DrvId] in
theorem of_kept {next : GraphService DrvId} (keys : next.graph.nodes.keys = service.graph.nodes.keys)
    (edges : next.graph.SameEdges service.graph) (rows : next.db.drvs.keys = service.db.drvs.keys)
    (refs : next.db.refs = service.db.refs) : next.Complete := by
  refine ⟨fun drvId => ?_, fun referrer reference => ?_, fun edge member => ?_⟩
  · rw [keys, rows]
    exact complete.resident drvId
  · rw [(edges referrer).1, (edges reference).2, refs]
    exact complete.links referrer reference
  · rw [rows]
    rw [refs] at member
    exact complete.closed edge member

theorem maintain : (service.maintain now).Complete := by
  refine complete.of_kept (by rw [maintain_nodes]) (fun drvId => ?_) (by rw [maintain_db]) (by rw [maintain_db])
  rw [BuildGraph.getDependencies, BuildGraph.getDependents, maintain_getNode]
  exact ⟨rfl, rfl⟩

theorem updateState (newState : DrvBuildState) : (service.updateState now drvId newState).Complete := by
  have topology := @BuildGraph.updateState_topology _ _ service.graph now drvId newState
  refine complete.of_kept topology.keys (fun other => ⟨?_, topology.dependents other⟩) rfl rfl
  exact BuildGraph.updateState_getDependencies ..

theorem handleQuery {now : Instant} {query : GraphCommand DrvId} (asks : query.isQuery = true) :
    (service.handleCommand now query).2 = service := by
  cases query with
  | updateState | insertDrvs | propagateFailure | clearFailure => cases asks
  | _ => exact complete.reloads now _

omit complete [DecidableEq DrvId] in
/-- An edge is listed at a node after an insertion if it was, unless the node was
inserted again, or if it is new. -/
theorem listed_iff [DecidableEq DrvId] {node other : DrvId} {edge : DrvId × DrvId} {list known again : List DrvId}
    {old new : List (DrvId × DrvId)} (before : other ∈ list ↔ edge ∈ old) (resident : edge ∈ new → node ∈ known)
    (resent : node ∈ again → edge ∈ old → edge ∈ new) :
    (other ∈ (if node ∈ again then [] else list) ∨ (node ∈ known ∧ edge ∈ new)) ↔ edge ∈ old ∨ edge ∈ new := by
  split
  · rename_i repeated
    constructor
    · rintro (listed | ⟨-, member⟩)
      · cases listed
      · exact .inr member
    · rintro (held | member)
      · exact .inr ⟨resident (resent repeated held), resent repeated held⟩
      · exact .inr ⟨resident member, member⟩
  · rw [before]
    exact or_congr_right ⟨And.right, fun member => ⟨resident member, member⟩⟩

/-- With room for the rows, all of them are resident after an insertion. The drvs
that came again list what came with them, the others also what they listed. -/
theorem inserted {drvs : List (Drv DrvId)} {refs : List (DrvId × DrvId)}
    (fits : (service.db.insertDrvsAndReferences drvs refs).drvs.keys.length ≤ service.graph.nodes.cap) :
    (∀ drvId, drvId ∈ (service.graph.extend now drvs refs).nodes.keys ↔
      drvId ∈ service.db.drvs.keys ++ drvs.map (·.drvPath)) ∧
    ∀ referrer reference,
      (reference ∈ (service.graph.extend now drvs refs).getDependencies referrer ↔
        reference ∈ (if referrer ∈ drvs.map (·.drvPath) then [] else service.graph.getDependencies referrer) ∨
          (referrer ∈ service.db.drvs.keys ++ drvs.map (·.drvPath) ∧ (referrer, reference) ∈ refs)) ∧
      (referrer ∈ (service.graph.extend now drvs refs).getDependents reference ↔
        referrer ∈ (if reference ∈ drvs.map (·.drvPath) then [] else service.graph.getDependents reference) ∨
          (reference ∈ service.db.drvs.keys ++ drvs.map (·.drvPath) ∧ (referrer, reference) ∈ refs)) := by
  obtain ⟨rows, -, -⟩ := Database.insertDrvsAndReferences_frame service.db drvs refs
  have filled : service.graph.Filled service.graph.nodes.cap service.db.drvs.keys := ⟨rfl, complete.resident⟩
  have room : (service.db.drvs.keys ++ drvs.map (·.drvPath)).dedup.length ≤ service.graph.nodes.cap := by
    refine Nat.le_trans ((List.nodup_dedup _).subperm fun drvId member => ?_).length_le fits
    rw [List.mem_dedup, List.mem_append, ← rows] at member
    exact member
  have inserted := BuildGraph.foldl_insertNode_filled now drvs filled room
  have forgotten := BuildGraph.foldl_insertNode_edges now filled room
  refine ⟨(inserted.addEdges refs).keys, fun referrer reference => ?_⟩
  rw [BuildGraph.extend, BuildGraph.addEdges_getDependencies, BuildGraph.addEdges_getDependents,
    (forgotten referrer).1, (forgotten reference).2, inserted.keys, inserted.keys]
  exact ⟨Iff.rfl, Iff.rfl⟩

theorem insertDrvs {drvs : List (Drv DrvId)} {refs : List (DrvId × DrvId)}
    (keeps : service.KeepsComplete (.submit now drvs refs)) :
    ({ service with db := service.db.insertDrvsAndReferences drvs refs }.insertDrvs now drvs refs).Complete := by
  obtain ⟨fits, closed, resent⟩ := keeps
  obtain ⟨rows, -, edges⟩ := Database.insertDrvsAndReferences_frame service.db drvs refs
  obtain ⟨graph, db⟩ := insertDrvs_graph
    { service with db := service.db.insertDrvsAndReferences drvs refs } now drvs refs
  obtain ⟨resident, lists⟩ := complete.inserted now fits
  refine ⟨fun drvId => ?_, fun referrer reference => ?_, ?_⟩
  · rw [graph, db, rows, ← List.mem_append]
    exact resident drvId
  · have ends : (referrer, reference) ∈ service.db.refs ∨ (referrer, reference) ∈ refs →
        referrer ∈ service.db.drvs.keys ++ drvs.map (·.drvPath) ∧
          reference ∈ service.db.drvs.keys ++ drvs.map (·.drvPath) := by
      intro member
      rw [List.mem_append, List.mem_append, ← rows, ← rows]
      exact closed _ ((edges _).mpr member)
    rw [graph, db, edges, (lists referrer reference).1, (lists referrer reference).2]
    constructor
    · exact listed_iff (complete.links referrer reference).1 (fun new => (ends (.inr new)).1) fun again held =>
        (List.mem_map.mp again).elim fun drv member => resent drv member.1 _ held (.inl member.2.symm)
    · exact listed_iff (complete.links referrer reference).2 (fun new => (ends (.inr new)).2) fun again held =>
        (List.mem_map.mp again).elim fun drv member => resent drv member.1 _ held (.inr member.2.symm)
  · rw [db]
    exact closed

theorem serve {request : Request DrvId} (keeps : service.KeepsComplete request) :
    (service.serve request).Complete := by
  cases request with
  | submit now drvs refs => exact (complete.insertDrvs now keeps).maintain now
  | update now drvId newState => exact (complete.updateState now drvId newState).maintain now
  | ask now query asks =>
    rw [GraphService.serve, process, complete.handleQuery asks]
    exact complete.maintain now

end Complete

theorem load_links {db : Database DrvId} {capacity : Nat} (positive : 0 < capacity) (start : Instant)
    (fits : db.drvs.keys.length ≤ capacity) (closed : db.RefsClosed) :
    (BuildGraph.load capacity positive start (BuildGraph.normalDrvs db) db.refs).Filled capacity db.drvs.keys ∧
      (BuildGraph.load capacity positive start (BuildGraph.normalDrvs db) db.refs).Links db.refs := by
  have paths := @BuildGraph.normalDrvs_paths _ db
  have empty : (BuildGraph.new capacity positive : BuildGraph DrvId).Filled capacity [] := ⟨rfl, fun _ => Iff.rfl⟩
  have unlinked : (BuildGraph.new capacity positive : BuildGraph DrvId).Links [] := by
    exact fun _ _ => ⟨iff_of_false List.not_mem_nil List.not_mem_nil,
      iff_of_false List.not_mem_nil List.not_mem_nil⟩
  have room : (([] : List DrvId) ++ (BuildGraph.normalDrvs db).map (·.drvPath)).dedup.length ≤ capacity := by
    rw [List.nil_append, paths, (List.nodup_reverse.mpr db.drvs.nodup).dedup, List.length_reverse]
    exact fits
  have inserted := BuildGraph.foldl_insertNode_filled start (BuildGraph.normalDrvs db) empty room
  have untouched := BuildGraph.foldl_insertNode_links start empty room unlinked
    fun _ _ _ member => absurd member List.not_mem_nil
  rw [List.nil_append, paths] at inserted
  have inserted : BuildGraph.Filled _ capacity db.drvs.keys :=
    ⟨inserted.cap, fun drvId => (inserted.keys drvId).trans List.mem_reverse⟩
  refine ⟨inserted.addEdges db.refs, BuildGraph.foldl_addEdge_links untouched fun edge member => ?_⟩
  rw [inserted.keys, inserted.keys]
  exact closed edge member

theorem new_complete {db : Database DrvId} {capacity : Nat} (positive : 0 < capacity) (start : Instant)
    (fits : db.drvs.keys.length ≤ capacity) (closed : db.RefsClosed) :
    (new db capacity positive start).Complete := by
  let loaded := BuildGraph.load capacity positive start (BuildGraph.normalDrvs db) db.refs
  obtain ⟨filled, links⟩ := load_links positive start fits closed
  have topology : BuildGraph.SameTopology (BuildGraph.fromDatabase db capacity positive start) loaded :=
    BuildGraph.foldl_propagateFailure_topology loaded.failedDrvs.keys loaded
  have graph : (new db capacity positive start).graph = BuildGraph.fromDatabase db capacity positive start := rfl
  refine ⟨fun drvId => ?_, fun referrer reference => ?_, closed⟩
  · rw [graph, topology.keys]
    exact filled.keys drvId
  · rw [graph, BuildGraph.fromDatabase_getDependencies, topology.dependents]
    exact links referrer reference

theorem serveAll_complete {db : Database DrvId} {capacity : Nat} (positive : 0 < capacity) (start : Instant)
    (fits : db.drvs.keys.length ≤ capacity) (closed : db.RefsClosed) {requests : List (Request DrvId)}
    (keeps : ∀ before request after, requests = before ++ request :: after →
      ((new db capacity positive start).serveAll before).KeepsComplete request)
    (before after : List (Request DrvId)) (split : requests = before ++ after) :
    ((new db capacity positive start).serveAll before).Complete :=
  always_of (new_complete positive start fits closed) (fun _ _ complete keeps => Complete.serve complete keeps)
    keeps before after split

/-- While all rows fit in the cache and drvs that come again come with all their
edges, every answer is that of the graph in the database. -/
theorem serveAll_transparent (db : Database DrvId) (capacity : Nat) (positive : 0 < capacity) (start : Instant)
    (fits : db.drvs.keys.length ≤ capacity) (closed : db.RefsClosed) (requests : List (Request DrvId))
    (keeps : ∀ before request after, requests = before ++ request :: after →
      ((new db capacity positive start).serveAll before).KeepsComplete request)
    (before after : List (Request DrvId)) (split : requests = before ++ after) :
    ((new db capacity positive start).serveAll before).Transparent :=
  (serveAll_complete positive start fits closed keeps before after split).transparent

/-- A chain of three drvs, the middle one of which was stored first. -/
def chain : Database Nat :=
  Database.empty.insertDrvsAndReferences [.plain 1 .queued, .plain 2 .queued, .plain 0 .queued] [(1, 0), (2, 1)]

/-- The end of the chain comes again, with its edge, together with a new drv. -/
def growChain : Request Nat := .submit 1 [.plain 2 .queued, .plain 3 .queued] [(2, 1), (3, 2)]

theorem growChain_transparent : ((new chain 4 (by decide) 0).serveAll [growChain]).Transparent := by
  refine serveAll_transparent chain 4 (by decide) 0 (by decide) (by decide) [growChain] ?_ _ [] rfl
  intro before request after split
  simp only [List.cons_eq_append_iff, List.cons.injEq, List.nil_eq_append_iff, reduceCtorEq, and_false,
    exists_false, or_false] at split
  obtain ⟨rfl, rfl, -⟩ := split
  exact ⟨by decide, by decide, by decide⟩

/-- In a cache for two, the middle of the chain is gone after the start. -/
theorem chain_not_transparent : ¬ (new chain 2 (by decide) 0).Transparent := by
  intro transparent
  have first : chain.Dependent 0 1 := show (1, 0) ∈ chain.refs by decide
  have second : chain.Dependent 1 2 := show (2, 1) ∈ chain.refs by decide
  have found := (transparent.reachable 1 [0] 2).mpr
    ⟨0, by decide, by decide, .tail (.single first) second⟩
  exact absurd found (by decide)

end GraphService

end EkaCI
