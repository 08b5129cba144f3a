import EkaCI.Build.State
import EkaCI.Lib.Lru
import EkaCI.Lib.Search

/-! The in-memory dependency graph: nodes in a bounded cache, an index of drvs
by state, and the bookkeeping of failures. Hash sets that are only queried are
finite sets, and a hash set that is iterated is the list of one iteration. -/

namespace EkaCI

open Lib

variable {DrvId : Type}

/-- One derivation in the graph. Its id is the key it is stored under. -/
structure GraphNode (DrvId : Type) where
  system : String
  requiredSystemFeatures : Option String
  isFod : Bool
  buildState : DrvBuildState
  /-- Drvs this drv depends on. -/
  dependencies : List DrvId
  /-- Drvs that depend on this drv. -/
  dependents : List DrvId
  /-- Failed drvs that block this drv. -/
  blockingFailures : Finset DrvId

def GraphNode.fromDrv (drv : Drv DrvId) : GraphNode DrvId where
  system := drv.system
  requiredSystemFeatures := drv.requiredSystemFeatures
  isFod := drv.isFod
  buildState := drv.buildState
  dependencies := []
  dependents := []
  blockingFailures := ∅

def GraphNode.addDependency [DecidableEq DrvId] (reference : DrvId) (node : GraphNode DrvId) :
    GraphNode DrvId :=
  if reference ∈ node.dependencies then node
  else { node with dependencies := node.dependencies ++ [reference] }

def GraphNode.addDependent [DecidableEq DrvId] (referrer : DrvId) (node : GraphNode DrvId) :
    GraphNode DrvId :=
  if referrer ∈ node.dependents then node
  else { node with dependents := node.dependents ++ [referrer] }

/-- A node that a failed drv now blocks. -/
def GraphNode.block [DecidableEq DrvId] (failedDrv : DrvId) (node : GraphNode DrvId) : GraphNode DrvId :=
  { node with
    buildState := .transitiveFailure
    blockingFailures := insert failedDrv node.blockingFailures }

/-- A node with one blocker less. Without any blocker left it is queued again,
whatever state it was in. -/
def GraphNode.unblock [DecidableEq DrvId] (formerlyFailed : DrvId) (node : GraphNode DrvId) :
    GraphNode DrvId :=
  let remaining := node.blockingFailures.erase formerlyFailed
  if remaining = ∅ then { node with buildState := .queued, blockingFailures := remaining }
  else { node with blockingFailures := remaining }

@[ext] structure BuildGraph (DrvId : Type) where
  nodes : LruCache DrvId (GraphNode DrvId)
  /-- Index of drvs by build state. -/
  byState : DrvBuildState → Finset DrvId
  /-- Permanently failed drvs with the time they were recorded. -/
  failedDrvs : Table DrvId Instant
  /-- From a failed drv to the drvs it transitively blocks. -/
  transitiveFailureMap : DrvId → Option (List DrvId)
  failureTtl : Int
  /-- Nodes in states that are not to be evicted. -/
  pinned : Finset DrvId

namespace BuildGraph

/-- 24 hours, in seconds. -/
def defaultFailureTtl : Int := 24 * 60 * 60

def new (capacity : Nat) (positive : 0 < capacity) : BuildGraph DrvId where
  nodes := .new capacity positive
  byState := fun _ => ∅
  failedDrvs := .empty
  transitiveFailureMap := fun _ => none
  failureTtl := defaultFailureTtl
  pinned := ∅

/-- The cache's notion of terminal, which is what may be evicted. -/
def isTerminalState : DrvBuildState → Bool
  | .completed _ | .transitiveFailure => true
  | _ => false

def getNode (graph : BuildGraph DrvId) (drvId : DrvId) : Option (GraphNode DrvId) :=
  graph.nodes.peek drvId

/-- The state of a resident drv. -/
def stateOf (graph : BuildGraph DrvId) (drvId : DrvId) : Option DrvBuildState :=
  (graph.getNode drvId).map (·.buildState)

def getDrvsByState (graph : BuildGraph DrvId) (state : DrvBuildState) : Finset DrvId :=
  graph.byState state

def getDependencies (graph : BuildGraph DrvId) (drvId : DrvId) : List DrvId :=
  ((graph.getNode drvId).map (·.dependencies)).getD []

def getDependents (graph : BuildGraph DrvId) (drvId : DrvId) : List DrvId :=
  ((graph.getNode drvId).map (·.dependents)).getD []

/-- All dependencies are resident and completed successfully. -/
def isBuildable (graph : BuildGraph DrvId) (drvId : DrvId) : Bool :=
  match graph.getNode drvId with
  | none => false
  | some node => node.dependencies.all fun dependency =>
      graph.stateOf dependency = some (.completed .success)

def getFailedDependencies (graph : BuildGraph DrvId) (drvId : DrvId) : Finset DrvId :=
  ((graph.getNode drvId).map (·.blockingFailures)).getD ∅

variable [DecidableEq DrvId]

/-- Insert a node; the replaced or evicted entry is returned. -/
def insertNode (graph : BuildGraph DrvId) (now : Instant) (drv : Drv DrvId) :
    Option (DrvId × GraphNode DrvId) × BuildGraph DrvId :=
  let state := drv.buildState
  let pushed := graph.nodes.push drv.drvPath (.fromDrv drv)
  (pushed.1,
    { graph with
      nodes := pushed.2
      byState := Function.update graph.byState state (insert drv.drvPath (graph.byState state))
      failedDrvs :=
        if state = .completed .failure then graph.failedDrvs.push drv.drvPath now
        else graph.failedDrvs
      pinned := if isTerminalState state then graph.pinned else insert drv.drvPath graph.pinned })

/-- `referrer` depends on `reference`. Each side is recorded where it is resident. -/
def addEdge (graph : BuildGraph DrvId) (referrer reference : DrvId) : BuildGraph DrvId :=
  let forward := graph.nodes.modify referrer (GraphNode.addDependency reference)
  { graph with nodes := forward.modify reference (GraphNode.addDependent referrer) }

/-- A graph of the given drvs and edges, without any failure propagated. -/
def load (capacity : Nat) (positive : 0 < capacity) (now : Instant) (drvs : List (Drv DrvId))
    (refs : List (DrvId × DrvId)) : BuildGraph DrvId :=
  let inserted := drvs.foldl (fun graph drv => (graph.insertNode now drv).2) (new capacity positive)
  refs.foldl (fun graph edge => graph.addEdge edge.1 edge.2) inserted

/-- Move an id from one set of the state index to another. -/
def reindex (byState : DrvBuildState → Finset DrvId) (drvId : DrvId) (oldState newState : DrvBuildState) :
    DrvBuildState → Finset DrvId :=
  let removed := Function.update byState oldState ((byState oldState).erase drvId)
  Function.update removed newState (insert drvId (removed newState))

def updateState (graph : BuildGraph DrvId) (now : Instant) (drvId : DrvId) (newState : DrvBuildState) :
    BuildGraph DrvId :=
  match graph.getNode drvId with
  | none => graph
  | some node =>
    { graph with
      nodes := graph.nodes.modify drvId fun node => { node with buildState := newState }
      byState := reindex graph.byState drvId node.buildState newState
      failedDrvs := match newState with
        | .completed .failure => graph.failedDrvs.push drvId now
        | .completed .success => graph.failedDrvs.erase drvId
        | _ => graph.failedDrvs
      pinned := if isTerminalState newState then graph.pinned.erase drvId else insert drvId graph.pinned }

/-- Every id a traversal along `dependents` can meet, with repetitions. -/
def traversable (graph : BuildGraph DrvId) : List DrvId :=
  graph.nodes.keys.flatMap graph.getDependents

/-- All transitive dependents of a drv, breadth first, without the drv itself. -/
def getAllTransitiveDependents (graph : BuildGraph DrvId) (drvId : DrvId) : List DrvId :=
  (search graph.getDependents (drvId :: graph.traversable).length [drvId] [drvId]).filter (· ≠ drvId)

/-- What the resident seeds reach along `dependents`, themselves included. -/
def reverseReachableFromSet (graph : BuildGraph DrvId) (seeds : List DrvId) : List DrvId :=
  let start := fresh [] (seeds.filter (graph.nodes.contains ·))
  search graph.getDependents (start ++ graph.traversable).length start start

/-- The number of strict transitive dependents of each seed, 0 for a seed that
is not resident. -/
def blastRadiusPerSeed (graph : BuildGraph DrvId) (seeds : List DrvId) : Table DrvId Nat :=
  seeds.foldl (fun out seed => out.push seed
    (if graph.nodes.contains seed then (graph.getAllTransitiveDependents seed).length else 0)) .empty

/-- One round of the propagation loop: block a resident drv, and index the id
as transitively failed whether it is resident or not. -/
def markBlocked (failedDrv : DrvId) (graph : BuildGraph DrvId) (blockedId : DrvId) : BuildGraph DrvId :=
  match graph.getNode blockedId with
  | none =>
    { graph with
      byState := Function.update graph.byState .transitiveFailure
        (insert blockedId (graph.byState .transitiveFailure)) }
  | some node =>
    { graph with
      nodes := graph.nodes.modify blockedId (GraphNode.block failedDrv)
      byState := reindex graph.byState blockedId node.buildState .transitiveFailure }

/-- Mark all transitive dependents of a failed drv; they are returned. -/
def propagateFailure (graph : BuildGraph DrvId) (failedDrv : DrvId) : List DrvId × BuildGraph DrvId :=
  let blocked := graph.getAllTransitiveDependents failedDrv
  let marked := blocked.foldl (markBlocked failedDrv) graph
  (blocked,
    { marked with
      transitiveFailureMap := Function.update marked.transitiveFailureMap failedDrv (some blocked) })

/-- One round of the clearing loop over the drvs found unblocked so far. -/
def unblock (formerlyFailed : DrvId) (cleared : List DrvId × BuildGraph DrvId) (blockedId : DrvId) :
    List DrvId × BuildGraph DrvId :=
  let graph := cleared.2
  match graph.getNode blockedId with
  | none => cleared
  | some node =>
    let nodes := graph.nodes.modify blockedId (GraphNode.unblock formerlyFailed)
    if node.blockingFailures.erase formerlyFailed = ∅ then
      (cleared.1 ++ [blockedId],
        { graph with
          nodes := nodes
          byState := reindex graph.byState blockedId node.buildState .queued })
    else (cleared.1, { graph with nodes := nodes })

/-- Clear a failure; the drvs that nothing blocks any more are returned. -/
def clearFailure (graph : BuildGraph DrvId) (formerlyFailed : DrvId) : List DrvId × BuildGraph DrvId :=
  match graph.transitiveFailureMap formerlyFailed with
  | none => ([], graph)
  | some blockedSet =>
    blockedSet.foldl (unblock formerlyFailed)
      ([], { graph with
        transitiveFailureMap := Function.update graph.transitiveFailureMap formerlyFailed none })

/-- Failed drvs whose entry is older than the TTL. -/
def staleFailures (graph : BuildGraph DrvId) (now : Instant) : List DrvId :=
  graph.failedDrvs.keys.filter fun drvId =>
    match graph.failedDrvs.get drvId with
    | some recorded => recorded < now - graph.failureTtl
    | none => false

/-- Drop failure tracking entries older than the TTL; their number is returned. -/
def evictStaleFailures (graph : BuildGraph DrvId) (now : Instant) : Nat × BuildGraph DrvId :=
  let stale := graph.staleFailures now
  (stale.length,
    stale.foldl (fun graph drvId =>
      { graph with
        failedDrvs := graph.failedDrvs.erase drvId
        transitiveFailureMap := Function.update graph.transitiveFailureMap drvId none }) graph)

section Access

variable {graph : BuildGraph DrvId} {now : Instant} {drvId : DrvId} {node : GraphNode DrvId}

theorem insertNode_getNode_self {drv : Drv DrvId} :
    (graph.insertNode now drv).2.getNode drv.drvPath = some (.fromDrv drv) :=
  LruCache.push_peek_self ..

theorem insertNode_getNode {drv : Drv DrvId} : (graph.insertNode now drv).2.getNode drvId =
    if drvId = drv.drvPath then some (.fromDrv drv)
    else if graph.nodes.victim drv.drvPath = some drvId then none else graph.getNode drvId :=
  LruCache.push_peek ..

theorem getNode_of_insertNode {drv : Drv DrvId} (different : drvId ≠ drv.drvPath)
    (found : (graph.insertNode now drv).2.getNode drvId = some node) :
    graph.getNode drvId = some node := by
  have kept := graph.nodes.push_peek_of_ne (.fromDrv drv) different
  simp only [getNode, insertNode] at found ⊢
  rcases kept with kept | gone
  · exact kept ▸ found
  · rw [gone] at found
    cases found

theorem insertNode_getNode_of_room {drv : Drv DrvId} (room : graph.nodes.keys.length < graph.nodes.cap) :
    (graph.insertNode now drv).2.getNode drvId =
      if drvId = drv.drvPath then some (.fromDrv drv) else graph.getNode drvId :=
  graph.nodes.push_peek_of_room drv.drvPath drvId (.fromDrv drv) room

theorem insertNode_length (now : Instant) (drv : Drv DrvId) (graph : BuildGraph DrvId) :
    (graph.insertNode now drv).2.nodes.keys.length ≤ graph.nodes.keys.length + 1 ∧
      (graph.insertNode now drv).2.nodes.cap = graph.nodes.cap :=
  ⟨graph.nodes.push_length .., graph.nodes.push_cap ..⟩

theorem addEdge_getNode (referrer reference other : DrvId) :
    (graph.addEdge referrer reference).getNode other = (graph.getNode other).map fun node =>
      let forward := if other = referrer then node.addDependency reference else node
      if other = reference then forward.addDependent referrer else forward := by
  simp only [getNode, addEdge, LruCache.modify_peek]
  cases graph.nodes.peek other <;> by_cases isReferrer : other = referrer <;>
    by_cases isReference : other = reference <;> simp_all

theorem getNode_of_addEdge {referrer reference : DrvId}
    (found : (graph.addEdge referrer reference).getNode drvId = some node) :
    ∃ original, graph.getNode drvId = some original ∧
      node = { original with dependencies := node.dependencies, dependents := node.dependents } := by
  rw [addEdge_getNode, Option.map_eq_some_iff] at found
  obtain ⟨original, found, same⟩ := found
  refine ⟨original, found, ?_⟩
  subst same
  simp only [GraphNode.addDependent, GraphNode.addDependency]
  repeat' split
  all_goals rfl

theorem addEdge_stateOf (referrer reference : DrvId) :
    (graph.addEdge referrer reference).stateOf drvId = graph.stateOf drvId := by
  rw [stateOf, addEdge_getNode, Option.map_map, stateOf]
  congr 1
  funext node
  simp only [Function.comp_apply, GraphNode.addDependent, GraphNode.addDependency]
  repeat' split
  all_goals rfl

theorem updateState_getNode {newState : DrvBuildState} (other : DrvId) :
    (graph.updateState now drvId newState).getNode other =
      if other = drvId then (graph.getNode other).map fun node => { node with buildState := newState }
      else graph.getNode other := by
  unfold updateState
  split
  · rename_i absent
    by_cases same : other = drvId
    · subst other
      simp [absent]
    · simp [same]
  · exact LruCache.modify_peek ..

theorem updateState_stateOf {newState : DrvBuildState} (other : DrvId) :
    (graph.updateState now drvId newState).stateOf other =
      if other = drvId then (graph.stateOf other).map fun _ => newState else graph.stateOf other := by
  rw [stateOf, updateState_getNode, stateOf]
  split <;> simp [Function.comp_def]

end Access

end BuildGraph

end EkaCI
