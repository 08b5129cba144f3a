import EkaCI.Graph.BuildGraph
import EkaCI.Graph.Database

/-! The graph service: the owner of the graph, with a read view that the other
services share, and the commands it handles one at a time. -/

namespace EkaCI

open Lib

variable {DrvId : Type}

/-- The read-only data of a node that other services see, stored under its id. -/
structure CachedNode (DrvId : Type) where
  system : String
  requiredSystemFeatures : Option String
  isFod : Bool
  buildState : DrvBuildState
  dependencies : List DrvId
  deriving DecidableEq

namespace CachedNode

def fromGraphNode (node : GraphNode DrvId) : CachedNode DrvId where
  system := node.system
  requiredSystemFeatures := node.requiredSystemFeatures
  isFod := node.isFod
  buildState := node.buildState
  dependencies := node.dependencies

/-- `preferLocalBuild` is not persisted and always false. -/
def toDrv (drvId : DrvId) (node : CachedNode DrvId) : Drv DrvId where
  drvPath := drvId
  system := node.system
  preferLocalBuild := false
  requiredSystemFeatures := node.requiredSystemFeatures
  isFod := node.isFod
  buildState := node.buildState

end CachedNode

/-- The concurrent map from drvs to cached nodes. -/
abbrev SharedView (DrvId : Type) := Table DrvId (CachedNode DrvId)

namespace SharedView

def getBuildState (view : SharedView DrvId) (drvId : DrvId) : Option DrvBuildState :=
  (view.get drvId).map (·.buildState)

/-- All dependencies are present and completed successfully. -/
def isBuildable (view : SharedView DrvId) (drvId : DrvId) : Bool :=
  match view.get drvId with
  | none => false
  | some node => node.dependencies.all fun dependency =>
      view.getBuildState dependency = some (.completed .success)

variable [DecidableEq DrvId]

def setState (view : SharedView DrvId) (drvId : DrvId) (state : DrvBuildState) : SharedView DrvId :=
  view.modify drvId fun node => { node with buildState := state }

def getDependentsFromView (view : SharedView DrvId) (drvId : DrvId) : List DrvId :=
  view.keys.filter fun other => match view.get other with
    | some node => drvId ∈ node.dependencies
    | none => false

end SharedView

inductive GraphCommand (DrvId : Type) where
  | updateState (drvId : DrvId) (newState : DrvBuildState)
  | insertDrvs (drvs : List (Drv DrvId)) (refs : List (DrvId × DrvId))
  | propagateFailure (failedDrv : DrvId)
  | clearFailure (formerlyFailed : DrvId)
  | getBuildableDrvs
  | getDependents (drvId : DrvId)
  | getDependencies (drvId : DrvId)
  | getFailedDependencies (drvId : DrvId)
  | getAllFailedDrvs
  | reverseReachableFromSet (seeds : List DrvId)
  | blastRadiusPerSeed (seeds : List DrvId)
  deriving DecidableEq

def GraphCommand.isQuery : GraphCommand DrvId → Bool
  | .updateState .. | .insertDrvs .. | .propagateFailure _ | .clearFailure _ => false
  | _ => true

/-- The drvs a query makes sure to have loaded before it answers. -/
def GraphCommand.seeds : GraphCommand DrvId → List DrvId
  | .getDependents drvId | .getDependencies drvId | .getFailedDependencies drvId => [drvId]
  | .reverseReachableFromSet seeds | .blastRadiusPerSeed seeds => seeds
  | _ => []

structure GraphService (DrvId : Type) where
  graph : BuildGraph DrvId
  sharedView : SharedView DrvId
  db : Database DrvId
  lastAccessed : Table DrvId Instant
  /-- How many in-cache nodes depend on a drv. -/
  refCounts : Table DrvId Nat
  commandCount : Nat

/-- Crash recovery forgets what was running or about to run, but not a spent attempt. -/
def DrvBuildState.normalize : DrvBuildState → DrvBuildState
  | .building | .buildable | .queued => .queued
  | state => state

/-- Rebuild the graph at start-up and propagate the permanent failures. -/
def BuildGraph.fromDatabase [DecidableEq DrvId] (db : Database DrvId) (capacity : Nat)
    (positive : 0 < capacity) (now : Instant) : BuildGraph DrvId :=
  let drvs := db.getAllDrvs.map fun drv =>
    { drv with buildState := drv.buildState.normalize, preferLocalBuild := false }
  let graph := load capacity positive now drvs db.getAllRefs
  graph.failedDrvs.keys.foldl (fun graph failedDrv => (graph.propagateFailure failedDrv).2) graph

namespace GraphService

variable [DecidableEq DrvId]

/-- Count one more node that depends on a drv. -/
def addReference (refCounts : Table DrvId Nat) (drvId : DrvId) : Table DrvId Nat :=
  refCounts.push drvId ((refCounts.get drvId).getD 0 + 1)

/-- A service as it starts on a database. -/
def new (db : Database DrvId) (capacity : Nat) (positive : 0 < capacity) (now : Instant) :
    GraphService DrvId :=
  let graph := BuildGraph.fromDatabase db capacity positive now
  let nodes := graph.nodes.keys.filterMap fun drvId => (graph.getNode drvId).map (drvId, ·)
  { graph := graph
    sharedView := nodes.foldl (fun view entry =>
      view.push entry.1 (.fromGraphNode entry.2)) .empty
    db := db
    lastAccessed := nodes.foldl (fun table entry => table.push entry.1 now) .empty
    refCounts := nodes.foldl (fun counts entry => entry.2.dependencies.foldl addReference counts) .empty
    commandCount := 0 }

/-- One dependency of an evicted node has a dependent less. -/
def dropReference (graph : BuildGraph DrvId) (refCounts : Table DrvId Nat) (drvId : DrvId) :
    Table DrvId Nat :=
  match refCounts.get drvId with
  | none => refCounts
  | some count =>
    let counts := refCounts.push drvId (count - 1)
    if count - 1 = 0 ∧ graph.nodes.contains drvId = false then counts.erase drvId else counts

/-- Clean up after the entry that an insertion replaced or evicted. -/
def forgetEvicted (service : GraphService DrvId) : Option (DrvId × GraphNode DrvId) → GraphService DrvId
  | none => service
  | some (evictedId, evictedNode) =>
    let counts := evictedNode.dependencies.foldl (dropReference service.graph) service.refCounts
    { service with
      lastAccessed := service.lastAccessed.erase evictedId
      refCounts := counts.erase evictedId
      sharedView := service.sharedView.erase evictedId }

/-- Copy a resident node into the shared view. -/
def cacheNode (service : GraphService DrvId) (drvId : DrvId) : GraphService DrvId :=
  match service.graph.getNode drvId with
  | none => service
  | some node =>
    { service with sharedView := service.sharedView.push drvId (.fromGraphNode node) }

/-- Insert one drv into the graph and note the access. -/
def insertDrv (service : GraphService DrvId) (now : Instant) (drv : Drv DrvId) : GraphService DrvId :=
  let inserted := service.graph.insertNode now drv
  let cleaned := { service with graph := inserted.2 }.forgetEvicted inserted.1
  { cleaned with lastAccessed := cleaned.lastAccessed.push drv.drvPath now }

/-- Add an edge and count it. -/
def insertRef (service : GraphService DrvId) (referrer reference : DrvId) : GraphService DrvId :=
  { service with
    graph := service.graph.addEdge referrer reference
    refCounts := addReference service.refCounts reference }

/-- Copy the dependencies of a drv into its cached node. -/
def cacheDependencies (service : GraphService DrvId) (referrer : DrvId) : GraphService DrvId :=
  match service.graph.getNode referrer with
  | none => service
  | some node =>
    { service with
      sharedView := service.sharedView.modify referrer fun cached =>
        { cached with dependencies := node.dependencies } }

def insertDrvs (service : GraphService DrvId) (now : Instant) (drvs : List (Drv DrvId))
    (refs : List (DrvId × DrvId)) : GraphService DrvId :=
  let inserted := drvs.foldl (fun service drv =>
    (service.insertDrv now drv).cacheNode drv.drvPath) service
  refs.foldl (fun service edge =>
    (service.insertRef edge.1 edge.2).cacheDependencies edge.1) inserted

/-- Reload an evicted drv from the database. An unknown drv is reported and skipped. -/
def ensureLoaded (now : Instant) (service : GraphService DrvId) (drvId : DrvId) : GraphService DrvId :=
  if service.graph.nodes.contains drvId then service
  else match service.db.getDrv drvId with
    | none => service
    | some drv =>
      let inserted := service.insertDrv now drv
      let withDeps := (service.db.getDrvRefs drvId).foldl (fun service dependency =>
        service.insertRef drvId dependency) inserted
      let withDependents := (service.db.getDrvDependents drvId).foldl (fun service dependent =>
        service.insertRef dependent drvId) withDeps
      withDependents.cacheNode drvId

def updateState (service : GraphService DrvId) (now : Instant) (drvId : DrvId) (newState : DrvBuildState) :
    GraphService DrvId :=
  { service with
    graph := service.graph.updateState now drvId newState
    sharedView := service.sharedView.setState drvId newState
    db := service.db.updateDrvStatus drvId newState }

def propagateFailure (service : GraphService DrvId) (failedDrv : DrvId) :
    List DrvId × GraphService DrvId :=
  let propagated := service.graph.propagateFailure failedDrv
  let blocked := propagated.1
  (blocked,
    { service with
      graph := propagated.2
      sharedView := blocked.foldl (fun view drvId => view.setState drvId .transitiveFailure)
        service.sharedView
      db := if blocked = [] then service.db else service.db.insertTransitiveFailures failedDrv blocked })

def clearFailure (service : GraphService DrvId) (formerlyFailed : DrvId) :
    List DrvId × GraphService DrvId :=
  let cleared := service.graph.clearFailure formerlyFailed
  let unblocked := cleared.1
  (unblocked,
    { service with
      graph := cleared.2
      sharedView := unblocked.foldl (fun view drvId => view.setState drvId .queued) service.sharedView
      db := service.db.clearTransitiveFailures formerlyFailed })

/-! Queries answer from the graph after their reloads. A drv that neither the
graph nor the database knows has no neighbours. -/

def answerDependents (service : GraphService DrvId) (now : Instant) (drvId : DrvId) : List DrvId :=
  let loaded := ensureLoaded now service drvId
  if loaded.graph.nodes.contains drvId then loaded.graph.getDependents drvId else []

def answerDependencies (service : GraphService DrvId) (now : Instant) (drvId : DrvId) : List DrvId :=
  let loaded := ensureLoaded now service drvId
  if loaded.graph.nodes.contains drvId then loaded.graph.getDependencies drvId else []

def answerReverseReachable (service : GraphService DrvId) (now : Instant) (seeds : List DrvId) : List DrvId :=
  (seeds.foldl (ensureLoaded now) service).graph.reverseReachableFromSet seeds

def answerBlastRadius (service : GraphService DrvId) (now : Instant) (seeds : List DrvId) : Table DrvId Nat :=
  (seeds.foldl (ensureLoaded now) service).graph.blastRadiusPerSeed seeds

/-- Handle one command. The answer is the drvs blocked or unblocked; queries
answer as above, and change the service by the reloads they cause. -/
def handleCommand (service : GraphService DrvId) (now : Instant) :
    GraphCommand DrvId → List DrvId × GraphService DrvId
  | .updateState drvId newState => ([], service.updateState now drvId newState)
  | .insertDrvs drvs refs => ([], service.insertDrvs now drvs refs)
  | .propagateFailure failedDrv => service.propagateFailure failedDrv
  | .clearFailure formerlyFailed => service.clearFailure formerlyFailed
  | command => ([], command.seeds.foldl (ensureLoaded now) service)

/-- Remove tracking entries of drvs that are no longer resident. -/
def pruneStaleTrackingEntries (service : GraphService DrvId) : GraphService DrvId :=
  let absent table := List.filter (fun drvId => !service.graph.nodes.contains drvId) table
  { service with
    lastAccessed := (absent service.lastAccessed.keys).foldl Table.erase service.lastAccessed
    refCounts := (absent service.refCounts.keys).foldl Table.erase service.refCounts }

/-- Every 5000 commands stale tracking is dropped. -/
def maintain (service : GraphService DrvId) (now : Instant) : GraphService DrvId :=
  let counted := { service with commandCount := service.commandCount + 1 }
  if counted.commandCount % 5000 = 0 then
    let pruned := counted.pruneStaleTrackingEntries
    { pruned with graph := (pruned.graph.evictStaleFailures now).2 }
  else counted

/-- One round of the service loop. -/
def process (service : GraphService DrvId) (now : Instant) (command : GraphCommand DrvId) :
    List DrvId × GraphService DrvId :=
  let handled := service.handleCommand now command
  (handled.1, handled.2.maintain now)

end GraphService

end EkaCI
