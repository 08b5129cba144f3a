import EkaCI.Graph.Coherence
import EkaCI.Graph.Insertion

/-! Which node leaves a full cache. The set of pinned nodes is kept up by the
operations of the graph, but the cache that evicts knows recency only, and
nothing but an insertion renews a node. -/

namespace EkaCI

open Lib

variable {DrvId : Type}

/-- The operations that can change what the cache holds: those of the graph, and
the reload of a drv as a database has it at that time. -/
inductive CacheOperation (DrvId : Type) where
  | perform (operation : GraphOperation DrvId)
  | ensureLoaded (now : Instant) (db : Database DrvId) (drvId : DrvId)

namespace BuildGraph

variable [DecidableEq DrvId]

/-- Reload a drv that is not resident, with its edges. What its insertion
displaced is returned with the graph. -/
def ensureLoaded (graph : BuildGraph DrvId) (now : Instant) (db : Database DrvId) (drvId : DrvId) :
    Option (DrvId × GraphNode DrvId) × BuildGraph DrvId :=
  if graph.nodes.contains drvId then (none, graph)
  else match db.getDrv drvId with
    | none => (none, graph)
    | some drv =>
      let inserted := graph.insertNode now drv
      let withDeps := (db.getDrvRefs drvId).foldl (fun graph dependency =>
        graph.addEdge drvId dependency) inserted.2
      (inserted.1, (db.getDrvDependents drvId).foldl (fun graph dependent =>
        graph.addEdge dependent drvId) withDeps)

def operate (graph : BuildGraph DrvId) : CacheOperation DrvId → BuildGraph DrvId
  | .perform operation => graph.perform operation
  | .ensureLoaded now db drvId => (graph.ensureLoaded now db drvId).2

def operateAll (graph : BuildGraph DrvId) (operations : List (CacheOperation DrvId)) : BuildGraph DrvId :=
  operations.foldl operate graph

def insertedDrv (graph : BuildGraph DrvId) : CacheOperation DrvId → Option (Drv DrvId)
  | .perform (.insertNode _ drv) => some drv
  | .ensureLoaded _ db drvId => if graph.nodes.contains drvId then none else db.getDrv drvId
  | _ => none

/-- The entry that the insertion of an operation returns. -/
def evictedBy (graph : BuildGraph DrvId) : CacheOperation DrvId → Option (DrvId × GraphNode DrvId)
  | .perform (.insertNode now drv) => (graph.insertNode now drv).1
  | .ensureLoaded now db drvId => (graph.ensureLoaded now db drvId).1
  | _ => none

/-- No other drv is evicted while it is pinned or live. -/
def EvictsOnlyIdle (graph : BuildGraph DrvId) (operation : CacheOperation DrvId) : Prop :=
  ∀ drv evictedId node, graph.insertedDrv operation = some drv →
    graph.evictedBy operation = some (evictedId, node) → evictedId ≠ drv.drvPath →
      evictedId ∉ graph.pinned ∧ node.buildState.isLive = false

/-- When a new drv meets a full cache, the node that was inserted least recently
is neither pinned nor live. -/
def OldestIsIdle (graph : BuildGraph DrvId) (operation : CacheOperation DrvId) : Prop :=
  ∀ drv, graph.insertedDrv operation = some drv → graph.nodes.contains drv.drvPath = false →
    graph.nodes.keys.length = graph.nodes.cap → ∀ oldest node,
      graph.nodes.keys.getLast? = some oldest → graph.getNode oldest = some node →
        oldest ∉ graph.pinned ∧ node.buildState.isLive = false

theorem ensureLoaded_snd {graph : BuildGraph DrvId} {now : Instant} {db : Database DrvId} {drvId : DrvId}
    {drv : Drv DrvId} (evicted : graph.nodes.contains drvId = false) (stored : db.getDrv drvId = some drv) :
    (graph.ensureLoaded now db drvId).2 = (db.edgesOf drvId).foldl (fun graph edge =>
      graph.addEdge edge.1 edge.2) (graph.insertNode now drv).2 := by
  simp only [ensureLoaded, evicted, stored, Bool.false_eq_true, if_false, Database.edgesOf,
    List.foldl_append, List.foldl_map]

theorem ensureLoaded_graph (service : GraphService DrvId) (now : Instant) (drvId : DrvId) :
    (GraphService.ensureLoaded now service drvId).graph =
      (service.graph.ensureLoaded now service.db drvId).2 := by
  cases resident : service.graph.nodes.contains drvId with
  | true => rw [GraphService.ensureLoaded_of_resident now resident, ensureLoaded, if_pos resident]
  | false =>
    cases stored : service.db.getDrv drvId with
    | none =>
      rw [GraphService.ensureLoaded_of_unknown now stored, ensureLoaded, stored]
      split <;> rfl
    | some drv =>
      rw [GraphService.ensureLoaded_eq now resident stored, GraphService.cacheNode_graph,
        GraphService.foldl_insertRef_graph, GraphService.insertDrv_graph, ensureLoaded_snd resident stored]

section Step

variable {graph : BuildGraph DrvId}

theorem ensureLoaded_fst (now : Instant) (db : Database DrvId) (drvId : DrvId) :
    (graph.ensureLoaded now db drvId).1 = if graph.nodes.contains drvId then none
      else (db.getDrv drvId).bind fun drv => (graph.insertNode now drv).1 := by
  unfold ensureLoaded
  split
  · rfl
  · cases db.getDrv drvId <;> rfl

theorem evictedBy_of_insertedDrv {operation : CacheOperation DrvId} {drv : Drv DrvId}
    (inserted : graph.insertedDrv operation = some drv) :
    graph.evictedBy operation = (graph.nodes.push drv.drvPath (.fromDrv drv)).1 := by
  cases operation with
  | perform operation =>
    cases operation with
    | insertNode now other =>
      cases inserted
      rfl
    | addEdge | updateState | propagateFailure | clearFailure | evictStaleFailures => cases inserted
  | ensureLoaded now db drvId =>
    rw [insertedDrv] at inserted
    split at inserted
    · cases inserted
    · rename_i missing
      rw [evictedBy, ensureLoaded_fst, if_neg missing, inserted]
      rfl

theorem evicted_iff {drv : Drv DrvId} {evictedId : DrvId} {node : GraphNode DrvId}
    (different : evictedId ≠ drv.drvPath) :
    (graph.nodes.push drv.drvPath (.fromDrv drv)).1 = some (evictedId, node) ↔
      graph.nodes.contains drv.drvPath = false ∧ graph.nodes.keys.length = graph.nodes.cap ∧
        graph.nodes.keys.getLast? = some evictedId ∧ graph.getNode evictedId = some node := by
  rw [LruCache.push_fst, LruCache.victim, LruCache.contains, Table.contains, ← LruCache.peek]
  cases graph.nodes.peek drv.drvPath with
  | some old => simp [Ne.symm different]
  | none =>
    by_cases full : graph.nodes.keys.length = graph.nodes.cap
    · cases graph.nodes.keys.getLast? with
      | none => simp
      | some last =>
        by_cases same : last = evictedId
        · subst same
          simp [full, getNode]
        · simp [full, same]
    · simp [full]

theorem evictsOnlyIdle_step (graph : BuildGraph DrvId) (operation : CacheOperation DrvId) :
    graph.EvictsOnlyIdle operation ↔ graph.OldestIsIdle operation := by
  constructor
  · intro idle drv inserted absent full oldest node last found
    have different : oldest ≠ drv.drvPath := by
      rintro rfl
      rw [LruCache.contains_eq_false_iff, ← getNode, found] at absent
      cases absent
    have evicted := (evicted_iff different).mpr ⟨absent, full, last, found⟩
    rw [← evictedBy_of_insertedDrv inserted] at evicted
    exact idle drv oldest node inserted evicted different
  · intro idle drv evictedId node inserted evicted different
    rw [evictedBy_of_insertedDrv inserted, evicted_iff different] at evicted
    obtain ⟨absent, full, last, found⟩ := evicted
    exact idle drv inserted absent full evictedId node last found

end Step

/-- In a sequence of operations on an empty graph, no insertion evicts a pinned
or live drv exactly if every insertion into a full cache finds its oldest node
neither pinned nor live. -/
theorem operateAll_evictsOnlyIdle_iff (capacity : Nat) (positive : 0 < capacity)
    (operations : List (CacheOperation DrvId)) :
    (∀ before operation after, operations = before ++ operation :: after →
      ((new capacity positive).operateAll before).EvictsOnlyIdle operation) ↔
    (∀ before operation after, operations = before ++ operation :: after →
      ((new capacity positive).operateAll before).OldestIsIdle operation) := by
  simp only [evictsOnlyIdle_step]

/-- A finished drv makes room for another. -/
def replaceFinished : List (CacheOperation Nat) :=
  [.perform (.insertNode 0 (.plain 0 (.completed .success))), .perform (.insertNode 1 (.plain 1 .queued))]

theorem replaceFinished_evictsOnlyIdle :
    ((new 1 (by decide)).operateAll (replaceFinished.take 1)).EvictsOnlyIdle
      (.perform (.insertNode 1 (.plain 1 .queued))) := by
  refine (operateAll_evictsOnlyIdle_iff 1 (by decide) replaceFinished).mpr ?_ _ _ [] rfl
  intro before operation after split
  simp only [replaceFinished, List.cons_eq_append_iff, List.cons.injEq, List.nil_eq_append_iff,
    reduceCtorEq, and_false, exists_false, or_false] at split
  rcases split with ⟨rfl, rfl, -⟩ | ⟨_, rfl, rfl, rfl, -⟩
  · intro drv inserted absent full
    cases full
  · intro drv inserted absent full oldest node last found
    cases last
    cases found
    decide

/-- A queued drv, pinned since its insertion, is evicted by the next one. -/
theorem queued_evicted :
    ¬ ((new 1 (by decide)).operateAll [.perform (.insertNode 0 (.plain 0 .queued))]).EvictsOnlyIdle
      (.perform (.insertNode 1 (.plain 1 .queued))) := by
  intro idle
  have unpinned := (idle (.plain 1 .queued) 0 _ rfl rfl (by decide)).1
  exact absurd unpinned (by decide)

end BuildGraph

end EkaCI
