import EkaCI.Graph.Tracking

/-! Drvs and their references arrive in batches, as traversals find them, and
traversals that overlap send drvs again. Here is when the edges of the graph are
the edges that were sent, however they were grouped. -/

namespace EkaCI

open Lib

variable {DrvId : Type}

/-- One `InsertDrvs` command, with the time it is handled at. -/
structure Batch (DrvId : Type) where
  now : Instant
  drvs : List (Drv DrvId)
  refs : List (DrvId × DrvId)

namespace Batch

def carried (batches : List (Batch DrvId)) : List DrvId :=
  batches.flatMap fun batch => batch.drvs.map (·.drvPath)

def sent (batches : List (Batch DrvId)) : List (DrvId × DrvId) := batches.flatMap (·.refs)

/-- Every edge comes with, or after, the drvs at both its ends. -/
def EndsCarried (batches : List (Batch DrvId)) : Prop :=
  ∀ before batch after, batches = before ++ batch :: after → ∀ edge ∈ batch.refs,
    edge.1 ∈ carried (before ++ [batch]) ∧ edge.2 ∈ carried (before ++ [batch])

/-- No drv comes again after an edge that touches it. -/
def NeverAfterEdge (batches : List (Batch DrvId)) : Prop :=
  ∀ before batch after, batches = before ++ batch :: after → ∀ drv ∈ batch.drvs, ∀ edge ∈ sent before,
    edge.1 ≠ drv.drvPath ∧ edge.2 ≠ drv.drvPath

theorem endsCarried_nil : EndsCarried ([] : List (Batch DrvId)) := fun before batch after split => by
  simp at split

theorem neverAfterEdge_nil : NeverAfterEdge ([] : List (Batch DrvId)) := fun before batch after split => by
  simp at split

variable {batches : List (Batch DrvId)} {batch : Batch DrvId}

theorem carried_snoc : carried (batches ++ [batch]) = carried batches ++ batch.drvs.map (·.drvPath) := by
  simp [carried]

theorem sent_snoc : sent (batches ++ [batch]) = sent batches ++ batch.refs := by
  simp [sent]

theorem endsCarried_snoc : EndsCarried (batches ++ [batch]) ↔ EndsCarried batches ∧
    ∀ edge ∈ batch.refs, edge.1 ∈ carried (batches ++ [batch]) ∧ edge.2 ∈ carried (batches ++ [batch]) :=
  each_snoc

theorem neverAfterEdge_snoc : NeverAfterEdge (batches ++ [batch]) ↔ NeverAfterEdge batches ∧
    ∀ drv ∈ batch.drvs, ∀ edge ∈ sent batches, edge.1 ≠ drv.drvPath ∧ edge.2 ≠ drv.drvPath :=
  each_snoc

theorem EndsCarried.sent (ends : EndsCarried batches) {edge : DrvId × DrvId} (member : edge ∈ sent batches) :
    edge.1 ∈ carried batches ∧ edge.2 ∈ carried batches := by
  induction batches using List.reverseRecOn with
  | nil => cases member
  | append_singleton batches batch ih =>
    obtain ⟨earlier, last⟩ := endsCarried_snoc.mp ends
    rw [sent_snoc, List.mem_append] at member
    rcases member with member | member
    · obtain ⟨first, second⟩ := ih earlier member
      rw [carried_snoc]
      exact ⟨List.mem_append_left _ first, List.mem_append_left _ second⟩
    · exact last edge member

end Batch

namespace BuildGraph

/-- The resident drvs are joined by exactly these edges, seen from either end. -/
def Exact (graph : BuildGraph DrvId) (sent : List (DrvId × DrvId)) : Prop :=
  ∀ referrer ∈ graph.nodes.keys, ∀ reference ∈ graph.nodes.keys,
    (reference ∈ graph.getDependencies referrer ↔ (referrer, reference) ∈ sent) ∧
      (referrer ∈ graph.getDependents reference ↔ (referrer, reference) ∈ sent)

/-- Two graphs list the same edges at every node. -/
def SameEdges (first second : BuildGraph DrvId) : Prop :=
  ∀ drvId, first.getDependencies drvId = second.getDependencies drvId ∧
    first.getDependents drvId = second.getDependents drvId

/-- Every node lists exactly these edges. -/
def Links (graph : BuildGraph DrvId) (sent : List (DrvId × DrvId)) : Prop :=
  ∀ referrer reference, (reference ∈ graph.getDependencies referrer ↔ (referrer, reference) ∈ sent) ∧
    (referrer ∈ graph.getDependents reference ↔ (referrer, reference) ∈ sent)

/-- The cache holds exactly these drvs. -/
structure Filled (graph : BuildGraph DrvId) (capacity : Nat) (carried : List DrvId) : Prop where
  cap : graph.nodes.cap = capacity
  keys : ∀ drvId, drvId ∈ graph.nodes.keys ↔ drvId ∈ carried

variable [DecidableEq DrvId] {graph : BuildGraph DrvId}

theorem distinct_mono {fewer more : List DrvId} (within : fewer ⊆ more) :
    fewer.dedup.length ≤ more.dedup.length := by
  refine ((List.nodup_dedup fewer).subperm fun drvId member => ?_).length_le
  rw [List.mem_dedup] at member ⊢
  exact within member

variable {capacity : Nat} {carried : List DrvId} {drv : Drv DrvId} {drvs : List (Drv DrvId)}
  {sent : List (DrvId × DrvId)}

theorem Filled.stays (filled : graph.Filled capacity carried) {drvId : DrvId}
    (room : (carried ++ [drvId]).dedup.length ≤ capacity) : graph.nodes.victim drvId = none := by
  cases present : graph.nodes.contains drvId with
  | true => exact LruCache.victim_of_contains present
  | false =>
    have absent : drvId ∉ graph.nodes.keys := by
      intro member
      rw [LruCache.contains_iff.mpr member] at present
      cases present
    have distinct : (drvId :: graph.nodes.keys).Nodup := List.nodup_cons.mpr ⟨absent, graph.nodes.entries.nodup⟩
    have within : drvId :: graph.nodes.keys ⊆ (carried ++ [drvId]).dedup := by
      intro other member
      rw [List.mem_dedup, List.mem_append, List.mem_singleton]
      rcases List.mem_cons.mp member with same | member
      · exact .inr same
      · exact .inl ((filled.keys other).mp member)
    have fits := (distinct.subperm within).length_le
    rw [List.length_cons] at fits
    apply LruCache.victim_of_room
    rw [filled.cap]
    omega

theorem Filled.insertNode (filled : graph.Filled capacity carried) (now : Instant)
    (stays : graph.nodes.victim drv.drvPath = none) :
    (graph.insertNode now drv).2.Filled capacity (carried ++ [drv.drvPath]) := by
  refine ⟨(LruCache.push_cap ..).trans filled.cap, fun drvId => ?_⟩
  rw [LruCache.mem_keys_iff, ← getNode, insertNode_getNode, stays, List.mem_append, List.mem_singleton,
    ← filled.keys, LruCache.mem_keys_iff]
  by_cases same : drvId = drv.drvPath
  · simp [same]
  · simp [same, getNode]

omit [DecidableEq DrvId] in
theorem Filled.of_nodes {next : BuildGraph DrvId} (filled : graph.Filled capacity carried)
    (nodes : next.nodes = graph.nodes) : next.Filled capacity carried := by
  refine ⟨?_, fun drvId => ?_⟩
  · rw [nodes]
    exact filled.cap
  · rw [nodes]
    exact filled.keys drvId

theorem Filled.addEdges (filled : graph.Filled capacity carried) (refs : List (DrvId × DrvId)) :
    (refs.foldl (fun graph edge => graph.addEdge edge.1 edge.2) graph).Filled capacity carried := by
  apply List.foldlRecOn refs _ (motive := fun next : BuildGraph DrvId => next.Filled capacity carried) filled
  exact fun next held edge _ => ⟨held.cap, held.keys⟩

theorem insertNode_edges {now : Instant} (stays : graph.nodes.victim drv.drvPath = none) (drvId : DrvId) :
    (graph.insertNode now drv).2.getDependencies drvId =
        (if drvId = drv.drvPath then [] else graph.getDependencies drvId) ∧
      (graph.insertNode now drv).2.getDependents drvId =
        (if drvId = drv.drvPath then [] else graph.getDependents drvId) := by
  rw [getDependencies, getDependents, insertNode_getNode, stays]
  by_cases same : drvId = drv.drvPath
  · simp [same, GraphNode.fromDrv]
  · simp [same, getDependencies, getDependents]

namespace Links

variable {sent : List (DrvId × DrvId)}

omit [DecidableEq DrvId] in
theorem of_nodes {next : BuildGraph DrvId} (links : graph.Links sent) (nodes : next.nodes = graph.nodes) :
    next.Links sent := by
  intro referrer reference
  have held := links referrer reference
  rw [getDependencies, getDependents, getNode, getNode, ← nodes] at held
  exact held

theorem insertNode_iff (links : graph.Links sent) (now : Instant) (stays : graph.nodes.victim drv.drvPath = none) :
    (graph.insertNode now drv).2.Links sent ↔
      ∀ edge ∈ sent, edge.1 ≠ drv.drvPath ∧ edge.2 ≠ drv.drvPath := by
  have edges := fun drvId => @insertNode_edges _ _ graph drv now stays drvId
  constructor
  · intro next edge member
    constructor
    · intro same
      have listed := (next edge.1 edge.2).1.mpr member
      rw [(edges edge.1).1, if_pos same] at listed
      cases listed
    · intro same
      have listed := (next edge.1 edge.2).2.mpr member
      rw [(edges edge.2).2, if_pos same] at listed
      cases listed
  · intro untouched referrer reference
    obtain ⟨forward, backward⟩ := links referrer reference
    rw [(edges referrer).1, (edges reference).2]
    constructor
    · split
      · rename_i same
        exact iff_of_false List.not_mem_nil fun member => (untouched _ member).1 same
      · exact forward
    · split
      · rename_i same
        exact iff_of_false List.not_mem_nil fun member => (untouched _ member).2 same
      · exact backward

theorem sameEdges_insertNode_iff (links : graph.Links sent) (now : Instant)
    (stays : graph.nodes.victim drv.drvPath = none) :
    (graph.insertNode now drv).2.SameEdges graph ↔
      ∀ edge ∈ sent, edge.1 ≠ drv.drvPath ∧ edge.2 ≠ drv.drvPath := by
  constructor
  · intro same
    rw [← links.insertNode_iff now stays]
    intro referrer reference
    rw [(same referrer).1, (same reference).2]
    exact links referrer reference
  · intro untouched drvId
    obtain ⟨dependencies, dependents⟩ := @insertNode_edges _ _ graph drv now stays drvId
    rw [dependencies, dependents]
    constructor
    · split
      · rename_i same
        refine (List.eq_nil_iff_forall_not_mem.mpr fun reference listed => ?_).symm
        exact (untouched _ ((links drvId reference).1.mp listed)).1 same
      · rfl
    · split
      · rename_i same
        refine (List.eq_nil_iff_forall_not_mem.mpr fun referrer listed => ?_).symm
        exact (untouched _ ((links referrer drvId).2.mp listed)).2 same
      · rfl

theorem addEdge (links : graph.Links sent) {referrer reference : DrvId}
    (source : referrer ∈ graph.nodes.keys) (target : reference ∈ graph.nodes.keys) :
    (graph.addEdge referrer reference).Links (sent ++ [(referrer, reference)]) := by
  intro first second
  rw [mem_addEdge_getDependencies, mem_addEdge_getDependents, (links first second).1, (links first second).2,
    List.mem_append, List.mem_singleton, Prod.mk.injEq]
  constructor
  · refine or_congr_right ⟨And.right, fun same => ⟨?_, same⟩⟩
    exact same.1 ▸ source
  · refine or_congr_right ⟨And.right, fun same => ⟨?_, same⟩⟩
    exact same.2 ▸ target

end Links

theorem foldl_insertNode_filled (now : Instant) (drvs : List (Drv DrvId)) (filled : graph.Filled capacity carried)
    (room : (carried ++ drvs.map (·.drvPath)).dedup.length ≤ capacity) :
    (drvs.foldl (fun graph drv => (graph.insertNode now drv).2) graph).Filled capacity
      (carried ++ drvs.map (·.drvPath)) := by
  induction drvs generalizing graph carried with
  | nil => simpa using filled
  | cons drv rest ih =>
    rw [List.map_cons, List.append_cons] at room ⊢
    have fewer : (carried ++ [drv.drvPath]).dedup.length ≤ capacity :=
      Nat.le_trans (distinct_mono (List.subset_append_left ..)) room
    exact ih (filled.insertNode now (filled.stays fewer)) room

theorem foldl_insertNode_edges (now : Instant) (filled : graph.Filled capacity carried)
    (room : (carried ++ drvs.map (·.drvPath)).dedup.length ≤ capacity) (drvId : DrvId) :
    let inserted := drvs.foldl (fun graph drv => (graph.insertNode now drv).2) graph
    inserted.getDependencies drvId =
        (if drvId ∈ drvs.map (·.drvPath) then [] else graph.getDependencies drvId) ∧
      inserted.getDependents drvId =
        (if drvId ∈ drvs.map (·.drvPath) then [] else graph.getDependents drvId) := by
  induction drvs generalizing graph carried with
  | nil => simp
  | cons drv rest ih =>
    rw [List.map_cons, List.append_cons] at room
    have stays : graph.nodes.victim drv.drvPath = none :=
      filled.stays (Nat.le_trans (distinct_mono (List.subset_append_left ..)) room)
    obtain ⟨dependencies, dependents⟩ := ih (filled.insertNode now stays) room
    obtain ⟨first, second⟩ := @insertNode_edges _ _ graph drv now stays drvId
    rw [List.foldl_cons]
    refine ⟨dependencies.trans ?_, dependents.trans ?_⟩
    · rw [first, List.map_cons]
      by_cases same : drvId = drv.drvPath <;> simp [same]
    · rw [second, List.map_cons]
      by_cases same : drvId = drv.drvPath <;> simp [same]

theorem foldl_insertNode_links (now : Instant) (filled : graph.Filled capacity carried)
    (room : (carried ++ drvs.map (·.drvPath)).dedup.length ≤ capacity) (links : graph.Links sent)
    (untouched : ∀ drv ∈ drvs, ∀ edge ∈ sent, edge.1 ≠ drv.drvPath ∧ edge.2 ≠ drv.drvPath) :
    (drvs.foldl (fun graph drv => (graph.insertNode now drv).2) graph).Links sent := by
  induction drvs generalizing graph carried with
  | nil => exact links
  | cons drv rest ih =>
    rw [List.map_cons, List.append_cons] at room
    have stays : graph.nodes.victim drv.drvPath = none :=
      filled.stays (Nat.le_trans (distinct_mono (List.subset_append_left ..)) room)
    have next := (links.insertNode_iff now stays).mpr (untouched drv (List.mem_cons_self ..))
    exact ih (filled.insertNode now stays) room next fun other member =>
      untouched other (List.mem_cons_of_mem _ member)

theorem foldl_addEdge_links {refs : List (DrvId × DrvId)} (links : graph.Links sent)
    (resident : ∀ edge ∈ refs, edge.1 ∈ graph.nodes.keys ∧ edge.2 ∈ graph.nodes.keys) :
    (refs.foldl (fun graph edge => graph.addEdge edge.1 edge.2) graph).Links (sent ++ refs) := by
  induction refs generalizing graph sent with
  | nil => simpa using links
  | cons edge rest ih =>
    obtain ⟨source, target⟩ := resident edge (List.mem_cons_self ..)
    rw [List.append_cons]
    exact ih (links.addEdge source target) fun other member => resident other (List.mem_cons_of_mem _ member)

end BuildGraph

namespace GraphService

variable [DecidableEq DrvId]

def insertBatches (service : GraphService DrvId) (batches : List (Batch DrvId)) : GraphService DrvId :=
  batches.foldl (fun service batch => (service.process batch.now (.insertDrvs batch.drvs batch.refs)).2) service

/-- Whenever a batch brings a drv that is resident already, its insertion
changes no edge of any node. -/
def RepeatsHarmlessly (service : GraphService DrvId) (batch : Batch DrvId) : Prop :=
  ∀ earlier drv later, batch.drvs = earlier ++ drv :: later →
    let reached := service.insertDrvs batch.now earlier []
    reached.graph.nodes.contains drv.drvPath = true →
      (reached.insertDrv batch.now drv).graph.SameEdges reached.graph

section Runs

open Batch

variable {capacity : Nat} {positive : 0 < capacity} {start : Instant} {batches : List (Batch DrvId)}

theorem insertBatches_snoc (service : GraphService DrvId) (batches : List (Batch DrvId)) (batch : Batch DrvId) :
    (service.insertBatches (batches ++ [batch])).graph.nodes =
      ((service.insertBatches batches).graph.extend batch.now batch.drvs batch.refs).nodes := by
  rw [insertBatches, List.foldl_append]
  apply (maintain_nodes _ _).trans
  exact congrArg _ (insertDrvs_graph ..).1

theorem insertBatches_filled (room : (carried batches).dedup.length ≤ capacity) :
    ((new .empty capacity positive start).insertBatches batches).graph.Filled capacity (carried batches) := by
  induction batches using List.reverseRecOn with
  | nil => exact ⟨rfl, fun drvId => Iff.rfl⟩
  | append_singleton batches batch ih =>
    rw [carried_snoc] at room ⊢
    have filled := ih (Nat.le_trans (BuildGraph.distinct_mono (List.subset_append_left ..)) room)
    have inserted := BuildGraph.foldl_insertNode_filled batch.now batch.drvs filled room
    exact (inserted.addEdges batch.refs).of_nodes (insertBatches_snoc ..)

theorem insertBatches_links (room : (carried batches).dedup.length ≤ capacity) (ends : EndsCarried batches)
    (fresh : NeverAfterEdge batches) :
    ((new .empty capacity positive start).insertBatches batches).graph.Links (sent batches) := by
  induction batches using List.reverseRecOn with
  | nil => exact fun _ _ => ⟨iff_of_false List.not_mem_nil List.not_mem_nil,
      iff_of_false List.not_mem_nil List.not_mem_nil⟩
  | append_singleton batches batch ih =>
    obtain ⟨earlier, last⟩ := endsCarried_snoc.mp ends
    obtain ⟨fresh, untouched⟩ := neverAfterEdge_snoc.mp fresh
    rw [carried_snoc] at room last
    have fewer := Nat.le_trans (BuildGraph.distinct_mono (List.subset_append_left ..)) room
    have filled := @insertBatches_filled _ _ capacity positive start _ fewer
    have inserted := BuildGraph.foldl_insertNode_filled batch.now batch.drvs filled room
    have links := BuildGraph.foldl_insertNode_links batch.now filled room (ih fewer earlier fresh) untouched
    rw [sent_snoc]
    refine (BuildGraph.foldl_addEdge_links links fun edge member => ?_).of_nodes (insertBatches_snoc ..)
    rw [inserted.keys, inserted.keys]
    exact last edge member

/-- Where the edges are those sent so far, a batch repeats drvs harmlessly
exactly if none of those edges touches a drv of the batch. -/
theorem repeatsHarmlessly_iff {service : GraphService DrvId} {batch : Batch DrvId} {known : List DrvId}
    {edges : List (DrvId × DrvId)} (filled : service.graph.Filled capacity known)
    (links : service.graph.Links edges) (ends : ∀ edge ∈ edges, edge.1 ∈ known ∧ edge.2 ∈ known)
    (room : (known ++ batch.drvs.map (·.drvPath)).dedup.length ≤ capacity) :
    service.RepeatsHarmlessly batch ↔
      ∀ drv ∈ batch.drvs, ∀ edge ∈ edges, edge.1 ≠ drv.drvPath ∧ edge.2 ≠ drv.drvPath := by
  obtain ⟨now, drvs, refs⟩ := batch
  unfold RepeatsHarmlessly
  dsimp only at room ⊢
  induction drvs using List.reverseRecOn with
  | nil => simp
  | append_singleton drvs drv ih =>
    rw [List.map_append, ← List.append_assoc] at room
    have fewer := Nat.le_trans (BuildGraph.distinct_mono (List.subset_append_left ..)) room
    have reached : (service.insertDrvs now drvs []).graph =
        drvs.foldl (fun graph drv => (graph.insertNode now drv).2) service.graph :=
      (insertDrvs_graph ..).1
    have full := BuildGraph.foldl_insertNode_filled now drvs filled fewer
    rw [← reached] at full
    -- a drv that is new to the cache is touched by no edge, as the ends of all edges are resident
    have single : (∀ drv ∈ drvs, ∀ edge ∈ edges, edge.1 ≠ drv.drvPath ∧ edge.2 ≠ drv.drvPath) →
        (((service.insertDrvs now drvs []).graph.nodes.contains drv.drvPath = true →
          ((service.insertDrvs now drvs []).insertDrv now drv).graph.SameEdges
            (service.insertDrvs now drvs []).graph) ↔
          ∀ edge ∈ edges, edge.1 ≠ drv.drvPath ∧ edge.2 ≠ drv.drvPath) := by
      intro untouched
      have linked := BuildGraph.foldl_insertNode_links now filled fewer links untouched
      rw [← reached] at linked
      have same := linked.sameEdges_insertNode_iff now (full.stays room)
      rw [← insertDrv_graph] at same
      rw [same]
      refine ⟨fun harmless edge member => ?_, fun untouched _ => untouched⟩
      by_cases resident : (service.insertDrvs now drvs []).graph.nodes.contains drv.drvPath = true
      · exact harmless resident edge member
      · have missing : drv.drvPath ∉ known ++ drvs.map (·.drvPath) := by
          rw [← full.keys, ← LruCache.contains_iff]
          exact resident
        obtain ⟨first, second⟩ := ends edge member
        constructor
        · exact fun same => missing (List.mem_append_left _ (same ▸ first))
        · exact fun same => missing (List.mem_append_left _ (same ▸ second))
    rw [each_snoc, ih fewer, List.forall_mem_append, List.forall_mem_singleton]
    exact and_congr_right single

/-- Sent to an empty service with room for all drvs, batches leave exactly the
edges they sent and repeat drvs harmlessly, exactly if no drv comes again after
an edge that touches it. -/
theorem insertBatches_exact_iff (capacity : Nat) (positive : 0 < capacity) (start : Instant)
    (batches : List (Batch DrvId)) (room : (carried batches).dedup.length ≤ capacity)
    (ends : EndsCarried batches) :
    (((new .empty capacity positive start).insertBatches batches).graph.Exact (sent batches) ∧
      ∀ before batch after, batches = before ++ batch :: after →
        ((new .empty capacity positive start).insertBatches before).RepeatsHarmlessly batch) ↔
      NeverAfterEdge batches := by
  have harmless : (∀ before batch after, batches = before ++ batch :: after →
        ((new .empty capacity positive start).insertBatches before).RepeatsHarmlessly batch) ↔
      NeverAfterEdge batches := by
    induction batches using List.reverseRecOn with
    | nil => exact iff_of_true (fun before batch after split => by simp at split) neverAfterEdge_nil
    | append_singleton batches batch ih =>
      obtain ⟨earlier, -⟩ := endsCarried_snoc.mp ends
      rw [carried_snoc] at room
      have fewer := Nat.le_trans (BuildGraph.distinct_mono (List.subset_append_left ..)) room
      rw [each_snoc, ih fewer earlier, neverAfterEdge_snoc]
      refine and_congr_right fun fresh => ?_
      exact repeatsHarmlessly_iff (insertBatches_filled fewer) (insertBatches_links fewer earlier fresh)
        (fun _ member => earlier.sent member) room
  rw [harmless]
  refine ⟨And.right, fun fresh => ⟨?_, fresh⟩⟩
  exact fun referrer _ reference _ => insertBatches_links room ends fresh referrer reference

end Runs

open Batch

/-- A drv and its dependency, and then another dependent of that. -/
def firstBatch : Batch Nat := ⟨0, [.plain 0 .queued, .plain 1 .queued], [(1, 0)]⟩

def secondBatch : Batch Nat := ⟨1, [.plain 2 .queued], [(2, 0), (1, 0)]⟩

theorem twoBatches_exact : EndsCarried [firstBatch, secondBatch] ∧
    ((new .empty 3 (by decide) 0).insertBatches [firstBatch, secondBatch]).graph.Exact
      (sent [firstBatch, secondBatch]) := by
  have ends : EndsCarried (([] ++ [firstBatch]) ++ [secondBatch]) :=
    endsCarried_snoc.mpr ⟨endsCarried_snoc.mpr ⟨endsCarried_nil, by decide⟩, by decide⟩
  have fresh : NeverAfterEdge (([] ++ [firstBatch]) ++ [secondBatch]) :=
    neverAfterEdge_snoc.mpr ⟨neverAfterEdge_snoc.mpr ⟨neverAfterEdge_nil, by decide⟩, by decide⟩
  exact ⟨ends, ((insertBatches_exact_iff 3 (by decide) 0 _ (by decide) ends).mpr fresh).1⟩

/-- The dependent comes again, without its dependency. -/
def repeatedBatch : Batch Nat := ⟨1, [.plain 1 .queued], []⟩

theorem repeatedBatch_not_exact : EndsCarried [firstBatch, repeatedBatch] ∧
    ¬ ((new .empty 2 (by decide) 0).insertBatches [firstBatch, repeatedBatch]).graph.Exact
      (sent [firstBatch, repeatedBatch]) := by
  have ends : EndsCarried (([] ++ [firstBatch]) ++ [repeatedBatch]) :=
    endsCarried_snoc.mpr ⟨endsCarried_snoc.mpr ⟨endsCarried_nil, by decide⟩, by decide⟩
  refine ⟨ends, fun holds => ?_⟩
  have lost := (holds 1 (by decide) 0 (by decide)).1.mpr (by decide)
  exact absurd lost (by decide)

end GraphService

end EkaCI
