import EkaCI.Graph.Mirror
import Mathlib.Algebra.Ring.Nat
import Mathlib.Data.Finset.Card

/-! The service counts, for each drv, the resident nodes that depend on it. The
counts are adjusted step by step, never recomputed; here is which steps keep them
equal to what they count. -/

namespace EkaCI

open Lib

variable {DrvId : Type} [DecidableEq DrvId]

namespace BuildGraph

/-- The resident nodes that list a drv as a dependency. -/
def listers (graph : BuildGraph DrvId) (drvId : DrvId) : Finset DrvId :=
  graph.nodes.keys.toFinset.filter fun other => drvId ∈ graph.getDependencies other

/-- No node lists a dependency twice. -/
def Distinct (graph : BuildGraph DrvId) : Prop := ∀ drvId, (graph.getDependencies drvId).Nodup

end BuildGraph

namespace GraphService

def refCount (service : GraphService DrvId) (drvId : DrvId) : Nat := (service.refCounts.get drvId).getD 0

/-- The count of every resident drv is the number of resident nodes that list it. -/
def Counted (service : GraphService DrvId) : Prop :=
  ∀ drvId ∈ service.graph.nodes.keys, service.refCount drvId = (service.graph.listers drvId).card

/-- When an insertion keeps the counts: a resident drv loses its count, so no
other node may list it; a new one starts with the count left over for it. -/
def InsertionCounted (service : GraphService DrvId) (drv : Drv DrvId) : Prop :=
  if service.graph.nodes.contains drv.drvPath then service.graph.listers drv.drvPath ⊆ {drv.drvPath}
  else service.refCount drv.drvPath = (service.graph.listers drv.drvPath).card

/-- When an edge keeps the counts: it is counted whenever it is sent, so if its
reference is resident, its referrer must be too, and must not list it yet. -/
def EdgeCounted (service : GraphService DrvId) (edge : DrvId × DrvId) : Prop :=
  edge.2 ∈ service.graph.nodes.keys →
    edge.1 ∈ service.graph.nodes.keys ∧ edge.2 ∉ service.graph.getDependencies edge.1

/-- When a reload keeps the counts: every dependent in the database is counted,
so all of them must be resident and remain, none may be counted already, and no
other node that remains may list the drv. -/
structure ReloadCounted (service : GraphService DrvId) (drvId : DrvId) : Prop where
  rows : (service.db.getDrvRefs drvId).Nodup ∧ (service.db.getDrvDependents drvId).Nodup
  uncounted : service.refCount drvId = 0
  resident : ∀ dependent ∈ service.db.getDrvDependents drvId, dependent ≠ drvId ∧
    dependent ∈ service.graph.nodes.keys ∧ service.graph.nodes.victim drvId ≠ some dependent
  listed : ∀ other ∈ service.graph.listers drvId, service.graph.nodes.victim drvId ≠ some other →
    other ∈ service.db.getDrvDependents drvId

/-- A query may name drvs that it does not have to reload. -/
def SeedCounted (service : GraphService DrvId) (drvId : DrvId) : Prop :=
  service.graph.nodes.contains drvId = false → service.db.getDrv drvId ≠ none → service.ReloadCounted drvId

def KeepsCounts (service : GraphService DrvId) : ServiceEvent DrvId → Prop
  | .command now (.insertDrvs drvs refs) =>
    MeetsInTurn (fun service drv => (service.insertDrv now drv).cacheNode drv.drvPath) InsertionCounted
        service drvs ∧
      MeetsInTurn (fun service edge => (service.insertRef edge.1 edge.2).cacheDependencies edge.1) EdgeCounted
        (service.insertDrvs now drvs []) refs
  | .command now command => command.isQuery = true →
      MeetsInTurn (ensureLoaded now) SeedCounted service command.seeds
  | .store _ => True

end GraphService

namespace BuildGraph

variable {graph : BuildGraph DrvId}

theorem mem_listers {drvId other : DrvId} : other ∈ graph.listers drvId ↔ drvId ∈ graph.getDependencies other := by
  rw [listers, Finset.mem_filter, List.mem_toFinset]
  refine ⟨And.right, fun listed => ⟨?_, listed⟩⟩
  cases found : graph.getNode other with
  | none => simp [getDependencies, found] at listed
  | some node => exact LruCache.mem_keys_iff.mpr ⟨node, found⟩

theorem insertNode_displaced (now : Instant) (drv : Drv DrvId) : (graph.insertNode now drv).1.map Prod.fst =
    if graph.nodes.contains drv.drvPath then some drv.drvPath else graph.nodes.victim drv.drvPath :=
  LruCache.push_fst_key ..

theorem mem_insertNode_listers {now : Instant} {drv : Drv DrvId} {drvId other : DrvId} :
    other ∈ (graph.insertNode now drv).2.listers drvId ↔
      other ∈ graph.listers drvId ∧ (graph.insertNode now drv).1.map Prod.fst ≠ some other := by
  rw [insertNode_displaced, mem_listers, mem_listers, getDependencies, insertNode_getNode, getDependencies]
  by_cases same : other = drv.drvPath
  · subst same
    cases present : graph.nodes.contains drv.drvPath with
    | true => simp [GraphNode.fromDrv]
    | false =>
      have absent : graph.getNode drv.drvPath = none := LruCache.contains_eq_false_iff.mp present
      simp [GraphNode.fromDrv, absent]
  · cases present : graph.nodes.contains drv.drvPath with
    | true => simp [same, Ne.symm same, LruCache.victim_of_contains present]
    | false => by_cases leaves : graph.nodes.victim drv.drvPath = some other <;> simp [same, leaves]

theorem insertNode_listers (now : Instant) (drv : Drv DrvId) (drvId : DrvId) :
    (graph.insertNode now drv).2.listers drvId =
      match (graph.insertNode now drv).1 with
      | none => graph.listers drvId
      | some entry => (graph.listers drvId).erase entry.1 := by
  ext other
  rw [mem_insertNode_listers]
  cases (graph.insertNode now drv).1 with
  | none => simp
  | some entry => simp [and_comm, eq_comm]

theorem displaced_getNode {now : Instant} {drv : Drv DrvId} {entry : DrvId × GraphNode DrvId}
    (displaced : (graph.insertNode now drv).1 = some entry) : graph.getNode entry.1 = some entry.2 := by
  have pushed : (graph.nodes.push drv.drvPath (.fromDrv drv)).1 = some entry := displaced
  rw [LruCache.push_fst] at pushed
  split at pushed
  · rename_i old found
    cases pushed
    exact found
  · obtain ⟨other, -, found⟩ := Option.bind_eq_some_iff.mp pushed
    obtain ⟨node, held, same⟩ := Option.map_eq_some_iff.mp found
    cases same
    exact held

theorem addEdge_listers (referrer reference drvId : DrvId) :
    (graph.addEdge referrer reference).listers drvId =
      if drvId = reference ∧ referrer ∈ graph.nodes.keys then insert referrer (graph.listers drvId)
      else graph.listers drvId := by
  ext other
  rw [mem_listers, mem_addEdge_getDependencies]
  split
  · rename_i new
    obtain ⟨rfl, resident⟩ := new
    rw [Finset.mem_insert, mem_listers, or_comm]
    refine or_congr_left ⟨fun both => both.2.1, ?_⟩
    rintro rfl
    exact ⟨resident, rfl, rfl⟩
  · rename_i old
    rw [mem_listers]
    refine or_iff_left fun both => old ?_
    obtain ⟨resident, rfl, rfl⟩ := both
    exact ⟨rfl, resident⟩

omit [DecidableEq DrvId] in
theorem Distinct.of_getDependencies {next : BuildGraph DrvId} (distinct : graph.Distinct)
    (kept : ∀ drvId, next.getDependencies drvId = graph.getDependencies drvId) : next.Distinct :=
  fun drvId => kept drvId ▸ distinct drvId

theorem Distinct.insertNode (distinct : graph.Distinct) (now : Instant) (drv : Drv DrvId) :
    (graph.insertNode now drv).2.Distinct := by
  intro drvId
  rw [getDependencies, insertNode_getNode]
  split
  · exact List.nodup_nil
  · split
    · exact List.nodup_nil
    · exact distinct drvId

theorem Distinct.addEdge (distinct : graph.Distinct) (referrer reference : DrvId) :
    (graph.addEdge referrer reference).Distinct := by
  intro drvId
  have held := distinct drvId
  rw [getDependencies] at held
  rw [getDependencies, addEdge_getNode]
  cases found : graph.getNode drvId with
  | none => exact List.nodup_nil
  | some node =>
    rw [found, Option.map_some, Option.getD_some] at held
    have forward : (if drvId = referrer then node.addDependency reference else node).dependencies.Nodup := by
      split
      · unfold GraphNode.addDependency
        split
        · exact held
        · rename_i unlisted
          exact List.nodup_append.mpr ⟨held, List.nodup_singleton _, by grind⟩
      · exact held
    simp only [Option.map_some, Option.getD_some]
    split
    · rw [addDependent_dependencies]
      exact forward
    · exact forward

end BuildGraph

namespace GraphService

variable {service : GraphService DrvId} {now : Instant}

theorem addReference_get (counts : Table DrvId Nat) (counted drvId : DrvId) :
    ((addReference counts counted).get drvId).getD 0 =
      (counts.get drvId).getD 0 + if drvId = counted then 1 else 0 := by
  rw [addReference, Table.push_get]
  by_cases same : drvId = counted <;> simp [same]

theorem foldl_addReference (list : List DrvId) (counts : Table DrvId Nat) (drvId : DrvId) :
    ((list.foldl addReference counts).get drvId).getD 0 = (counts.get drvId).getD 0 + list.count drvId := by
  induction list generalizing counts with
  | nil => simp
  | cons head rest ih =>
    rw [List.foldl_cons, ih, addReference_get, List.count_cons]
    by_cases same : drvId = head
    · simp [same]
      omega
    · simp [same, Ne.symm same]

variable (graph : BuildGraph DrvId) (db : Database DrvId)

theorem dropReference_get (counts : Table DrvId Nat) (dropped drvId : DrvId) :
    ((dropReference graph counts dropped).get drvId).getD 0 =
      (counts.get drvId).getD 0 - if drvId = dropped then 1 else 0 := by
  unfold dropReference
  by_cases same : drvId = dropped
  · subst same
    cases held : counts.get drvId with
    | none => simp [held]
    | some count =>
      simp only [if_true, Option.getD_some]
      split
      · rename_i gone
        rw [Table.erase_get_self, Option.getD_none, gone.1]
      · rw [Table.push_get_self, Option.getD_some]
  · cases counts.get dropped with
    | none => simp [same]
    | some count =>
      simp only [same, if_false, Nat.sub_zero]
      split
      · rw [Table.erase_get, if_neg same, Table.push_get, if_neg same]
      · rw [Table.push_get, if_neg same]

theorem foldl_dropReference (list : List DrvId) (counts : Table DrvId Nat) (drvId : DrvId) :
    ((list.foldl (dropReference graph) counts).get drvId).getD 0 =
      (counts.get drvId).getD 0 - list.count drvId := by
  induction list generalizing counts with
  | nil => simp
  | cons head rest ih =>
    rw [List.foldl_cons, ih, dropReference_get, List.count_cons]
    by_cases same : drvId = head
    · simp [same]
      omega
    · simp [same, Ne.symm same]

theorem Counted.of_kept {next : GraphService DrvId} (counted : service.Counted)
    (keys : ∀ drvId ∈ next.graph.nodes.keys, drvId ∈ service.graph.nodes.keys)
    (counts : ∀ drvId ∈ next.graph.nodes.keys, next.refCount drvId = service.refCount drvId)
    (dependencies : ∀ drvId, next.graph.getDependencies drvId = service.graph.getDependencies drvId) :
    next.Counted := by
  intro drvId resident
  have listers : next.graph.listers drvId = service.graph.listers drvId := by
    ext other
    rw [BuildGraph.mem_listers, BuildGraph.mem_listers, dependencies]
  rw [counts drvId resident, listers]
  exact counted drvId (keys drvId resident)

theorem Counted.congr {next : GraphService DrvId} (counted : service.Counted) (graph : next.graph = service.graph)
    (counts : next.refCounts = service.refCounts) : next.Counted := by
  intro drvId resident
  rw [graph] at resident ⊢
  rw [refCount, counts]
  exact counted drvId resident

theorem cacheNode_refCounts (service : GraphService DrvId) (drvId : DrvId) :
    (service.cacheNode drvId).refCounts = service.refCounts := by
  unfold cacheNode
  split <;> rfl

theorem cacheDependencies_refCounts (service : GraphService DrvId) (drvId : DrvId) :
    (service.cacheDependencies drvId).refCounts = service.refCounts := by
  unfold cacheDependencies
  split <;> rfl

theorem insertDrv_refCount (drv : Drv DrvId) (drvId : DrvId) :
    (service.insertDrv now drv).refCount drvId =
      match (service.graph.insertNode now drv).1 with
      | none => service.refCount drvId
      | some entry => if drvId = entry.1 then 0 else service.refCount drvId - entry.2.dependencies.count drvId := by
  rw [insertDrv]
  cases (service.graph.insertNode now drv).1 with
  | none => rfl
  | some entry =>
    simp only [forgetEvicted, refCount, Table.erase_get]
    split
    · rfl
    · exact foldl_dropReference ..

theorem insertDrv_exact (distinct : service.graph.Distinct) {drv : Drv DrvId} {drvId : DrvId}
    (exactly : service.refCount drvId = (service.graph.listers drvId).card)
    (stays : (service.graph.insertNode now drv).1.map Prod.fst ≠ some drvId) :
    (service.insertDrv now drv).refCount drvId = ((service.insertDrv now drv).graph.listers drvId).card := by
  rw [insertDrv_refCount, insertDrv_graph, BuildGraph.insertNode_listers]
  cases displaced : (service.graph.insertNode now drv).1 with
  | none => exact exactly
  | some entry =>
    have other : drvId ≠ entry.1 := fun same => stays (by rw [displaced, same]; rfl)
    have found := BuildGraph.displaced_getNode displaced
    have unique := distinct entry.1
    have lists : entry.1 ∈ service.graph.listers drvId ↔ drvId ∈ entry.2.dependencies := by
      rw [BuildGraph.mem_listers, BuildGraph.getDependencies, found]
      rfl
    rw [BuildGraph.getDependencies, found, Option.map_some, Option.getD_some] at unique
    simp only [if_neg other, Finset.card_erase_eq_ite, lists, exactly]
    split
    · rename_i listed
      rw [List.count_eq_one_of_mem unique listed]
    · rename_i unlisted
      rw [List.count_eq_zero_of_not_mem unlisted, Nat.sub_zero]

theorem resident_of_insertDrv {drv : Drv DrvId} {drvId : DrvId} (different : drvId ≠ drv.drvPath)
    (resident : drvId ∈ (service.insertDrv now drv).graph.nodes.keys) :
    drvId ∈ service.graph.nodes.keys ∧ (service.graph.insertNode now drv).1.map Prod.fst ≠ some drvId := by
  obtain ⟨before, stays⟩ := (mem_insertDrv_keys different).mp resident
  refine ⟨before, ?_⟩
  rw [BuildGraph.insertNode_displaced]
  split
  · exact fun same => different (Option.some.inj same).symm
  · exact stays

theorem Counted.insertDrv (counted : service.Counted) (distinct : service.graph.Distinct) {drv : Drv DrvId}
    (keeps : service.InsertionCounted drv) : (service.insertDrv now drv).Counted := by
  intro drvId resident
  by_cases same : drvId = drv.drvPath
  · subst same
    unfold InsertionCounted at keeps
    split at keeps
    · rename_i present
      -- the drv replaces itself: its count is erased, and nobody else lists it
      have displaced := @BuildGraph.insertNode_displaced _ _ service.graph now drv
      rw [if_pos present] at displaced
      obtain ⟨entry, found, itself⟩ := Option.map_eq_some_iff.mp displaced
      have none : (service.insertDrv now drv).graph.listers drv.drvPath = ∅ := by
        rw [insertDrv_graph, Finset.eq_empty_iff_forall_notMem]
        intro other member
        rw [BuildGraph.mem_insertNode_listers, displaced] at member
        exact member.2 (congrArg some (Finset.mem_singleton.mp (keeps member.1)).symm)
      rw [insertDrv_refCount, found, none]
      simp [itself]
    · rename_i absent
      apply insertDrv_exact distinct keeps
      rw [BuildGraph.insertNode_displaced, if_neg absent]
      exact fun leaves => (LruCache.victim_peek leaves).1 rfl
  · obtain ⟨before, stays⟩ := resident_of_insertDrv same resident
    exact insertDrv_exact distinct (counted drvId before) stays

theorem Counted.insertRef (counted : service.Counted) {edge : DrvId × DrvId} (keeps : service.EdgeCounted edge) :
    (service.insertRef edge.1 edge.2).Counted := by
  intro drvId resident
  have before := counted drvId resident
  have count := addReference_get service.refCounts edge.2 drvId
  rw [refCount, GraphService.insertRef, count, ← refCount, BuildGraph.addEdge_listers, before]
  by_cases same : drvId = edge.2
  · subst same
    obtain ⟨referrer, unlisted⟩ := keeps resident
    rw [← BuildGraph.mem_listers] at unlisted
    simp [referrer, unlisted]
  · simp [same]

theorem foldl_insertRef_refCount (edges : List (DrvId × DrvId)) (service : GraphService DrvId) (drvId : DrvId) :
    (edges.foldl (fun service edge => service.insertRef edge.1 edge.2) service).refCount drvId =
      service.refCount drvId + (edges.map (·.2)).count drvId := by
  have counts : ∀ service : GraphService DrvId,
      (edges.foldl (fun service edge => service.insertRef edge.1 edge.2) service).refCounts =
        (edges.map (·.2)).foldl addReference service.refCounts := by
    induction edges with
    | nil => exact fun _ => rfl
    | cons edge rest ih => exact fun service => ih (service.insertRef edge.1 edge.2)
  rw [refCount, counts, foldl_addReference, refCount]

theorem mem_foldl_insertRef_listers (edges : List (DrvId × DrvId)) (service : GraphService DrvId)
    {drvId other : DrvId} :
    other ∈ (edges.foldl (fun service edge => service.insertRef edge.1 edge.2) service).graph.listers drvId ↔
      other ∈ service.graph.listers drvId ∨ (other ∈ service.graph.nodes.keys ∧ (other, drvId) ∈ edges) := by
  rw [BuildGraph.mem_listers, foldl_insertRef_graph, BuildGraph.addEdges_getDependencies,
    BuildGraph.mem_listers]

theorem count_edgesOf (drvId other : DrvId) :
    ((db.edgesOf drvId).map (·.2)).count other = (db.getDrvRefs drvId).count other +
      if other = drvId then (db.getDrvDependents drvId).length else 0 := by
  have forward : ((db.getDrvRefs drvId).map (drvId, ·)).map (·.2) = db.getDrvRefs drvId := by simp
  have backward : ((db.getDrvDependents drvId).map (·, drvId)).map (·.2) =
      List.replicate (db.getDrvDependents drvId).length drvId := by
    rw [List.map_map]
    exact List.map_const' ..
  rw [Database.edgesOf, List.map_append, List.count_append, forward, backward, List.count_replicate]
  by_cases same : other = drvId
  · simp [same]
  · simp [same, Ne.symm same]

section Reload

variable {drv : Drv DrvId} (counted : service.Counted) (distinct : service.graph.Distinct)
  (evicted : service.graph.nodes.contains drv.drvPath = false) (keeps : service.ReloadCounted drv.drvPath)

include counted distinct keeps in
theorem reload_dependency {drvId : DrvId} (different : drvId ≠ drv.drvPath)
    (resident : drvId ∈ (service.insertDrv now drv).graph.nodes.keys) :
    let next := (service.db.edgesOf drv.drvPath).foldl (fun service edge => service.insertRef edge.1 edge.2)
      (service.insertDrv now drv)
    next.refCount drvId = (next.graph.listers drvId).card := by
  intro next
  obtain ⟨before, stays⟩ := resident_of_insertDrv different resident
  have inserted := insertDrv_exact distinct (counted drvId before) stays
  have there : drv.drvPath ∈ (service.insertDrv now drv).graph.nodes.keys := by
    rw [insertDrv_graph]
    exact LruCache.mem_keys_iff.mpr ⟨_, BuildGraph.insertNode_getNode_self⟩
  have fresh : drv.drvPath ∉ (service.insertDrv now drv).graph.listers drvId := by
    rw [BuildGraph.mem_listers, BuildGraph.getDependencies, insertDrv_graph,
      BuildGraph.insertNode_getNode_self]
    exact List.not_mem_nil
  have listers : next.graph.listers drvId = if drvId ∈ service.db.getDrvRefs drv.drvPath then
      insert drv.drvPath ((service.insertDrv now drv).graph.listers drvId)
      else (service.insertDrv now drv).graph.listers drvId := by
    ext other
    rw [mem_foldl_insertRef_listers, Database.mem_edgesOf]
    simp only [different, or_false, Database.mem_getDrvRefs]
    split
    · rename_i row
      rw [Finset.mem_insert, or_comm]
      refine or_congr_left ⟨fun both => both.2.2, ?_⟩
      rintro rfl
      exact ⟨there, row, rfl⟩
    · rename_i none
      refine or_iff_left fun both => none ?_
      rw [← both.2.2]
      exact both.2.1
  rw [foldl_insertRef_refCount, count_edgesOf, if_neg different, listers, inserted, Nat.add_zero]
  split
  · rename_i row
    rw [List.count_eq_one_of_mem keeps.rows.1 row, Finset.card_insert_of_notMem fresh]
  · rename_i none
    rw [List.count_eq_zero_of_not_mem none, Nat.add_zero]

include evicted keeps in
theorem reload_self :
    let next := (service.db.edgesOf drv.drvPath).foldl (fun service edge => service.insertRef edge.1 edge.2)
      (service.insertDrv now drv)
    next.refCount drv.drvPath = (next.graph.listers drv.drvPath).card := by
  intro next
  have absent : service.graph.nodes.contains drv.drvPath ≠ true := by simp [evicted]
  have uncounted : (service.insertDrv now drv).refCount drv.drvPath = 0 := by
    rw [insertDrv_refCount]
    cases (service.graph.insertNode now drv).1 <;> simp [keeps.uncounted]
  have itself : drv.drvPath ∉ service.db.getDrvRefs drv.drvPath := by
    rw [Database.mem_getDrvRefs, ← Database.mem_getDrvDependents]
    exact fun row => (keeps.resident _ row).1 rfl
  have listers : next.graph.listers drv.drvPath = (service.db.getDrvDependents drv.drvPath).toFinset := by
    ext other
    rw [mem_foldl_insertRef_listers, Database.mem_edgesOf, List.mem_toFinset, Database.mem_getDrvDependents,
      insertDrv_graph, BuildGraph.mem_insertNode_listers, BuildGraph.insertNode_displaced, if_neg absent]
    constructor
    · rintro (⟨listed, stays⟩ | ⟨-, row, -⟩)
      · exact Database.mem_getDrvDependents.mp (keeps.listed other listed stays)
      · exact row
    · intro row
      obtain ⟨different, resident, stays⟩ := keeps.resident other (Database.mem_getDrvDependents.mpr row)
      refine .inr ⟨?_, row, .inr rfl⟩
      rw [← insertDrv_graph]
      exact (mem_insertDrv_keys different).mpr ⟨resident, stays⟩
  rw [foldl_insertRef_refCount, count_edgesOf, uncounted, listers, List.count_eq_zero_of_not_mem itself, if_pos rfl,
    List.toFinset_card_of_nodup keeps.rows.2, Nat.zero_add, Nat.zero_add]

end Reload

theorem Counted.ensureLoaded (counted : service.Counted) (distinct : service.graph.Distinct) {drvId : DrvId}
    (keeps : service.SeedCounted drvId) : (ensureLoaded now service drvId).Counted := by
  cases resident : service.graph.nodes.contains drvId with
  | true =>
    rw [ensureLoaded_of_resident now resident]
    exact counted
  | false =>
    cases stored : service.db.getDrv drvId with
    | none =>
      rw [ensureLoaded_of_unknown now stored]
      exact counted
    | some drv =>
      have path : drv.drvPath = drvId := service.db.keyed drvId drv stored
      subst path
      have reload := keeps resident (by rw [stored]; exact Option.some_ne_none drv)
      rw [ensureLoaded_eq now resident stored]
      have linked : ((service.db.edgesOf drv.drvPath).foldl (fun service edge =>
          service.insertRef edge.1 edge.2) (service.insertDrv now drv)).Counted := by
        obtain ⟨-, -, keys, -, -⟩ := foldl_insertRef (service.db.edgesOf drv.drvPath) (service.insertDrv now drv)
        intro drvId present
        rw [keys] at present
        by_cases same : drvId = drv.drvPath
        · subst same
          exact reload_self resident reload
        · exact reload_dependency counted distinct reload same present
      exact linked.congr (cacheNode_graph ..) (cacheNode_refCounts ..)

/-- What all steps preserve together. -/
structure CountsExactly (service : GraphService DrvId) : Prop where
  counted : service.Counted
  distinct : service.graph.Distinct

namespace CountsExactly

theorem of_kept {next : GraphService DrvId} (exactly : service.CountsExactly)
    (keys : ∀ drvId ∈ next.graph.nodes.keys, drvId ∈ service.graph.nodes.keys)
    (counts : ∀ drvId ∈ next.graph.nodes.keys, next.refCount drvId = service.refCount drvId)
    (dependencies : ∀ drvId, next.graph.getDependencies drvId = service.graph.getDependencies drvId) :
    next.CountsExactly :=
  ⟨exactly.counted.of_kept keys counts dependencies, exactly.distinct.of_getDependencies dependencies⟩

theorem congr {next : GraphService DrvId} (exactly : service.CountsExactly) (graph : next.graph = service.graph)
    (counts : next.refCounts = service.refCounts) : next.CountsExactly :=
  ⟨exactly.counted.congr graph counts, graph ▸ exactly.distinct⟩

theorem insertDrv (exactly : service.CountsExactly) {drv : Drv DrvId} (keeps : service.InsertionCounted drv) :
    ((service.insertDrv now drv).cacheNode drv.drvPath).CountsExactly := by
  have inserted : (service.insertDrv now drv).CountsExactly := by
    refine ⟨exactly.counted.insertDrv exactly.distinct keeps, ?_⟩
    rw [insertDrv_graph]
    exact exactly.distinct.insertNode now drv
  exact inserted.congr (cacheNode_graph ..) (cacheNode_refCounts ..)

theorem insertRef (exactly : service.CountsExactly) {edge : DrvId × DrvId} (keeps : service.EdgeCounted edge) :
    ((service.insertRef edge.1 edge.2).cacheDependencies edge.1).CountsExactly := by
  have linked : (service.insertRef edge.1 edge.2).CountsExactly :=
    ⟨exactly.counted.insertRef keeps, exactly.distinct.addEdge edge.1 edge.2⟩
  exact linked.congr (cacheDependencies_graph ..) (cacheDependencies_refCounts ..)

theorem ensureLoaded (exactly : service.CountsExactly) {drvId : DrvId} (keeps : service.SeedCounted drvId) :
    (ensureLoaded now service drvId).CountsExactly := by
  refine ⟨exactly.counted.ensureLoaded exactly.distinct keeps, ?_⟩
  cases resident : service.graph.nodes.contains drvId with
  | true =>
    rw [ensureLoaded_of_resident now resident]
    exact exactly.distinct
  | false =>
    cases stored : service.db.getDrv drvId with
    | none =>
      rw [ensureLoaded_of_unknown now stored]
      exact exactly.distinct
    | some drv =>
      rw [ensureLoaded_eq now resident stored, cacheNode_graph, foldl_insertRef_graph, insertDrv_graph]
      apply List.foldlRecOn _ _ (motive := BuildGraph.Distinct) (exactly.distinct.insertNode now drv)
      exact fun _ held edge _ => held.addEdge edge.1 edge.2

theorem maintain (exactly : service.CountsExactly) (now : Instant) : (service.maintain now).CountsExactly := by
  refine exactly.of_kept ?_ ?_ ?_
  · rw [maintain_nodes]
    exact fun _ member => member
  · intro drvId resident
    rw [maintain_nodes] at resident
    unfold GraphService.maintain
    dsimp only
    split
    · have kept : drvId ∉ List.filter (fun drvId => !service.graph.nodes.contains drvId) service.refCounts.keys := by
        simp [LruCache.contains_iff.mpr resident]
      simp only [refCount, pruneStaleTrackingEntries, Table.foldl_erase_get, if_neg kept]
    · rfl
  · intro drvId
    rw [BuildGraph.getDependencies, maintain_getNode, BuildGraph.getDependencies]

theorem handleCommand (exactly : service.CountsExactly) {command : GraphCommand DrvId}
    (keeps : service.KeepsCounts (.command now command)) :
    (service.handleCommand now command).2.CountsExactly := by
  cases command with
  | updateState drvId newState =>
    refine exactly.of_kept ?_ (fun _ _ => rfl) fun other => BuildGraph.updateState_getDependencies ..
    rw [GraphService.handleCommand, GraphService.updateState, BuildGraph.updateState_topology.keys]
    exact fun _ member => member
  | insertDrvs drvs refs =>
    have inserted : (service.insertDrvs now drvs []).CountsExactly :=
      MeetsInTurn.foldl (p := CountsExactly) (fun _ _ held meets => held.insertDrv meets) keeps.1 exactly
    exact MeetsInTurn.foldl (p := CountsExactly) (fun _ _ held meets => held.insertRef meets) keeps.2 inserted
  | propagateFailure failedDrv =>
    refine exactly.of_kept ?_ (fun _ _ => rfl) fun other => BuildGraph.propagateFailure_getDependencies ..
    rw [GraphService.handleCommand, GraphService.propagateFailure,
      (BuildGraph.propagateFailure_topology service.graph failedDrv).keys]
    exact fun _ member => member
  | clearFailure formerlyFailed =>
    refine exactly.of_kept ?_ (fun _ _ => rfl) fun other => BuildGraph.clearFailure_getDependencies ..
    rw [GraphService.handleCommand, GraphService.clearFailure,
      (BuildGraph.clearFailure_topology service.graph formerlyFailed).keys]
    exact fun _ member => member
  | _ =>
    exact MeetsInTurn.foldl (p := CountsExactly) (fun _ _ held meets => held.ensureLoaded meets) (keeps rfl) exactly

theorem handle (exactly : service.CountsExactly) {event : ServiceEvent DrvId} (keeps : service.KeepsCounts event) :
    (service.handle event).CountsExactly := by
  cases event with
  | store db => exact exactly.congr rfl rfl
  | command now command => exact (exactly.handleCommand keeps).maintain now

end CountsExactly

theorem fromDatabase_distinct (capacity : Nat) (positive : 0 < capacity) (now : Instant) :
    (BuildGraph.fromDatabase db capacity positive now).Distinct := by
  have empty : (BuildGraph.new capacity positive : BuildGraph DrvId).Distinct := fun _ => List.nodup_nil
  have loaded : ∀ drvs refs, (BuildGraph.load capacity positive now drvs refs : BuildGraph DrvId).Distinct := by
    intro drvs refs
    refine List.foldlRecOn refs _ (motive := BuildGraph.Distinct) ?_ fun _ held edge _ => held.addEdge edge.1 edge.2
    exact List.foldlRecOn drvs _ (motive := BuildGraph.Distinct) empty fun _ held drv _ => held.insertNode now drv
  exact (loaded _ _).of_getDependencies fun drvId => BuildGraph.fromDatabase_getDependencies db capacity positive now drvId

theorem foldl_count (nodes : List (DrvId × GraphNode DrvId)) (counts : Table DrvId Nat) (drvId : DrvId) :
    ((nodes.foldl (fun counts entry => entry.2.dependencies.foldl addReference counts) counts).get drvId).getD 0 =
      (counts.get drvId).getD 0 + (nodes.map fun entry => entry.2.dependencies.count drvId).sum := by
  induction nodes generalizing counts with
  | nil => simp
  | cons entry rest ih =>
    rw [List.foldl_cons, ih, foldl_addReference, List.map_cons, List.sum_cons, Nat.add_assoc]

theorem card_listers (drvId : DrvId) : (graph.listers drvId).card =
    (graph.nodes.keys.filter fun other => drvId ∈ graph.getDependencies other).length := by
  have unique : graph.nodes.keys.Nodup := graph.nodes.entries.nodup
  rw [← List.toFinset_card_of_nodup (unique.filter _)]
  congr 1
  ext other
  simp [BuildGraph.listers]

theorem sum_counts {graph : BuildGraph DrvId} (distinct : graph.Distinct) (list : List DrvId) (drvId : DrvId) :
    ((list.filterMap fun other => (graph.getNode other).map (other, ·)).map fun entry =>
        entry.2.dependencies.count drvId).sum =
      (list.filter fun other => drvId ∈ graph.getDependencies other).length := by
  induction list with
  | nil => rfl
  | cons head rest ih =>
    have unique := distinct head
    rw [BuildGraph.getDependencies] at unique
    rw [List.filterMap_cons, List.filter_cons, BuildGraph.getDependencies]
    cases found : graph.getNode head with
    | none => simpa [found] using ih
    | some node =>
      rw [found, Option.map_some, Option.getD_some] at unique
      simp only [Option.map_some, List.map_cons, List.sum_cons, ih, Option.getD_some]
      by_cases listed : drvId ∈ node.dependencies
      · simp [listed, List.count_eq_one_of_mem unique listed, Nat.add_comm]
      · simp [listed, List.count_eq_zero_of_not_mem listed]

theorem new_countsExactly (capacity : Nat) (positive : 0 < capacity) (now : Instant) :
    (new db capacity positive now).CountsExactly := by
  have distinct := fromDatabase_distinct db capacity positive now
  refine ⟨fun drvId _ => ?_, distinct⟩
  rw [card_listers, refCount, new, foldl_count, sum_counts distinct]
  exact Nat.zero_add _

/-- While every insertion, edge and reload keeps the counts as it happens, the
counts of the resident drvs are exact after every event. -/
theorem handleAll_counted (db : Database DrvId) (capacity : Nat) (positive : 0 < capacity) (start : Instant)
    (events : List (ServiceEvent DrvId))
    (keeps : ∀ before event after, events = before ++ event :: after →
      ((new db capacity positive start).handleAll before).KeepsCounts event)
    (before after : List (ServiceEvent DrvId)) (split : events = before ++ after) :
    ((new db capacity positive start).handleAll before).Counted :=
  (always_of (new_countsExactly db capacity positive start)
    (fun _ _ exactly keeps => CountsExactly.handle exactly keeps) keeps before after split).counted

theorem firstBatch_counted : ((new .empty 2 (by decide) 0).handleAll
    [.command 1 (.insertDrvs [.plain 0 .queued, .plain 1 .queued] [(1, 0)])] : GraphService Nat).Counted := by
  refine handleAll_counted .empty 2 (by decide) 0
    [.command 1 (.insertDrvs [.plain 0 .queued, .plain 1 .queued] [(1, 0)])] ?_ _ [] rfl
  intro before event after split
  simp only [List.cons_eq_append_iff, List.cons.injEq, List.nil_eq_append_iff, reduceCtorEq, and_false,
    exists_false, or_false] at split
  obtain ⟨rfl, rfl, -⟩ := split
  refine ⟨⟨?_, ?_, trivial⟩, ?_, trivial⟩
  · rfl
  · rfl
  · exact fun _ => ⟨by decide, by decide⟩

/-- An edge that comes twice is counted twice. -/
theorem repeatedEdge_not_counted : ¬ ((new .empty 2 (by decide) 0).handleAll
    [.command 1 (.insertDrvs [.plain 0 .queued, .plain 1 .queued] [(1, 0)]),
      .command 2 (.insertDrvs [] [(1, 0)])] : GraphService Nat).Counted := by
  intro counted
  exact absurd (counted 0 (by decide)) (by decide)

end GraphService

end EkaCI
