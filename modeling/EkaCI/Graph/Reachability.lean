import EkaCI.Graph.Propagation
import Mathlib.Data.Set.Card

/-! What the three traversals along `dependents` answer, on any graph: cycles,
references of a drv to itself and drvs that are not resident included. -/

namespace EkaCI.BuildGraph

open Lib

variable {DrvId : Type}

/-- The traversals meet exactly what is reachable, and count it. -/
structure ReachesExactly [DecidableEq DrvId] (graph : BuildGraph DrvId) (seeds : List DrvId) : Prop where
  /-- The strict dependents of a drv, each once. -/
  dependents : ∀ drvId, (graph.getAllTransitiveDependents drvId).Nodup ∧
    ∀ target, target ∈ graph.getAllTransitiveDependents drvId ↔
      target ≠ drvId ∧ Relation.TransGen graph.Dependent drvId target
  /-- The resident seeds with the union of their strict dependents. -/
  union : (graph.reverseReachableFromSet seeds).Nodup ∧
    ∀ target, target ∈ graph.reverseReachableFromSet seeds ↔
      (target ∈ seeds ∧ target ∈ graph.nodes.keys) ∨
        ∃ seed ∈ seeds, seed ∈ graph.nodes.keys ∧ target ∈ graph.getAllTransitiveDependents seed
  /-- Each seed has its radius, and nothing else has one. -/
  radius : ∀ drvId, (graph.blastRadiusPerSeed seeds).get drvId =
    if drvId ∈ seeds then some {target | graph.StrictDependent drvId target}.ncard else none
  missing : ∀ drvId, drvId ∉ graph.nodes.keys → {target | graph.StrictDependent drvId target}.ncard = 0
  bounded : ∀ seed count, (graph.blastRadiusPerSeed seeds).get seed = some count →
    count ≤ (graph.reverseReachableFromSet seeds).length
  /-- Neither the order nor the repetition of the seeds matters. -/
  unordered : ∀ others : List DrvId, (∀ drvId, drvId ∈ others ↔ drvId ∈ seeds) →
    (graph.reverseReachableFromSet others).Perm (graph.reverseReachableFromSet seeds) ∧
      ∀ drvId, (graph.blastRadiusPerSeed others).get drvId = (graph.blastRadiusPerSeed seeds).get drvId

variable [DecidableEq DrvId] {graph : BuildGraph DrvId} {seeds : List DrvId}

theorem getAllTransitiveDependents_eq_nil {drvId : DrvId} (absent : drvId ∉ graph.nodes.keys) :
    graph.getAllTransitiveDependents drvId = [] := by
  apply List.eq_nil_iff_forall_not_mem.mpr
  intro target member
  obtain ⟨-, path⟩ := mem_getAllTransitiveDependents.mp member
  obtain ⟨middle, edge, -⟩ := Relation.TransGen.head'_iff.mp path
  exact absent edge.resident

theorem ncard_strictDependent (drvId : DrvId) :
    {target | graph.StrictDependent drvId target}.ncard = (graph.getAllTransitiveDependents drvId).length := by
  have strict : {target | graph.StrictDependent drvId target} =
      ((graph.getAllTransitiveDependents drvId).toFinset : Set DrvId) := by
    ext target
    rw [Set.mem_ofPred_eq, Finset.mem_coe, List.mem_toFinset, mem_getAllTransitiveDependents]
  rw [strict, Set.ncard_coe_finset, List.toFinset_card_of_nodup (getAllTransitiveDependents_nodup ..)]

theorem reverseReachableFromSet_nodup (graph : BuildGraph DrvId) (seeds : List DrvId) :
    (graph.reverseReachableFromSet seeds).Nodup :=
  search_nodup _ (fresh_nodup ..)

theorem mem_reverseReachableFromSet_iff {target : DrvId} :
    target ∈ graph.reverseReachableFromSet seeds ↔ (target ∈ seeds ∧ target ∈ graph.nodes.keys) ∨
      ∃ seed ∈ seeds, seed ∈ graph.nodes.keys ∧ target ∈ graph.getAllTransitiveDependents seed := by
  rw [mem_reverseReachableFromSet]
  constructor
  · rintro ⟨seed, asked, resident, path⟩
    by_cases same : target = seed
    · subst same
      exact .inl ⟨asked, resident⟩
    · have strict := (Relation.reflTransGen_iff_eq_or_transGen.mp path).resolve_left same
      exact .inr ⟨seed, asked, resident, mem_getAllTransitiveDependents.mpr ⟨same, strict⟩⟩
  · rintro (⟨asked, resident⟩ | ⟨seed, asked, resident, found⟩)
    · exact ⟨target, asked, resident, .refl⟩
    · exact ⟨seed, asked, resident, (mem_getAllTransitiveDependents.mp found).2.to_reflTransGen⟩

theorem blastRadiusPerSeed_get_of_not_mem {drvId : DrvId} (unasked : drvId ∉ seeds) :
    (graph.blastRadiusPerSeed seeds).get drvId = none := by
  rw [blastRadiusPerSeed]
  induction seeds using List.reverseRecOn with
  | nil => rfl
  | append_singleton rest last ih =>
    rw [List.mem_append, not_or, List.mem_singleton] at unasked
    rw [List.foldl_append, List.foldl_cons, List.foldl_nil, Table.push_get, if_neg unasked.2]
    exact ih unasked.1

/-- Each seed has as many strict dependents as its entry says; a seed that is not
resident has none. -/
theorem blastRadiusPerSeed_get_eq (drvId : DrvId) : (graph.blastRadiusPerSeed seeds).get drvId =
    if drvId ∈ seeds then some {target | graph.StrictDependent drvId target}.ncard else none := by
  split
  · rename_i asked
    rw [blastRadiusPerSeed_get asked, ncard_strictDependent]
    split
    · rfl
    · rename_i absent
      rw [getAllTransitiveDependents_eq_nil (mt LruCache.contains_iff.mpr absent), List.length_nil]
  · rename_i unasked
    exact blastRadiusPerSeed_get_of_not_mem unasked

theorem subset_reverseReachableFromSet {seed : DrvId} (asked : seed ∈ seeds) :
    graph.getAllTransitiveDependents seed ⊆ graph.reverseReachableFromSet seeds := by
  intro target found
  apply mem_reverseReachableFromSet_iff.mpr
  by_cases resident : seed ∈ graph.nodes.keys
  · exact .inr ⟨seed, asked, resident, found⟩
  · rw [getAllTransitiveDependents_eq_nil resident] at found
    cases found

theorem blastRadiusPerSeed_le {seed : DrvId} {count : Nat}
    (answered : (graph.blastRadiusPerSeed seeds).get seed = some count) :
    count ≤ (graph.reverseReachableFromSet seeds).length := by
  rw [blastRadiusPerSeed_get_eq] at answered
  split at answered
  · rename_i asked
    rw [ncard_strictDependent] at answered
    have within := List.subperm_of_subset (getAllTransitiveDependents_nodup graph seed)
      (subset_reverseReachableFromSet asked)
    have bound := within.length_le
    have same := Option.some.inj answered
    omega
  · cases answered

/-- The traversals are exact, whatever the graph. -/
theorem reachesExactly (graph : BuildGraph DrvId) (seeds : List DrvId) : graph.ReachesExactly seeds where
  dependents drvId := ⟨getAllTransitiveDependents_nodup graph drvId, fun _ => mem_getAllTransitiveDependents⟩
  union := ⟨reverseReachableFromSet_nodup graph seeds, fun _ => mem_reverseReachableFromSet_iff⟩
  radius := blastRadiusPerSeed_get_eq
  missing drvId absent := by
    rw [ncard_strictDependent, getAllTransitiveDependents_eq_nil absent, List.length_nil]
  bounded _ _ := blastRadiusPerSeed_le
  unordered others same := by
    constructor
    · apply (List.perm_ext_iff_of_nodup (reverseReachableFromSet_nodup ..) (reverseReachableFromSet_nodup ..)).mpr
      intro target
      simp only [mem_reverseReachableFromSet, same]
    · intro drvId
      simp only [blastRadiusPerSeed_get_eq, same]

end EkaCI.BuildGraph
