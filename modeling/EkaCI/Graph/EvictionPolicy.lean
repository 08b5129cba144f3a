import EkaCI.Graph.StateIndex
import Mathlib.Data.Finset.Sort

/-! Candidates for eviction: drvs in a terminal state that nothing in the cache
depends on, from the safest tier to the least safe one, and the oldest of a tier
first. -/

namespace EkaCI

variable {DrvId : Type}

inductive EvictionTier where
  | tier1
  | tier2
  | tier3
  deriving DecidableEq, Repr

namespace EvictionTier

/-- From the safest one on. -/
def rank : EvictionTier → Nat
  | tier1 => 1
  | tier2 => 2
  | tier3 => 3

def targetState : EvictionTier → DrvBuildState
  | tier1 => .transitiveFailure
  | tier2 => .completed .failure
  | tier3 => .completed .success

def all : List EvictionTier := [tier1, tier2, tier3]

theorem mem_all (tier : EvictionTier) : tier ∈ all := by
  cases tier <;> decide

theorem targetState_injective : Function.Injective targetState := by
  intro first second same
  cases first <;> cases second <;> first | rfl | cases same

end EvictionTier

/-- The minimum ages, in seconds. -/
structure EvictionConfig where
  tier1AgeSecs : Nat
  tier2AgeSecs : Nat
  tier3AgeSecs : Nat

/-- An hour, six hours and a day. -/
def EvictionConfig.default : EvictionConfig where
  tier1AgeSecs := 3600
  tier2AgeSecs := 21600
  tier3AgeSecs := 86400

/-- In the nanoseconds of the clock. -/
def EvictionConfig.minAgeForTier (config : EvictionConfig) (tier : EvictionTier) : Nat :=
  let secs := match tier with
    | .tier1 => config.tier1AgeSecs
    | .tier2 => config.tier2AgeSecs
    | .tier3 => config.tier3AgeSecs
  secs * 1000000000

structure EvictionCandidate (DrvId : Type) where
  drvId : DrvId
  tier : EvictionTier
  age : Nat
  refCount : Nat

/-- What the selector is called with beside the graph, and the time of the call. -/
structure AccessRecords (DrvId : Type) where
  lastAccessed : DrvId → Option Instant
  refCounts : DrvId → Option Nat
  now : Instant

namespace AccessRecords

variable (records : AccessRecords DrvId) (drvId : DrvId)

def refCount : Nat := (records.refCounts drvId).getD 0

/-- An access later than now, like none at all, gives no age. -/
def age : Nat := (records.now - (records.lastAccessed drvId).getD records.now).toNat

end AccessRecords

/-- The order in which the hash sets of the index happen to be iterated. -/
structure StateIteration (graph : BuildGraph DrvId) where
  drvs : DrvBuildState → List DrvId
  nodup : ∀ state, (drvs state).Nodup
  mem : ∀ state drvId, drvId ∈ drvs state ↔ drvId ∈ graph.getDrvsByState state

/-- One such order. -/
def StateIteration.sorted [LinearOrder DrvId] (graph : BuildGraph DrvId) : StateIteration graph where
  drvs state := (graph.getDrvsByState state).sort
  nodup state := Finset.sort_nodup (graph.getDrvsByState state) _
  mem state _ := Finset.mem_sort (s := graph.getDrvsByState state) _

namespace EvictionConfig

variable (config : EvictionConfig) (records : AccessRecords DrvId)

def candidate (tier : EvictionTier) (drvId : DrvId) : Option (EvictionCandidate DrvId) :=
  if records.refCount drvId ≠ 0 then none
  else if records.age drvId < config.minAgeForTier tier then none
  else some ⟨drvId, tier, records.age drvId, records.refCount drvId⟩

variable {graph : BuildGraph DrvId} (iteration : StateIteration graph)

/-- The candidates of a tier, sorted by age; the sort keeps the order of equal ages. -/
def rankTier (tier : EvictionTier) : List (EvictionCandidate DrvId) :=
  ((iteration.drvs tier.targetState).filterMap (config.candidate records tier)).insertionSort fun first second =>
    second.age ≤ first.age

def selectFromTier (tier : EvictionTier) (limit : Nat) : List (EvictionCandidate DrvId) :=
  (config.rankTier records iteration tier).take limit

/-- The loop over the tiers; from the first that finds enough candidates on it does nothing. -/
def selectCandidates (targetCount : Nat) : List (EvictionCandidate DrvId) :=
  (EvictionTier.all.foldl (fun candidates tier =>
    if targetCount ≤ candidates.length then candidates
    else candidates ++ config.selectFromTier records iteration tier (targetCount - candidates.length)) []).take targetCount

variable (graph) in
/-- What a tier may evict. -/
structure Eligible (tier : EvictionTier) (drvId : DrvId) : Prop where
  state : graph.stateOf drvId = some tier.targetState
  unreferenced : records.refCount drvId = 0
  old : config.minAgeForTier tier ≤ records.age drvId

variable (graph) in
/-- The policy that a selection is to follow. -/
structure ObeysPolicy (targetCount : Nat) (candidates : List (EvictionCandidate DrvId)) : Prop where
  count : candidates.length ≤ targetCount
  distinct : (candidates.map EvictionCandidate.drvId).Nodup
  eligible : ∀ candidate ∈ candidates, config.Eligible records graph candidate.tier candidate.drvId ∧
    candidate.age = records.age candidate.drvId ∧ candidate.refCount = 0
  ordered : candidates.Pairwise fun first second =>
    first.tier.rank < second.tier.rank ∨ first.tier = second.tier ∧ second.age ≤ first.age
  /-- With fewer than asked for, nothing eligible is left. -/
  exhaustive : candidates.length < targetCount → ∀ tier drvId, config.Eligible records graph tier drvId →
    ∃ candidate ∈ candidates, candidate.drvId = drvId ∧ candidate.tier = tier
  /-- What is eligible but left out belongs to a later tier than any candidate, or is
  no older than a candidate of its tier. -/
  maximal : ∀ candidate ∈ candidates, ∀ tier drvId, config.Eligible records graph tier drvId →
    (∀ other ∈ candidates, other.drvId ≠ drvId) →
      candidate.tier.rank < tier.rank ∨ candidate.tier = tier ∧ records.age drvId ≤ candidate.age

theorem take_take_append {Candidate : Type} (count : Nat) (first rest : List Candidate) :
    (first.take count ++ rest).take count = (first ++ rest).take count := by
  have spent : count - min count first.length = count - first.length := by omega
  rw [List.take_append, List.take_append, List.take_take, Nat.min_self, List.length_take, spent]

theorem foldl_fill {Tier Candidate : Type} (ranking : Tier → List Candidate) (count : Nat) (tiers : List Tier)
    (picked : List Candidate) (within : picked.length ≤ count) :
    tiers.foldl (fun picked tier =>
      if count ≤ picked.length then picked else picked ++ (ranking tier).take (count - picked.length)) picked =
      (picked ++ tiers.flatMap ranking).take count := by
  induction tiers generalizing picked with
  | nil => rw [List.foldl_nil, List.flatMap_nil, List.append_nil, List.take_of_length_le within]
  | cons tier rest ih =>
    rw [List.foldl_cons, List.flatMap_cons]
    split
    · rename_i full
      rw [ih picked within, List.take_append_of_le_length full, List.take_append_of_le_length full]
    · have grown : (picked ++ (ranking tier).take (count - picked.length)).length ≤ count := by
        rw [List.length_append, List.length_take]
        omega
      rw [ih _ grown, List.append_assoc, List.take_append, take_take_append, ← List.take_append]

/-- All that could be evicted, in the order in which it would be. -/
def ranking : List (EvictionCandidate DrvId) := EvictionTier.all.flatMap (config.rankTier records iteration)

variable {config records iteration}

theorem selectCandidates_eq (targetCount : Nat) :
    config.selectCandidates records iteration targetCount = (config.ranking records iteration).take targetCount := by
  have filled := foldl_fill (config.rankTier records iteration) targetCount EvictionTier.all [] (Nat.zero_le _)
  rw [List.nil_append] at filled
  rw [selectCandidates, ranking]
  simp only [selectFromTier]
  rw [filled, List.take_take, Nat.min_self]

variable {candidate : EvictionCandidate DrvId} {drvId : DrvId} {tier : EvictionTier}

theorem candidate_eq_some :
    config.candidate records tier drvId = some candidate ↔ records.refCount drvId = 0 ∧
      config.minAgeForTier tier ≤ records.age drvId ∧ candidate = ⟨drvId, tier, records.age drvId, 0⟩ := by
  rw [EvictionConfig.candidate]
  by_cases referenced : records.refCount drvId = 0
  · by_cases young : records.age drvId < config.minAgeForTier tier
    · simp [referenced, young]
    · simp [referenced, young, eq_comm]
      omega
  · simp [referenced]

theorem mem_rankTier (indexed : graph.StatesIndexed) :
    candidate ∈ config.rankTier records iteration tier ↔ config.Eligible records graph tier candidate.drvId ∧
      candidate = ⟨candidate.drvId, tier, records.age candidate.drvId, 0⟩ := by
  rw [rankTier, List.mem_insertionSort, List.mem_filterMap]
  simp only [candidate_eq_some, iteration.mem, BuildGraph.getDrvsByState, indexed tier.targetState]
  constructor
  · rintro ⟨drvId, state, unreferenced, old, rfl⟩
    exact ⟨⟨state, unreferenced, old⟩, rfl⟩
  · rintro ⟨eligible, shape⟩
    exact ⟨candidate.drvId, eligible.state, eligible.unreferenced, eligible.old, shape⟩

theorem mem_ranking (indexed : graph.StatesIndexed) :
    candidate ∈ config.ranking records iteration ↔ config.Eligible records graph candidate.tier candidate.drvId ∧
      candidate.age = records.age candidate.drvId ∧ candidate.refCount = 0 := by
  rw [ranking, List.mem_flatMap]
  constructor
  · rintro ⟨tier, -, member⟩
    obtain ⟨eligible, shape⟩ := (mem_rankTier indexed).mp member
    rw [shape]
    exact ⟨eligible, rfl, rfl⟩
  · rintro ⟨eligible, age, refCount⟩
    refine ⟨candidate.tier, EvictionTier.mem_all _, (mem_rankTier indexed).mpr ⟨eligible, ?_⟩⟩
    rw [← age, ← refCount]

theorem exists_ranked (indexed : graph.StatesIndexed) (eligible : config.Eligible records graph tier drvId) :
    ⟨drvId, tier, records.age drvId, 0⟩ ∈ config.ranking records iteration :=
  (mem_ranking indexed).mpr ⟨eligible, rfl, rfl⟩

theorem tier_of_mem_rankTier (member : candidate ∈ config.rankTier records iteration tier) : candidate.tier = tier := by
  rw [rankTier, List.mem_insertionSort, List.mem_filterMap] at member
  obtain ⟨drvId, -, made⟩ := member
  rw [(candidate_eq_some.mp made).2.2]

theorem rankTier_sorted (tier : EvictionTier) :
    (config.rankTier records iteration tier).Pairwise fun first second => second.age ≤ first.age := by
  have total : Std.Total fun first second : EvictionCandidate DrvId => second.age ≤ first.age :=
    ⟨fun first second => Nat.le_total second.age first.age⟩
  have transitive : IsTrans (EvictionCandidate DrvId) fun first second => second.age ≤ first.age :=
    ⟨fun _ _ _ left right => Nat.le_trans right left⟩
  exact List.pairwise_insertionSort _ _

theorem ranking_sorted : (config.ranking records iteration).Pairwise fun first second =>
    first.tier.rank < second.tier.rank ∨ first.tier = second.tier ∧ second.age ≤ first.age := by
  rw [ranking, List.pairwise_flatMap]
  constructor
  · intro tier _
    apply (rankTier_sorted tier).imp_of_mem
    intro first second former latter older
    exact .inr ⟨(tier_of_mem_rankTier former).trans (tier_of_mem_rankTier latter).symm, older⟩
  · have increasing : EvictionTier.all.Pairwise fun first second => first.rank < second.rank := by decide
    apply increasing.imp
    intro former latter earlier first inFormer second inLatter
    rw [tier_of_mem_rankTier inFormer, tier_of_mem_rankTier inLatter]
    exact .inl earlier

theorem rankTier_nodup (tier : EvictionTier) :
    ((config.rankTier records iteration tier).map EvictionCandidate.drvId).Nodup := by
  have sorted := (List.perm_insertionSort (fun first second : EvictionCandidate DrvId => second.age ≤ first.age)
    ((iteration.drvs tier.targetState).filterMap (config.candidate records tier))).map EvictionCandidate.drvId
  have listed : List.Sublist (((iteration.drvs tier.targetState).filterMap (config.candidate records tier)).map
      EvictionCandidate.drvId) (iteration.drvs tier.targetState) := by
    generalize iteration.drvs tier.targetState = drvs
    induction drvs with
    | nil => exact List.Sublist.refl _
    | cons drvId rest ih =>
      cases made : config.candidate records tier drvId with
      | none =>
        rw [List.filterMap_cons_none made]
        exact ih.cons _
      | some candidate =>
        rw [List.filterMap_cons_some made, List.map_cons, (candidate_eq_some.mp made).2.2]
        exact ih.cons_cons _
  exact sorted.nodup_iff.mpr (listed.nodup (iteration.nodup _))

theorem ranking_nodup (indexed : graph.StatesIndexed) :
    ((config.ranking records iteration).map EvictionCandidate.drvId).Nodup := by
  rw [ranking, List.map_flatMap, List.nodup_flatMap]
  constructor
  · exact fun tier _ => rankTier_nodup tier
  · have different : EvictionTier.all.Pairwise (· ≠ ·) := by decide
    apply different.imp
    intro former latter apart drvId inFormer inLatter
    obtain ⟨first, first_ranked, rfl⟩ := List.mem_map.mp inFormer
    obtain ⟨second, second_ranked, same⟩ := List.mem_map.mp inLatter
    have one := ((mem_rankTier indexed).mp first_ranked).1.state
    have other := ((mem_rankTier indexed).mp second_ranked).1.state
    rw [same, one] at other
    exact apart (EvictionTier.targetState_injective (Option.some.inj other))

/-- With a state index that is true to the nodes, the selection follows the policy. -/
theorem selectCandidates_obeysPolicy (indexed : graph.StatesIndexed) (config : EvictionConfig)
    (records : AccessRecords DrvId) (iteration : StateIteration graph) (targetCount : Nat) :
    config.ObeysPolicy records graph targetCount (config.selectCandidates records iteration targetCount) := by
  rw [selectCandidates_eq]
  have sorted := @ranking_sorted _ config records _ iteration
  rw [← List.take_append_drop targetCount (config.ranking records iteration), List.pairwise_append] at sorted
  constructor
  · exact List.length_take_le ..
  · rw [List.map_take]
    exact (ranking_nodup indexed).sublist (List.take_sublist ..)
  · intro candidate chosen
    exact (mem_ranking indexed).mp (List.mem_of_mem_take chosen)
  · exact sorted.1
  · intro fewer tier drvId eligible
    rw [List.length_take] at fewer
    rw [List.take_of_length_le (by omega)]
    exact ⟨_, exists_ranked indexed eligible, rfl, rfl⟩
  · intro candidate chosen tier drvId eligible left
    have ranked := @exists_ranked _ _ _ _ iteration _ _ indexed eligible
    rw [← List.take_append_drop targetCount (config.ranking records iteration), List.mem_append] at ranked
    -- what is ranked and not chosen comes after all that is
    have dropped := ranked.resolve_left fun taken => left _ taken rfl
    exact sorted.2.2 candidate chosen _ dropped

/-- A failed drv and one that it blocks. -/
def failedPair : BuildGraph Nat :=
  (((BuildGraph.new 5 (by decide)).insertNode 0 (.plain 1 (.completed .failure))).2.insertNode 0
    (.plain 2 .transitiveFailure)).2

/-- Seven hours later, with one access in between. -/
def accessedOnce : AccessRecords Nat where
  lastAccessed drvId := if drvId = 1 then some 0 else some 3600000000000
  refCounts _ := none
  now := 7 * 3600000000000

theorem failedPair_indexed : failedPair.StatesIndexed := by
  have first := ((BuildGraph.Indexed.new 5 (by decide)).insertNode_iff 0 (.plain 1 (.completed .failure))).mpr
    (Nat.lt_of_sub_eq_succ rfl)
  have second := (first.insertNode_iff 0 (.plain 2 .transitiveFailure)).mpr (Nat.lt_of_sub_eq_succ rfl)
  exact second.statesIndexed

theorem failedPair_obeysPolicy : default.ObeysPolicy accessedOnce failedPair 2
    (default.selectCandidates accessedOnce (StateIteration.sorted failedPair) 2) :=
  selectCandidates_obeysPolicy failedPair_indexed default accessedOnce _ 2

end EvictionConfig

end EkaCI
