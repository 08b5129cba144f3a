import EkaCI.Channels.Evaluator
import Mathlib.Data.String.Basic

/-! What a promotion decision says, and that it neither depends on the order of the lists
nor is taken back when more builds have ended. -/

namespace EkaCI

namespace RequiredResults

variable {results : RequiredResults} {name : String} {state : DrvBuildState}

/-- The names of an ordered map. -/
def Ordered (results : RequiredResults) : Prop := results.Pairwise fun first second => first.1 < second.1

theorem mem_insert {result : String × DrvBuildState} : result ∈ results.insert name state ↔
    result = (name, state) ∨ (result ∈ results ∧ result.1 ≠ name) := by
  rw [insert, List.mem_orderedInsert, List.mem_filter, decide_eq_true_eq]

theorem Ordered.insert (ordered : results.Ordered) (name : String) (state : DrvBuildState) :
    (results.insert name state).Ordered := by
  have apart : ∀ result ∈ results.filter fun result => result.1 ≠ name, result.1 ≠ name := fun result member =>
    of_decide_eq_true (List.mem_filter.mp member).2
  have kept : (results.filter fun result => result.1 ≠ name).Pairwise fun first second => first.1 < second.1 :=
    ordered.filter _
  rw [RequiredResults.insert]
  revert apart kept
  generalize (results.filter fun result => result.1 ≠ name) = others
  intro apart kept
  induction others with
  | nil => exact List.pairwise_singleton _ _
  | cons head rest ih =>
    obtain ⟨below, kept⟩ := List.pairwise_cons.mp kept
    rw [List.orderedInsert_cons]
    split
    next before =>
      have first : name < head.1 := lt_of_le_of_ne before fun same => apart head List.mem_cons_self same.symm
      refine List.pairwise_cons.mpr ⟨fun other member => ?_, List.pairwise_cons.mpr ⟨below, kept⟩⟩
      obtain rfl | later := List.mem_cons.mp member
      · exact first
      · exact first.trans (below other later)
    next after =>
      refine List.pairwise_cons.mpr ⟨fun other member => ?_, ih (fun other member => ?_) kept⟩
      · obtain rfl | later := (List.mem_orderedInsert _).mp member
        · exact lt_of_not_ge after
        · exact below other later
      · exact apart other (List.mem_cons_of_mem _ member)

theorem Ordered.ext {other : RequiredResults} (ordered : results.Ordered) (ordered' : other.Ordered)
    (same : ∀ result, result ∈ results ↔ result ∈ other) : results = other := by
  have irreflexive : Std.Irrefl fun first second : String × DrvBuildState => first.1 < second.1 :=
    ⟨fun result => lt_irrefl result.1⟩
  have asymmetric : Std.Antisymm fun first second : String × DrvBuildState => first.1 < second.1 :=
    ⟨fun _ _ below above => absurd (below.trans above) (lt_irrefl _)⟩
  exact List.Pairwise.eq_of_mem_iff ordered ordered' fun {result} => same result

end RequiredResults

namespace Evaluator

variable {jobStates : JobStates}

/-- A job that has ended without success. -/
def Failed (jobStates : JobStates) (name : String) : Prop :=
  ∃ state, jobStates name = some state ∧ state.isTerminal = true ∧ state ≠ .completed .success

theorem hasFailed_iff {name : String} : hasFailed jobStates name = true ↔ Failed jobStates name := by
  rw [hasFailed, Failed]
  cases jobStates name with
  | none => simp
  | some state =>
    cases state with
    | completed result => cases result <;> simp [DrvBuildState.isFailure, DrvBuildState.isTerminal]
    | _ => simp [DrvBuildState.isFailure, DrvBuildState.isTerminal]

theorem isPending_iff {name : String} :
    (!hasFailed jobStates name && jobStates name ≠ some (.completed .success)) = !isFinished jobStates name := by
  rw [hasFailed, isFinished]
  cases jobStates name with
  | none => rfl
  | some state =>
    cases state with
    | completed result => cases result <;> rfl
    | _ => rfl

/-- The results name the required jobs that have ended, whatever has become of them. -/
structure Records (jobStates : JobStates) (names : List String) (results : RequiredResults) : Prop where
  ordered : results.Ordered
  entries : ∀ result, result ∈ results ↔
    result.1 ∈ names ∧ jobStates result.1 = some result.2 ∧ result.2.isTerminal = true

theorem requiredResults_visit (tally : Tally) (name : String) :
    (∃ state, jobStates name = some state ∧ state.isTerminal = true ∧
      (tally.visit jobStates name).requiredResults = tally.requiredResults.insert name state) ∨
    (isFinished jobStates name = false ∧ (tally.visit jobStates name).requiredResults = tally.requiredResults) := by
  rw [isFinished, Tally.visit]
  cases jobStates name with
  | none => exact .inr ⟨rfl, rfl⟩
  | some state =>
    cases state with
    | completed result => cases result <;> exact .inl ⟨_, rfl, rfl, rfl⟩
    | interrupted | transitiveFailure | unsatisfiableRequirements => exact .inl ⟨_, rfl, rfl, rfl⟩
    | _ => exact .inr ⟨rfl, rfl⟩

theorem records_foldl (jobStates : JobStates) (names : List String) :
    Records jobStates names (names.foldl (Tally.visit jobStates) {}).requiredResults := by
  induction names using List.reverseRecOn with
  | nil => exact ⟨List.Pairwise.nil, fun _ => iff_of_false List.not_mem_nil fun ⟨member, _⟩ => List.not_mem_nil member⟩
  | append_singleton names name ih =>
    rw [List.foldl_append, List.foldl_cons, List.foldl_nil]
    obtain ⟨state, found, terminal, visited⟩ | ⟨pending, visited⟩ :=
      @requiredResults_visit jobStates (names.foldl (Tally.visit jobStates) {}) name
    · rw [visited]
      refine ⟨ih.ordered.insert name state, fun result => ?_⟩
      rw [RequiredResults.mem_insert, ih.entries, List.mem_append, List.mem_singleton]
      constructor
      · rintro (rfl | ⟨⟨member, rest⟩, -⟩)
        · exact ⟨.inr rfl, found, terminal⟩
        · exact ⟨.inl member, rest⟩
      · rintro ⟨member, stored, ended⟩
        by_cases same : result.1 = name
        · left
          rw [same, found] at stored
          exact Prod.ext same (Option.some.inj stored).symm
        · exact .inr ⟨⟨member.resolve_right same, stored, ended⟩, same⟩
    · rw [visited]
      refine ⟨ih.ordered, fun result => ?_⟩
      rw [ih.entries, List.mem_append, List.mem_singleton]
      refine and_congr_left fun ⟨stored, ended⟩ => ⟨Or.inl, fun member => member.resolve_right ?_⟩
      rintro rfl
      rw [isFinished, stored, Option.any_some, ended] at pending
      cases pending

variable {names : List String}

theorem Records.ext {other : JobStates} {names' : List String} {results results' : RequiredResults}
    (records : Records jobStates names results) (records' : Records other names' results')
    (same : ∀ name state, state.isTerminal = true →
      (name ∈ names ∧ jobStates name = some state ↔ name ∈ names' ∧ other name = some state)) :
    results = results' := by
  refine records.ordered.ext records'.ordered fun result => ?_
  rw [records.entries, records'.entries, ← and_assoc, ← and_assoc]
  exact and_congr_left fun ended => same _ _ ended

theorem mem_sorted {name : String} : name ∈ sorted names ↔ name ∈ names := List.mem_insertionSort _

theorem sorted_perm {others : List String} (perm : names.Perm others) : sorted names = sorted others := by
  have permuted : (sorted names).Perm (sorted others) :=
    ((List.perm_insertionSort _ names).trans perm).trans (List.perm_insertionSort _ others).symm
  exact permuted.eq_of_pairwise (fun _ _ _ _ => le_antisymm) (List.pairwise_insertionSort _ names)
    (List.pairwise_insertionSort _ others)

theorem unfinished_eq_nil :
    names.filter (!isFinished jobStates ·) = [] ↔ ∀ name ∈ names, isFinished jobStates name = true := by
  simp [List.filter_eq_nil_iff]

/-- More builds have ended, and those that had ended before are as they were. -/
def Advances (jobStates later : JobStates) : Prop :=
  ∀ name state, jobStates name = some state → state.isTerminal = true → later name = some state

variable {later : JobStates} {name : String}

theorem Advances.failed (advances : Advances jobStates later) (failed : Failed jobStates name) : Failed later name := by
  obtain ⟨state, found, terminal, unlike⟩ := failed
  exact ⟨state, advances name state found terminal, terminal, unlike⟩

theorem Advances.finished (advances : Advances jobStates later) (finished : isFinished jobStates name = true) :
    isFinished later name = true := by
  obtain ⟨state, found, terminal⟩ := (Option.any_eq_true _ _).mp finished
  rw [isFinished, advances name state found terminal]
  exact terminal

end Evaluator

namespace ChannelConfig

open Evaluator

/-- What a decision says, and that it stands. -/
structure DecidesWell (channel : ChannelConfig) (jobStates : JobStates) : Prop where
  blocked : (evaluatePromotion channel jobStates).isBlocked = true ↔ ∃ name ∈ channel.required, Failed jobStates name
  offenders : ∀ failed results, evaluatePromotion channel jobStates = .blocked failed results →
    (∀ name, name ∈ failed ↔ name ∈ channel.required ∧ Failed jobStates name) ∧ failed.Pairwise (· ≤ ·)
  ready : (evaluatePromotion channel jobStates).isReady = true ↔
    (∀ name ∈ channel.required, jobStates name = some (.completed .success)) ∧
      ∀ name ∈ channel.packages, isFinished jobStates name = true
  results : ∀ results, evaluatePromotion channel jobStates = .ready results →
    Records jobStates channel.required results
  waiting : (∃ required packages, evaluatePromotion channel jobStates = .waiting required packages) ↔
    (∀ name ∈ channel.required, ¬ Failed jobStates name) ∧
      ∃ name ∈ channel.required ++ channel.packages, isFinished jobStates name = false
  pending : ∀ required packages, evaluatePromotion channel jobStates = .waiting required packages →
    (∀ name, name ∈ required ↔ name ∈ channel.required ∧ isFinished jobStates name = false) ∧
      ∀ name, name ∈ packages ↔ name ∈ channel.packages ∧ isFinished jobStates name = false
  unordered : ∀ other : ChannelConfig, channel.required.Perm other.required → channel.packages.Perm other.packages →
    evaluatePromotion other jobStates = evaluatePromotion channel jobStates
  staysReady : ∀ later, Advances jobStates later → ∀ results, evaluatePromotion channel jobStates = .ready results →
    evaluatePromotion channel later = .ready results
  staysBlocked : ∀ later, Advances jobStates later → ∀ failed results,
    evaluatePromotion channel jobStates = .blocked failed results →
      ∃ more others, evaluatePromotion channel later = .blocked more others ∧ failed ⊆ more

/-- The map of the required jobs that have ended. -/
def results (channel : ChannelConfig) (jobStates : JobStates) : RequiredResults :=
  (channel.required.foldl (Tally.visit jobStates) {}).requiredResults

theorem evaluatePromotion_cases (channel : ChannelConfig) (jobStates : JobStates) :
    ((∃ name ∈ channel.required, Failed jobStates name) ∧
      evaluatePromotion channel jobStates =
        .blocked (sorted (channel.required.filter (hasFailed jobStates))) (channel.results jobStates)) ∨
    ((∀ name ∈ channel.required, ¬ Failed jobStates name) ∧
      (∀ name ∈ channel.required ++ channel.packages, isFinished jobStates name = true) ∧
      evaluatePromotion channel jobStates = .ready (channel.results jobStates)) ∨
    ((∀ name ∈ channel.required, ¬ Failed jobStates name) ∧
      (∃ name ∈ channel.required ++ channel.packages, isFinished jobStates name = false) ∧
      evaluatePromotion channel jobStates =
        .waiting (sorted (channel.required.filter (!isFinished jobStates ·)))
          (sorted (channel.packages.filter (!isFinished jobStates ·)))) := by
  obtain ⟨failed, pending⟩ := @foldl_visit jobStates channel.required {}
  simp only [isPending_iff, List.nil_append] at failed pending
  simp only [evaluatePromotion, failed, pending]
  by_cases stopped : channel.required.filter (hasFailed jobStates) = []
  · have none : ∀ name ∈ channel.required, ¬ Failed jobStates name := fun name member =>
      mt hasFailed_iff.mpr (List.filter_eq_nil_iff.mp stopped name member)
    right
    rw [if_neg (not_not.mpr stopped)]
    by_cases all : (channel.required.filter (!isFinished jobStates ·)) = [] ∧
        (channel.packages.filter (!isFinished jobStates ·)) = []
    · refine .inl ⟨none, ?_, if_pos all⟩
      rw [← unfinished_eq_nil, List.filter_append, all.1, all.2]
      rfl
    · refine .inr ⟨none, ?_, if_neg all⟩
      rw [← List.append_eq_nil_iff, ← List.filter_append, unfinished_eq_nil] at all
      push Not at all
      simpa using all
  · left
    rw [if_pos stopped]
    obtain ⟨name, member⟩ := List.exists_mem_of_ne_nil _ stopped
    obtain ⟨member, failed⟩ := List.mem_filter.mp member
    exact ⟨⟨name, member, hasFailed_iff.mp failed⟩, rfl⟩

variable {channel : ChannelConfig} {jobStates : JobStates}
variable {others : RequiredResults} {later : JobStates} {failed : List String}

theorem of_blocked (blocked : evaluatePromotion channel jobStates = .blocked failed others) :
    failed = sorted (channel.required.filter (hasFailed jobStates)) := by
  obtain ⟨-, decided⟩ | ⟨-, -, decided⟩ | ⟨-, -, decided⟩ := evaluatePromotion_cases channel jobStates <;>
    rw [decided] at blocked <;> cases blocked
  rfl

theorem of_ready (ready : evaluatePromotion channel jobStates = .ready others) :
    (∀ name ∈ channel.required, ¬ Failed jobStates name) ∧
      (∀ name ∈ channel.required ++ channel.packages, isFinished jobStates name = true) ∧
      others = channel.results jobStates := by
  obtain ⟨-, decided⟩ | ⟨none, all, decided⟩ | ⟨-, -, decided⟩ := evaluatePromotion_cases channel jobStates <;>
    rw [decided] at ready <;> cases ready
  exact ⟨none, all, rfl⟩

theorem of_waiting {required packages : List String}
    (waiting : evaluatePromotion channel jobStates = .waiting required packages) :
    ((∀ name ∈ channel.required, ¬ Failed jobStates name) ∧
      ∃ name ∈ channel.required ++ channel.packages, isFinished jobStates name = false) ∧
      required = sorted (channel.required.filter (!isFinished jobStates ·)) ∧
      packages = sorted (channel.packages.filter (!isFinished jobStates ·)) := by
  obtain ⟨-, decided⟩ | ⟨-, -, decided⟩ | ⟨none, unfinished, decided⟩ := evaluatePromotion_cases channel jobStates <;>
    rw [decided] at waiting <;> cases waiting
  exact ⟨⟨none, unfinished⟩, rfl, rfl⟩

theorem evaluatePromotion_ready (none : ∀ name ∈ channel.required, ¬ Failed jobStates name)
    (all : ∀ name ∈ channel.required ++ channel.packages, isFinished jobStates name = true) :
    evaluatePromotion channel jobStates = .ready (channel.results jobStates) := by
  obtain ⟨⟨name, member, failed⟩, -⟩ | ⟨-, -, decided⟩ | ⟨-, ⟨name, member, unfinished⟩, -⟩ :=
    evaluatePromotion_cases channel jobStates
  · exact absurd failed (none name member)
  · exact decided
  · rw [all name member] at unfinished
    cases unfinished

theorem evaluatePromotion_blocked (failed : ∃ name ∈ channel.required, Failed jobStates name) :
    evaluatePromotion channel jobStates =
      .blocked (sorted (channel.required.filter (hasFailed jobStates))) (channel.results jobStates) := by
  obtain ⟨name, member, failed⟩ := failed
  obtain ⟨-, decided⟩ | ⟨none, -⟩ | ⟨none, -⟩ := evaluatePromotion_cases channel jobStates
  · exact decided
  · exact absurd failed (none name member)
  · exact absurd failed (none name member)

theorem evaluatePromotion_waiting (none : ∀ name ∈ channel.required, ¬ Failed jobStates name)
    (unfinished : ∃ name ∈ channel.required ++ channel.packages, isFinished jobStates name = false) :
    evaluatePromotion channel jobStates =
      .waiting (sorted (channel.required.filter (!isFinished jobStates ·)))
        (sorted (channel.packages.filter (!isFinished jobStates ·))) := by
  obtain ⟨⟨name, member, failed⟩, -⟩ | ⟨-, all, -⟩ | ⟨-, -, decided⟩ := evaluatePromotion_cases channel jobStates
  · exact absurd failed (none name member)
  · obtain ⟨name, member, unfinished⟩ := unfinished
    rw [all name member] at unfinished
    cases unfinished
  · exact decided

theorem evaluatePromotion_perm {other : ChannelConfig} (required : channel.required.Perm other.required)
    (packages : channel.packages.Perm other.packages) :
    evaluatePromotion other jobStates = evaluatePromotion channel jobStates := by
  have results : other.results jobStates = channel.results jobStates :=
    (records_foldl jobStates other.required).ext (records_foldl jobStates channel.required) fun name _ _ =>
      and_congr_left fun _ => required.symm.mem_iff
  have members (name : String) : name ∈ other.required ++ other.packages ↔ name ∈ channel.required ++ channel.packages :=
    (required.append packages).symm.mem_iff
  obtain ⟨⟨name, member, failed⟩, decided⟩ | ⟨none, all, decided⟩ | ⟨none, ⟨name, member, unfinished⟩, decided⟩ :=
    evaluatePromotion_cases channel jobStates
  · rw [decided, evaluatePromotion_blocked ⟨name, required.mem_iff.mp member, failed⟩, results,
      sorted_perm (required.filter _)]
  · rw [decided, evaluatePromotion_ready (fun name member => none name (required.mem_iff.mpr member))
      (fun name member => all name ((members name).mp member)), results]
  · rw [decided, evaluatePromotion_waiting (fun name member => none name (required.mem_iff.mpr member))
      ⟨name, (members name).mpr member, unfinished⟩, sorted_perm (required.filter _), sorted_perm (packages.filter _)]

theorem ready_of_advances (advances : Advances jobStates later)
    (ready : evaluatePromotion channel jobStates = .ready others) : evaluatePromotion channel later = .ready others := by
  obtain ⟨none, all, rfl⟩ := of_ready ready
  have kept : ∀ name ∈ channel.required, later name = jobStates name := by
    intro name member
    obtain ⟨state, found, terminal⟩ := (Option.any_eq_true _ _).mp (all name (List.mem_append_left _ member))
    rw [found, advances name state found terminal]
  have results : channel.results later = channel.results jobStates :=
    (records_foldl later channel.required).ext (records_foldl jobStates channel.required) fun name _ _ =>
      and_congr_right fun member => by rw [kept name member]
  rw [evaluatePromotion_ready ?_ fun name member => advances.finished (all name member), results]
  intro name member ⟨state, found, failed⟩
  exact none name member ⟨state, kept name member ▸ found, failed⟩

theorem blocked_of_advances (advances : Advances jobStates later)
    (blocked : evaluatePromotion channel jobStates = .blocked failed others) :
    ∃ more others, evaluatePromotion channel later = .blocked more others ∧ failed ⊆ more := by
  obtain rfl := of_blocked blocked
  have stopped : ∃ name ∈ channel.required, Failed jobStates name := by
    rw [← exists_congr fun name => and_congr_right fun _ => hasFailed_iff, ← isBlocked_iff, blocked]
    rfl
  obtain ⟨name, member, failed⟩ := stopped
  refine ⟨_, _, evaluatePromotion_blocked ⟨name, member, advances.failed failed⟩, fun name stopped => ?_⟩
  rw [mem_sorted, List.mem_filter, hasFailed_iff] at stopped ⊢
  exact ⟨stopped.1, advances.failed stopped.2⟩

theorem decidesWell (channel : ChannelConfig) (jobStates : JobStates) : channel.DecidesWell jobStates where
  blocked := isBlocked_iff.trans (exists_congr fun _ => and_congr_right fun _ => hasFailed_iff)
  offenders failed results blocked := by
    obtain rfl := of_blocked blocked
    refine ⟨fun name => ?_, List.pairwise_insertionSort _ _⟩
    rw [mem_sorted, List.mem_filter, hasFailed_iff]
  ready := isReady_iff
  results results ready := by
    obtain ⟨-, -, rfl⟩ := of_ready ready
    exact records_foldl jobStates channel.required
  waiting :=
    ⟨fun ⟨_, _, waiting⟩ => (of_waiting waiting).1, fun unfinished =>
      ⟨_, _, evaluatePromotion_waiting unfinished.1 unfinished.2⟩⟩
  pending required packages waiting := by
    obtain ⟨-, rfl, rfl⟩ := of_waiting waiting
    constructor <;> intro name <;> rw [mem_sorted, List.mem_filter, Bool.not_eq_true']
  unordered _ := evaluatePromotion_perm
  staysReady _ advances _ := ready_of_advances advances
  staysBlocked _ advances _ _ := blocked_of_advances advances

end ChannelConfig

end EkaCI
