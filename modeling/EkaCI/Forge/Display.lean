import EkaCI.Forge.CheckRuns

/-! What the recorded states of the drvs of a check run amount to. Only the severity of
the states counts, as long as no drv is blocked. -/

namespace EkaCI

open Lib

variable {DrvId : Type}

section Severity

variable {first second : List DrvBuildState} {state other : DrvBuildState}

theorem aggregateBuildState_mem (nonempty : first ≠ []) : aggregateBuildState first ∈ first := by
  have found : (first.reverse.maxOn? buildStateSeverity).isSome = true := by
    rw [List.isSome_maxOn?_iff]
    simpa using nonempty
  obtain ⟨worst, same⟩ := Option.isSome_iff_exists.mp found
  rw [aggregateBuildState, same, Option.getD_some]
  exact List.mem_reverse.mp (List.maxOn?_mem same)

theorem severity_le_aggregateBuildState (member : state ∈ first) :
    buildStateSeverity state ≤ buildStateSeverity (aggregateBuildState first) := by
  have member := List.mem_reverse.mpr member
  have bound := List.le_apply_get_maxOn?_of_mem (f := buildStateSeverity) member
  rwa [aggregateBuildState, ← Option.get_eq_getD _ (h := List.isSome_maxOn?_of_mem member)]

theorem aggregateBuildState_singleton : aggregateBuildState [state] = state := rfl

theorem asGhCheckrunState_eq (unblocked : state ≠ .blocked) : state.asGhCheckrunState = buildStateToGraphql state := by
  cases state with
  | completed result => cases result <;> rfl
  | interrupted kind => cases kind <;> rfl
  | blocked => exact absurd rfl unblocked
  | _ => rfl

/-- What a state of the severity is shown as. -/
def displayOfSeverity : Nat → CheckRunDisplay
  | 0 => (.completed, some .success)
  | 1 => (.completed, some .neutral)
  | 2 => (.queued, none)
  | 3 => (.inProgress, none)
  | 4 => (.completed, some .timedOut)
  | _ => (.completed, some .failure)

theorem graphql_of_severity (unblocked : state ≠ .blocked) :
    buildStateToGraphql state = displayOfSeverity (buildStateSeverity state) := by
  cases state with
  | completed result => cases result <;> rfl
  | interrupted kind => cases kind <;> rfl
  | blocked => exact absurd rfl unblocked
  | _ => rfl

theorem severity_aggregateBuildState_le (nonempty : first ≠ [])
    (covered : ∀ state ∈ first, ∃ other ∈ second, buildStateSeverity other = buildStateSeverity state) :
    buildStateSeverity (aggregateBuildState first) ≤ buildStateSeverity (aggregateBuildState second) := by
  obtain ⟨other, member, same⟩ := covered _ (aggregateBuildState_mem nonempty)
  rw [← same]
  exact severity_le_aggregateBuildState member

theorem graphql_aggregate_congr (nonempty : first ≠ []) (unblocked : ∀ state ∈ first, state ≠ .blocked)
    (unblockedToo : ∀ state ∈ second, state ≠ .blocked)
    (forth : ∀ state ∈ first, ∃ other ∈ second, buildStateSeverity other = buildStateSeverity state)
    (back : ∀ state ∈ second, ∃ other ∈ first, buildStateSeverity other = buildStateSeverity state) :
    buildStateToGraphql (aggregateBuildState first) = buildStateToGraphql (aggregateBuildState second) := by
  have nonemptyToo : second ≠ [] := by
    obtain ⟨other, member, -⟩ := forth _ (aggregateBuildState_mem nonempty)
    exact List.ne_nil_of_mem member
  rw [graphql_of_severity (unblocked _ (aggregateBuildState_mem nonempty)),
    graphql_of_severity (unblockedToo _ (aggregateBuildState_mem nonemptyToo))]
  congr 1
  exact Nat.le_antisymm (severity_aggregateBuildState_le nonempty forth) (severity_aggregateBuildState_le nonemptyToo back)

end Severity

namespace ForgeState

/-- The check run is one for the drv, perhaps among others. -/
def Covers (state : ForgeState DrvId) (checkRunId : Nat) (drvId : DrvId) : Prop :=
  (checkRunId, drvId) ∈ state.checkRuns.map CheckRunRow.key

theorem covers_iff {state : ForgeState DrvId} {checkRunId : Nat} {drvId : DrvId} : state.Covers checkRunId drvId ↔
    ∃ row ∈ state.checkRuns, row.checkRunId = checkRunId ∧ row.drvId = drvId := by
  simp [Covers, CheckRunRow.key]

/-- What the tables keep to. No job is stored as removed, and no drv as blocked. -/
structure Grounded (state : ForgeState DrvId) : Prop where
  stored : ∀ job ∈ state.recorder.tables.jobs, (state.rowState job.drvId).isSome = true
  present : ∀ job ∈ state.recorder.tables.jobs, job.difference ≠ .removed
  unblocked : ∀ drvId, state.rowState drvId ≠ some .blocked
  forJobs : ∀ checkRunId drvId, state.Covers checkRunId drvId → ∃ job ∈ state.recorder.tables.jobs, job.drvId = drvId
  numbered : ∀ checkRunId drvId, state.Covers checkRunId drvId → checkRunId < state.fresh

variable [DecidableEq DrvId] {state : ForgeState DrvId} {checkRunId : Nat} {drvId : DrvId} {status : DrvBuildState}

theorem mem_variantStates {variant : DrvId × DrvBuildState} : variant ∈ state.variantStatesForCheckRun checkRunId ↔
    state.Covers checkRunId variant.1 ∧ (∃ job ∈ state.recorder.tables.jobs, job.drvId = variant.1) ∧
      state.rowState variant.1 = some variant.2 := by
  simp only [covers_iff, variantStatesForCheckRun, RecorderState.getJobInfoForDrv, List.mem_flatMap, List.mem_filter,
    List.mem_filterMap, Option.map_eq_some_iff, decide_eq_true_eq]
  obtain ⟨drvId, buildState⟩ := variant
  constructor
  · rintro ⟨row, ⟨member, number⟩, job, ⟨listed, same⟩, _, found, pair⟩
    cases pair
    exact ⟨⟨row, member, number, rfl⟩, ⟨job, listed, same⟩, found⟩
  · rintro ⟨⟨row, member, number, same⟩, ⟨job, listed, own⟩, found⟩
    cases same
    exact ⟨row, ⟨member, number⟩, job, ⟨listed, own⟩, buildState, found, rfl⟩

namespace Grounded

variable (grounded : Grounded state)
include grounded

omit [DecidableEq DrvId] in
theorem row_of_job (listed : ∃ job ∈ state.recorder.tables.jobs, job.drvId = drvId) :
    ∃ buildState, state.rowState drvId = some buildState ∧ buildState ≠ .blocked := by
  obtain ⟨job, member, rfl⟩ := listed
  obtain ⟨buildState, found⟩ := Option.isSome_iff_exists.mp (grounded.stored job member)
  refine ⟨buildState, found, ?_⟩
  rintro rfl
  exact grounded.unblocked _ found

theorem variant_of_covers (covered : state.Covers checkRunId drvId) :
    ∃ buildState, (drvId, buildState) ∈ state.variantStatesForCheckRun checkRunId := by
  have listed := grounded.forJobs _ _ covered
  obtain ⟨buildState, found, -⟩ := grounded.row_of_job listed
  exact ⟨buildState, mem_variantStates.mpr ⟨covered, listed, found⟩⟩

theorem variant_unblocked {buildState : DrvBuildState}
    (member : buildState ∈ (state.variantStatesForCheckRun checkRunId).map Prod.snd) : buildState ≠ .blocked := by
  obtain ⟨variant, listed, rfl⟩ := List.mem_map.mp member
  intro blocked
  have found := (mem_variantStates.mp listed).2.2
  rw [blocked] at found
  exact grounded.unblocked _ found

theorem recordedDisplay_eq {sent : List DrvBuildState} (nonempty : sent ≠ [])
    (unblocked : ∀ buildState ∈ sent, buildState ≠ .blocked)
    (forth : ∀ buildState ∈ sent, ∃ variant ∈ state.variantStatesForCheckRun checkRunId,
      buildStateSeverity variant.2 = buildStateSeverity buildState)
    (back : ∀ variant ∈ state.variantStatesForCheckRun checkRunId, ∃ buildState ∈ sent,
      buildStateSeverity buildState = buildStateSeverity variant.2) :
    state.recordedDisplay checkRunId = buildStateToGraphql (aggregateBuildState sent) := by
  symm
  apply graphql_aggregate_congr nonempty unblocked fun _ member => grounded.variant_unblocked member
  · intro buildState member
    obtain ⟨variant, listed, same⟩ := forth buildState member
    exact ⟨variant.2, List.mem_map_of_mem listed, same⟩
  · intro buildState member
    obtain ⟨variant, listed, rfl⟩ := List.mem_map.mp member
    exact back variant listed

theorem statusFor_eq (covered : state.Covers checkRunId drvId) : state.statusFor drvId status checkRunId =
    aggregateBuildState ((state.variantStatesForCheckRun checkRunId).map fun variant =>
      if variant.1 = drvId then status else variant.2) := by
  obtain ⟨buildState, member⟩ := grounded.variant_of_covers covered
  unfold statusFor
  split
  · rfl
  · -- The drv has a job, so the single variant is its own.
    rename_i single
    match listed : state.variantStatesForCheckRun checkRunId with
    | [] => rw [listed] at member; cases member
    | [variant] =>
      rw [listed, List.mem_singleton] at member
      rw [List.map_singleton, aggregateBuildState_singleton, ← member, if_pos rfl]
    | first :: second :: rest =>
      rw [listed] at single
      exact absurd (Nat.lt_add_left _ (Nat.lt_succ_self 1)) single

theorem statusFor_displayed (covered : state.Covers checkRunId drvId) (unblocked : status ≠ .blocked)
    (alike : ∀ buildState, state.rowState drvId = some buildState →
      buildStateSeverity status = buildStateSeverity buildState) :
    state.statusFor drvId status checkRunId ≠ .blocked ∧
      buildStateToGraphql (state.statusFor drvId status checkRunId) = state.recordedDisplay checkRunId := by
  rw [grounded.statusFor_eq covered]
  have nonempty : ((state.variantStatesForCheckRun checkRunId).map fun variant =>
      if variant.1 = drvId then status else variant.2) ≠ [] := by
    obtain ⟨buildState, member⟩ := grounded.variant_of_covers covered
    exact List.ne_nil_of_mem (List.mem_map_of_mem member)
  have spared : ∀ buildState ∈ (state.variantStatesForCheckRun checkRunId).map fun variant =>
      if variant.1 = drvId then status else variant.2, buildState ≠ .blocked := by
    intro buildState member
    obtain ⟨variant, listed, rfl⟩ := List.mem_map.mp member
    split
    · exact unblocked
    · exact grounded.variant_unblocked (List.mem_map_of_mem listed)
  have severity : ∀ variant ∈ state.variantStatesForCheckRun checkRunId,
      buildStateSeverity (if variant.1 = drvId then status else variant.2) = buildStateSeverity variant.2 := by
    intro variant listed
    split
    · rename_i same
      exact alike _ (same ▸ (mem_variantStates.mp listed).2.2)
    · rfl
  refine ⟨spared _ (aggregateBuildState_mem nonempty), (grounded.recordedDisplay_eq nonempty spared ?_ ?_).symm⟩
  · intro buildState member
    obtain ⟨variant, listed, rfl⟩ := List.mem_map.mp member
    exact ⟨variant, listed, (severity variant listed).symm⟩
  · intro variant listed
    exact ⟨_, List.mem_map_of_mem listed, severity variant listed⟩

end Grounded

theorem recordedDisplay_congr {next : ForgeState DrvId} (grounded : Grounded state) (groundedNext : Grounded next)
    (covered : state.Covers checkRunId drvId)
    (same : ∀ other, next.Covers checkRunId other ↔ state.Covers checkRunId other)
    (alike : ∀ other, state.Covers checkRunId other →
      (next.rowState other).map buildStateSeverity = (state.rowState other).map buildStateSeverity) :
    next.recordedDisplay checkRunId = state.recordedDisplay checkRunId := by
  obtain ⟨buildState, member⟩ := grounded.variant_of_covers covered
  refine groundedNext.recordedDisplay_eq (List.ne_nil_of_mem (List.mem_map_of_mem member))
    (fun _ member => grounded.variant_unblocked member) ?_ ?_
  · intro buildState member
    obtain ⟨⟨other, _⟩, listed, rfl⟩ := List.mem_map.mp member
    obtain ⟨covered, -, found⟩ := mem_variantStates.mp listed
    obtain ⟨later, listed⟩ := groundedNext.variant_of_covers ((same other).mpr covered)
    have severity := alike other covered
    rw [found, (mem_variantStates.mp listed).2.2] at severity
    exact ⟨_, listed, Option.some.inj severity⟩
  · intro ⟨other, later⟩ listed
    obtain ⟨covered, -, found⟩ := mem_variantStates.mp listed
    obtain ⟨earlier, listed⟩ := grounded.variant_of_covers ((same other).mp covered)
    have severity := alike other ((same other).mp covered)
    rw [found, (mem_variantStates.mp listed).2.2] at severity
    exact ⟨_, List.mem_map_of_mem listed, (Option.some.inj severity).symm⟩

end ForgeState

end EkaCI
