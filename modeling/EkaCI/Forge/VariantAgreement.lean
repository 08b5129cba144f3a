import EkaCI.Forge.VariantGroups

/-! When the two ways to form the groups of a jobset agree: the patterns of the database also match
other names, its joins go over the drvs, which jobsets share, and a blocked drv counts as a queued
one but is shown as a failed one. -/

namespace EkaCI

open Lib

variable {DrvId : Type}

theorem like_append {pattern text : List Char} (fits : like pattern text = true) (front : List Char) :
    like (front ++ pattern) (front ++ text) = true := by
  induction front with
  | nil => exact fits
  | cons first rest ih =>
    rw [List.cons_append, List.cons_append]
    unfold like
    split
    next none => cases none
    next same =>
      obtain ⟨rfl, rfl⟩ := List.cons.inj same
      exact List.any_eq_true.mpr ⟨rest ++ text, (List.mem_tails _ _).mpr (List.suffix_cons _ _), ih⟩
    next same =>
      obtain ⟨rfl, rfl⟩ := List.cons.inj same
      exact ih
    next same =>
      obtain ⟨rfl, rfl⟩ := List.cons.inj same
      rw [List.head?_cons, Option.any_some, decide_eq_true rfl, List.tail_cons, ih]
      rfl

theorem takeWhile_append_dot {name : List Char} (dotted : '.' ∈ name) :
    ∃ rest, name = name.takeWhile (· ≠ '.') ++ '.' :: rest := by
  induction name with
  | nil => cases dotted
  | cons first others ih =>
    by_cases same : first = '.'
    · subst same
      exact ⟨others, rfl⟩
    · have later : '.' ∈ others := (List.mem_cons.mp dotted).resolve_left (Ne.symm same)
      obtain ⟨rest, split⟩ := ih later
      refine ⟨rest, ?_⟩
      rw [List.takeWhile_cons_of_pos (by simpa using same), List.cons_append, ← split]

theorem inGroup_of_groupPrefix {group name : String} (named : GitHubHandler.groupPrefix name = some group) :
    inGroup group name = true := by
  rw [GitHubHandler.groupPrefix] at named
  split at named
  next dotted =>
    cases named
    obtain ⟨rest, split⟩ := takeWhile_append_dot dotted
    rw [inGroup, String.toList_ofList]
    conv => lhs; arg 2; rw [split]
    refine like_append ?_ _
    have all : like ['%'] rest = true := List.any_eq_true.mpr ⟨[], (List.mem_tails _ _).mpr List.nil_suffix, rfl⟩
    exact all
  next => cases named

namespace ForgeState

variable [DecidableEq DrvId]

/-- The part of the tables that a group is formed from. -/
def Kept (state : ForgeState DrvId) : Prop := state.recorder.Keyed ∧ (state.checkRuns.map CheckRunRow.key).Nodup

theorem Kept.answer {state : ForgeState DrvId} (kept : state.Kept) (answers : CheckRunAnswers) {R : Type}
    (question : GitHubCall DrvId R) : (ForgeState.answer answers R question state).2.Kept := by
  cases question with
  | getJobsetInfo jobsetId =>
    rw [ForgeState.answer]
    split <;> exact kept
  | insertCheckRunInfoWithNodeId checkRunId drvId nodeId =>
    rw [ForgeState.answer, ForgeState.insertCheckRunInfoWithNodeId]
    split
    · exact kept
    · exact ⟨kept.1, nodup_insertIgnore kept.2⟩
  | _ => exact kept

omit [DecidableEq DrvId] in
theorem Kept.foldl_publish {state : ForgeState DrvId} (kept : state.Kept)
    (display : ForgeState DrvId → CheckRunRow DrvId → CheckRunDisplay) (rows : List (CheckRunRow DrvId)) :
    (rows.foldl (fun state row => state.publish row.checkRunId (display state row)) state).Kept := by
  induction rows generalizing state with
  | nil => exact kept
  | cons row rest ih => exact ih kept

theorem Kept.handleGithubTask {state : ForgeState DrvId} (kept : state.Kept) (answers : CheckRunAnswers)
    (task : GitHubTask DrvId) : (state.handleGithubTask answers task).Kept := by
  cases task with
  | updateBuildStatus drvId status => exact kept.foldl_publish _ _
  | updateBuildStatusWithSizeWarning drvId result => exact kept.foldl_publish _ _
  | createFailureCheckRun drvId jobsetId jobAttrName difference =>
    exact Handler.perform_keeps (fun _ question _ kept => kept.answer answers question) (fun _ _ kept => kept) kept
  | _ => exact kept

end ForgeState

namespace GateHistory

section Jobs

variable (jobsetId : Nat) (group : String)

/-- The job is in the group by its name. -/
def OfGroup (job : Job DrvId) : Prop := job.jobset = jobsetId ∧ GitHubHandler.groupPrefix job.name = some group

/-- The job is found by the pattern of the group. -/
def Matched (job : Job DrvId) : Prop := job.jobset = jobsetId ∧ inGroup group job.name = true

instance (job : Job DrvId) : Decidable (OfGroup jobsetId group job) := inferInstanceAs (Decidable (_ ∧ _))

instance (job : Job DrvId) : Decidable (Matched jobsetId group job) := inferInstanceAs (Decidable (_ ∧ _))

end Jobs

variable [DecidableEq DrvId] (history : GateHistory DrvId) (jobsetId : Nat) (group : String)

def jobs : List (Job DrvId) := history.forge.recorder.tables.jobs

/-- A drv of the check run is the drv of the job. -/
def Gated (checkRunId : Nat) (job : Job DrvId) : Prop :=
  ∃ row ∈ history.forge.checkRuns, row.checkRunId = checkRunId ∧ row.drvId = job.drvId

/-- Blocked drvs, and others that count as much and are shown in another way. -/
def Mixed (states : List DrvBuildState) : Prop :=
  .blocked ∈ states ∧ (.queued ∈ states ∨ .buildable ∈ states) ∧ ∀ state ∈ states, buildStateSeverity state ≤ 2

def DrvOfGroup (drvId : DrvId) : Prop := ∃ job ∈ history.jobs, OfGroup jobsetId group job ∧ job.drvId = drvId

def DrvOfCheckRun (checkRunId : Nat) (drvId : DrvId) : Prop :=
  ∃ row ∈ history.forge.checkRuns, row.checkRunId = checkRunId ∧ row.drvId = drvId

/-- The names of the group are told apart by its pattern, its drvs are told apart from those of
other check runs and of other jobs, and the worst of its states are shown alike. -/
structure Apart : Prop where
  /-- The pattern matches no other name of the jobset. -/
  exactly : ∀ job ∈ history.jobs, Matched jobsetId group job → OfGroup jobsetId group job
  /-- A drv of the group is in no check run but the gate. -/
  own : ∀ checkRunId drvId, history.DrvOfCheckRun checkRunId drvId → history.DrvOfGroup jobsetId group drvId →
    ⟨checkRunId, jobsetId, group⟩ ∈ history.gates
  /-- The gate has all drvs of the group. -/
  complete : ∀ checkRunId, ⟨checkRunId, jobsetId, group⟩ ∈ history.gates →
    ∀ drvId, history.DrvOfGroup jobsetId group drvId → history.DrvOfCheckRun checkRunId drvId
  /-- No job of another name or another jobset is built by a drv of the gate. -/
  unshared : ∀ checkRunId, ⟨checkRunId, jobsetId, group⟩ ∈ history.gates →
    ∀ job ∈ history.jobs, history.DrvOfCheckRun checkRunId job.drvId → OfGroup jobsetId group job
  /-- No drv is blocked while another one is queued or buildable and none is worse. -/
  alike : ¬ Mixed ((history.variants jobsetId group).map NewOrChangedJob.buildState)

variable {history jobsetId group}

section Jobs

omit [DecidableEq DrvId]

theorem name_of_loadJob {job : Job DrvId} {loaded : NewOrChangedJob DrvId} (loads : history.forge.loadJob job = some loaded) :
    loaded.name = job.name ∧ loaded.drvId = job.drvId ∧ history.forge.rowState job.drvId = some loaded.buildState := by
  obtain ⟨buildState, row, rfl⟩ := Option.map_eq_some_iff.mp loads
  exact ⟨rfl, rfl, row⟩

theorem filter_loadJob (jobs : List (Job DrvId)) :
    ((jobs.filter fun job => job.jobset = jobsetId).filterMap history.forge.loadJob).filter
        (fun job => job.groupPrefix = some group) =
      (jobs.filter fun job => OfGroup jobsetId group job).filterMap history.forge.loadJob := by
  induction jobs with
  | nil => rfl
  | cons job rest ih =>
    by_cases own : job.jobset = jobsetId
    · rw [List.filter_cons_of_pos (by simpa using own)]
      cases loads : history.forge.loadJob job with
      | none =>
        rw [List.filterMap_cons_none loads, ih]
        by_cases named : OfGroup jobsetId group job
        · rw [List.filter_cons_of_pos (by simpa using named), List.filterMap_cons_none loads]
        · rw [List.filter_cons_of_neg (by simpa using named)]
      | some loaded =>
        rw [List.filterMap_cons_some loads]
        have same : loaded.groupPrefix = GitHubHandler.groupPrefix job.name := by
          rw [NewOrChangedJob.groupPrefix, (name_of_loadJob loads).1]
        by_cases named : GitHubHandler.groupPrefix job.name = some group
        · have inside : OfGroup jobsetId group job := ⟨own, named⟩
          rw [List.filter_cons_of_pos (by simpa [same] using named), List.filter_cons_of_pos (by simpa using inside),
            List.filterMap_cons_some loads, ih]
        · have outside : ¬ OfGroup jobsetId group job := fun inside => named inside.2
          rw [List.filter_cons_of_neg (by simpa [same] using named), List.filter_cons_of_neg (by simpa using outside), ih]
    · have outside : ¬ OfGroup jobsetId group job := fun inside => own inside.1
      rw [List.filter_cons_of_neg (by simpa using own), List.filter_cons_of_neg (by simpa using outside), ih]

theorem variants_eq : history.variants jobsetId group =
    (history.jobs.filter fun job => OfGroup jobsetId group job).filterMap history.forge.loadJob := by
  have named : variantsNamed (groupJobsByPrefix (history.forge.jobsInJobset jobsetId)).1 group =
      groupOf (gatherGroups NewOrChangedJob.groupPrefix (history.forge.jobsInJobset jobsetId)) group := by
    rw [variantsNamed, groupJobsByPrefix, groupOf, List.find?_map, Option.map_map]
    rfl
  rw [variants, named, groupOf_gatherGroups]
  exact filter_loadJob history.jobs

theorem getGroupJobsInJobset_eq : history.forge.getGroupJobsInJobset jobsetId group =
    (history.jobs.filter fun job => Matched jobsetId group job).filterMap history.forge.loadJob := by
  rw [ForgeState.getGroupJobsInJobset]
  congr 1
  refine List.filter_congr fun job _ => Bool.eq_iff_iff.mpr ?_
  rw [decide_eq_true_eq, Bool.and_eq_true, decide_eq_true_eq]
  rfl

/-- What the tables keep to in every run. -/
structure Kept (history : GateHistory DrvId) : Prop where
  keyed : history.forge.recorder.Keyed
  unique : (history.forge.checkRuns.map CheckRunRow.key).Nodup

theorem Kept.loadJob (kept : history.Kept) {job : Job DrvId} (member : job ∈ history.jobs) :
    ∃ loaded, history.forge.loadJob job = some loaded := by
  obtain ⟨buildState, row⟩ := Option.isSome_iff_exists.mp (kept.keyed.linked job member)
  exact ⟨_, Option.map_eq_some_iff.mpr ⟨buildState, row, rfl⟩⟩

theorem OfGroup.matched {job : Job DrvId} (inside : OfGroup jobsetId group job) : Matched jobsetId group job :=
  ⟨inside.1, inGroup_of_groupPrefix inside.2⟩

theorem loaded_iff (kept : history.Kept) :
    (history.forge.getGroupJobsInJobset jobsetId group).Perm (history.variants jobsetId group) ↔
      ∀ job ∈ history.jobs, Matched jobsetId group job → OfGroup jobsetId group job := by
  rw [getGroupJobsInJobset_eq, variants_eq]
  constructor
  · intro same job member matched
    obtain ⟨loaded, loads⟩ := kept.loadJob member
    have chosen : job ∈ history.jobs.filter fun job => Matched jobsetId group job :=
      List.mem_filter.mpr ⟨member, decide_eq_true matched⟩
    have listed := List.mem_filterMap.mpr ⟨job, chosen, loads⟩
    obtain ⟨other, inside, loadsToo⟩ := List.mem_filterMap.mp (same.mem_iff.mp listed)
    refine ⟨matched.1, ?_⟩
    rw [← (name_of_loadJob loads).1, (name_of_loadJob loadsToo).1]
    exact (of_decide_eq_true (List.mem_filter.mp inside).2).2
  · intro exactly
    rw [List.filter_congr fun job member => decide_eq_decide.mpr ⟨exactly job member, OfGroup.matched⟩]

end Jobs

theorem found_iff : (∀ pick checkRunId nodeId,
      history.forge.findCoalescedCheckRunForGroup pick jobsetId group = some (checkRunId, nodeId) →
        ⟨checkRunId, jobsetId, group⟩ ∈ history.gates) ↔
      ∀ row ∈ history.forge.checkRuns, ∀ job ∈ history.jobs, job.drvId = row.drvId → Matched jobsetId group job →
        ⟨row.checkRunId, jobsetId, group⟩ ∈ history.gates := by
  have selects (row : CheckRunRow DrvId) : ((history.forge.recorder.getJobInfoForDrv row.drvId).any fun job =>
      job.jobset = jobsetId && inGroup group job.name) = true ↔
        ∃ job ∈ history.jobs, job.drvId = row.drvId ∧ Matched jobsetId group job := by
    rw [List.any_eq_true]
    constructor
    · rintro ⟨job, member, matched⟩
      obtain ⟨member, same⟩ := List.mem_filter.mp member
      rw [Bool.and_eq_true, decide_eq_true_eq] at matched
      exact ⟨job, member, of_decide_eq_true same, matched⟩
    · rintro ⟨job, member, same, matched⟩
      refine ⟨job, List.mem_filter.mpr ⟨member, decide_eq_true same⟩, ?_⟩
      rw [Bool.and_eq_true, decide_eq_true_eq]
      exact matched
  constructor
  · intro found row member job listed same matched
    have chosen : row ∈ history.forge.checkRuns.filter fun row => (history.forge.recorder.getJobInfoForDrv row.drvId).any
        fun job => job.jobset = jobsetId && inGroup group job.name :=
      List.mem_filter.mpr ⟨member, (selects row).mpr ⟨job, listed, same, matched⟩⟩
    obtain ⟨pick, inside, here⟩ := List.mem_iff_getElem.mp chosen
    refine found pick row.checkRunId row.nodeId ?_
    rw [ForgeState.findCoalescedCheckRunForGroup, List.head?_rotate inside, List.getElem?_eq_getElem inside, here]
    rfl
  · intro own pick checkRunId nodeId found
    obtain ⟨row, first, same⟩ := Option.map_eq_some_iff.mp found
    cases same
    obtain ⟨member, chosen⟩ := List.mem_filter.mp (List.mem_rotate.mp (List.mem_of_head? first))
    obtain ⟨job, listed, same, matched⟩ := (selects row).mp chosen
    exact own row member job listed same matched

variable (history) in
def loadVariant (job : Job DrvId) : Option (VariantBuildState DrvId) :=
  (history.forge.loadJob job).map NewOrChangedJob.variant

instance (checkRunId : Nat) (job : Job DrvId) : Decidable (history.Gated checkRunId job) :=
  inferInstanceAs (Decidable (∃ row ∈ history.forge.checkRuns, _))

omit [DecidableEq DrvId] in
theorem Kept.nodup_drvs (kept : history.Kept) (checkRunId : Nat) :
    ((history.forge.checkRuns.filter fun row => row.checkRunId = checkRunId).map CheckRunRow.drvId).Nodup := by
  have keys : ((history.forge.checkRuns.filter fun row => row.checkRunId = checkRunId).map CheckRunRow.key).Nodup :=
    kept.unique.sublist (List.filter_sublist.map _)
  have same : (history.forge.checkRuns.filter fun row => row.checkRunId = checkRunId).map CheckRunRow.key =
      ((history.forge.checkRuns.filter fun row => row.checkRunId = checkRunId).map CheckRunRow.drvId).map (checkRunId, ·) := by
    rw [List.map_map]
    refine List.map_congr_left fun row member => ?_
    have own : row.checkRunId = checkRunId := of_decide_eq_true (List.mem_filter.mp member).2
    rw [CheckRunRow.key, own]
    rfl
  rw [same] at keys
  exact keys.of_map

theorem variantRows_perm (kept : history.Kept) (checkRunId : Nat) :
    (history.forge.variantRowsForCheckRun checkRunId).Perm
      ((history.jobs.filter fun job => history.Gated checkRunId job).filterMap history.loadVariant) := by
  have inner (row : CheckRunRow DrvId) : (history.forge.recorder.getJobInfoForDrv row.drvId).filterMap (fun job =>
      (history.forge.rowState row.drvId).map fun buildState =>
        (⟨row.drvId, job.name, buildState⟩ : VariantBuildState DrvId)) =
      (history.jobs.filter fun job => job.drvId = row.drvId).filterMap history.loadVariant := by
    refine List.filterMap_congr fun job member => ?_
    have same : job.drvId = row.drvId := of_decide_eq_true (List.mem_filter.mp member).2
    rw [loadVariant, ForgeState.loadJob, Option.map_map, ← same]
    rfl
  have rows : history.forge.variantRowsForCheckRun checkRunId =
      (((history.forge.checkRuns.filter fun row => row.checkRunId = checkRunId).map CheckRunRow.drvId).flatMap fun drvId =>
        history.jobs.filter fun job => job.drvId = drvId).filterMap history.loadVariant := by
    rw [ForgeState.variantRowsForCheckRun, List.filterMap_flatMap, List.flatMap_map]
    exact congrArg (List.flatMap · _) (funext inner)
  rw [rows]
  refine ((flatMap_filter_perm (kept.nodup_drvs checkRunId)).trans (List.Perm.of_eq ?_)).filterMap _
  refine List.filter_congr fun job _ => decide_eq_decide.mpr ?_
  rw [List.mem_map]
  constructor
  · rintro ⟨row, member, same⟩
    obtain ⟨member, own⟩ := List.mem_filter.mp member
    exact ⟨row, member, of_decide_eq_true own, same⟩
  · rintro ⟨row, member, own, same⟩
    exact ⟨row, List.mem_filter.mpr ⟨member, decide_eq_true own⟩, same⟩

omit [DecidableEq DrvId] in
theorem variants_map_variant : (history.variants jobsetId group).map NewOrChangedJob.variant =
    (history.jobs.filter fun job => OfGroup jobsetId group job).filterMap history.loadVariant := by
  rw [variants_eq, List.map_filterMap]
  rfl

omit [DecidableEq DrvId] in
theorem Kept.length_loadVariant (kept : history.Kept) {jobs : List (Job DrvId)} (known : ∀ job ∈ jobs, job ∈ history.jobs) :
    (jobs.filterMap history.loadVariant).length = jobs.length := by
  refine List.filterMap_length_eq_length.mpr fun job member => ?_
  obtain ⟨loaded, loads⟩ := kept.loadJob (known job member)
  rw [loadVariant, loads]
  rfl

/-- If the rows are the variants, each job of the group is on the gate, and there are no more jobs than those. -/
theorem listed_iff (kept : history.Kept) (checkRunId : Nat) :
    (history.forge.variantRowsForCheckRun checkRunId).Perm ((history.variants jobsetId group).map NewOrChangedJob.variant) ↔
      ∀ job ∈ history.jobs, history.Gated checkRunId job ↔ OfGroup jobsetId group job := by
  rw [variants_map_variant, (variantRows_perm kept checkRunId).congr_left]
  constructor
  · intro same
    have gated : ∀ job ∈ history.jobs, OfGroup jobsetId group job → history.Gated checkRunId job := by
      intro job member inside
      obtain ⟨loaded, loads⟩ := kept.loadJob member
      have chosen : job ∈ history.jobs.filter fun job => OfGroup jobsetId group job :=
        List.mem_filter.mpr ⟨member, decide_eq_true inside⟩
      have variant : history.loadVariant job = some loaded.variant := by
        rw [loadVariant, loads]
        rfl
      have listed := same.mem_iff.mpr (List.mem_filterMap.mpr ⟨job, chosen, variant⟩)
      obtain ⟨other, onGate, loadsToo⟩ := List.mem_filterMap.mp listed
      obtain ⟨row, present, own, drv⟩ := of_decide_eq_true (List.mem_filter.mp onGate).2
      obtain ⟨second, loadsSecond, sameVariant⟩ := Option.map_eq_some_iff.mp loadsToo
      refine ⟨row, present, own, ?_⟩
      rw [drv, ← (name_of_loadJob loadsSecond).2.1, ← (name_of_loadJob loads).2.1]
      exact congrArg VariantBuildState.drvId sameVariant
    have lengths := same.length_eq
    rw [kept.length_loadVariant fun job member => (List.mem_filter.mp member).1,
      kept.length_loadVariant fun job member => (List.mem_filter.mp member).1] at lengths
    have within : (history.jobs.filter fun job => OfGroup jobsetId group job).Sublist
        (history.jobs.filter fun job => history.Gated checkRunId job) := by
      have both : (history.jobs.filter fun job => OfGroup jobsetId group job) =
          (history.jobs.filter fun job => history.Gated checkRunId job).filter fun job => OfGroup jobsetId group job := by
        rw [List.filter_filter]
        refine List.filter_congr fun job member => Bool.eq_iff_iff.mpr ?_
        rw [Bool.and_eq_true, decide_eq_true_eq, decide_eq_true_eq]
        exact ⟨fun inside => ⟨inside, gated job member inside⟩, And.left⟩
      rw [both]
      exact List.filter_sublist
    have equal := within.eq_of_length lengths.symm
    intro job member
    refine ⟨fun onGate => ?_, gated job member⟩
    have chosen : job ∈ history.jobs.filter fun job => history.Gated checkRunId job :=
      List.mem_filter.mpr ⟨member, decide_eq_true onGate⟩
    rw [← equal] at chosen
    exact of_decide_eq_true (List.mem_filter.mp chosen).2
  · intro covered
    rw [List.filter_congr fun job member => decide_eq_decide.mpr (covered job member)]

theorem aggregateBuildState_append_singleton {front : List DrvBuildState} {last : DrvBuildState}
    (worst : ∀ state ∈ front, buildStateSeverity state ≤ buildStateSeverity last) :
    aggregateBuildState (front ++ [last]) = last := by
  rw [aggregateBuildState, List.reverse_append, List.reverse_singleton, List.singleton_append, List.maxOn?_cons,
    Option.getD_some]
  cases found : front.reverse.maxOn? buildStateSeverity with
  | none => rfl
  | some state => exact maxOn_eq_left (worst state (List.mem_reverse.mp (List.maxOn?_mem found)))

theorem severity_of_perm {first second : List DrvBuildState} (same : first.Perm second) (nonempty : first ≠ []) :
    buildStateSeverity (aggregateBuildState first) = buildStateSeverity (aggregateBuildState second) := by
  have nonemptyToo : second ≠ [] := fun empty => nonempty (List.Perm.eq_nil (empty ▸ same))
  refine Nat.le_antisymm ?_ ?_
  · exact severity_le_aggregateBuildState (same.mem_iff.mp (aggregateBuildState_mem nonempty))
  · exact severity_le_aggregateBuildState (same.mem_iff.mpr (aggregateBuildState_mem nonemptyToo))

theorem graphql_eq_of_perm {first second : List DrvBuildState} (unmixed : ¬ Mixed first) (same : first.Perm second) :
    buildStateToGraphql (aggregateBuildState first) = buildStateToGraphql (aggregateBuildState second) := by
  by_cases nonempty : first = []
  · subst nonempty
    rw [List.nil_perm.mp same]
  · have nonemptyToo : second ≠ [] := fun empty => nonempty (List.Perm.eq_nil (empty ▸ same))
    have severity := severity_of_perm same nonempty
    by_cases blocked : aggregateBuildState first = .blocked ∨ aggregateBuildState second = .blocked
    · have two : buildStateSeverity (aggregateBuildState first) = 2 := by
        rcases blocked with one | other
        · rw [one]
          rfl
        · rw [severity, other]
          rfl
      have member : .blocked ∈ first := by
        rcases blocked with one | other
        · rw [← one]
          exact aggregateBuildState_mem nonempty
        · rw [← other]
          exact same.mem_iff.mpr (aggregateBuildState_mem nonemptyToo)
      have plain : ¬ (.queued ∈ first ∨ .buildable ∈ first) := fun queued =>
        unmixed ⟨member, queued, fun state inside => two ▸ severity_le_aggregateBuildState inside⟩
      have only (state : DrvBuildState) (inside : state ∈ first) (severe : buildStateSeverity state = 2) :
          state = .blocked := by
        cases state with
        | blocked => rfl
        | queued => exact absurd (.inl inside) plain
        | buildable => exact absurd (.inr inside) plain
        | completed result => cases result <;> cases severe
        | interrupted kind => cases kind <;> cases severe
        | _ => cases severe
      rw [only _ (aggregateBuildState_mem nonempty) two,
        only _ (same.mem_iff.mpr (aggregateBuildState_mem nonemptyToo)) (severity ▸ two)]
    · rw [graphql_of_severity fun one => blocked (.inl one), graphql_of_severity fun other => blocked (.inr other), severity]

theorem exists_shownFor {rows : List (NewOrChangedJob DrvId)} {row : NewOrChangedJob DrvId} (member : row ∈ rows)
    (worst : ∀ other ∈ rows, buildStateSeverity other.buildState ≤ buildStateSeverity row.buildState) :
    ∃ first, first.Perm rows ∧ shownFor first = buildStateToGraphql row.buildState := by
  refine ⟨rows.erase row ++ [row], (List.perm_append_singleton _ _).trans (List.perm_cons_erase member).symm, ?_⟩
  rw [shownFor, List.map_append, List.map_singleton, aggregateBuildState_append_singleton]
  intro state inside
  obtain ⟨other, present, rfl⟩ := List.mem_map.mp inside
  exact worst other (List.mem_of_mem_erase present)

theorem shown_iff (rows : List (NewOrChangedJob DrvId)) :
    (∀ first second : List (NewOrChangedJob DrvId), first.Perm rows → second.Perm rows →
      shownFor first = shownFor second) ↔ ¬ Mixed (rows.map NewOrChangedJob.buildState) := by
  constructor
  · rintro shown ⟨blocked, queued, mild⟩
    have bounded (state : DrvBuildState) (severe : buildStateSeverity state = 2) (other : NewOrChangedJob DrvId)
        (present : other ∈ rows) : buildStateSeverity other.buildState ≤ buildStateSeverity state := by
      rw [severe]
      exact mild _ (List.mem_map_of_mem present)
    obtain ⟨row, member, isBlocked⟩ := List.mem_map.mp blocked
    obtain ⟨first, perm, shows⟩ := exists_shownFor member (bounded _ (by rw [isBlocked]; rfl))
    obtain ⟨other, memberToo, isQueued⟩ : ∃ other ∈ rows, buildStateToGraphql other.buildState = (.queued, none) ∧
        buildStateSeverity other.buildState = 2 := by
      rcases queued with queued | buildable
      · obtain ⟨other, memberToo, same⟩ := List.mem_map.mp queued
        exact ⟨other, memberToo, by rw [same]; exact ⟨rfl, rfl⟩⟩
      · obtain ⟨other, memberToo, same⟩ := List.mem_map.mp buildable
        exact ⟨other, memberToo, by rw [same]; exact ⟨rfl, rfl⟩⟩
    obtain ⟨second, permToo, showsToo⟩ := exists_shownFor memberToo (bounded _ isQueued.2)
    have equal := shown first second perm permToo
    rw [shows, showsToo, isBlocked, isQueued.1] at equal
    cases equal
  · intro unmixed first second perm permToo
    refine graphql_eq_of_perm (fun mixed => unmixed ?_) ((perm.trans permToo.symm).map _)
    obtain ⟨blocked, queued, mild⟩ := mixed
    have mem_iff (state : DrvBuildState) :
        state ∈ first.map NewOrChangedJob.buildState ↔ state ∈ rows.map NewOrChangedJob.buildState :=
      (perm.map _).mem_iff
    rw [mem_iff, mem_iff] at queued
    exact ⟨(mem_iff _).mp blocked, queued, fun state inside => mild state ((mem_iff state).mpr inside)⟩

theorem Kept.agree_iff_apart (kept : history.Kept) :
    history.VariantsAgree jobsetId group ↔ history.Apart jobsetId group := by
  constructor
  · rintro ⟨loaded, found, listed, shown⟩
    have covered := fun checkRunId gate => (listed_iff kept checkRunId).mp (listed checkRunId gate)
    refine ⟨(loaded_iff kept).mp loaded, ?_, ?_, fun checkRunId gate job member => (covered checkRunId gate job member).mp,
      (shown_iff _).mp shown⟩
    · rintro checkRunId drvId ⟨row, present, rfl, rfl⟩ ⟨job, member, inside, same⟩
      exact found_iff.mp found row present job member same inside.matched
    · rintro checkRunId gate drvId ⟨job, member, inside, rfl⟩
      exact (covered checkRunId gate job member).mpr inside
  · rintro ⟨exactly, own, complete, unshared, alike⟩
    refine ⟨(loaded_iff kept).mpr exactly, found_iff.mpr ?_, fun checkRunId gate => (listed_iff kept checkRunId).mpr ?_,
      (shown_iff _).mpr alike⟩
    · intro row present job member same matched
      exact own row.checkRunId row.drvId ⟨row, present, rfl, rfl⟩ ⟨job, member, exactly job member matched, same⟩
    · intro job member
      exact ⟨unshared checkRunId gate job member, fun inside => complete checkRunId gate _ ⟨job, member, inside, rfl⟩⟩

theorem Kept.perform {A : Type} {handler : GitHubHandler DrvId A} (kept : history.Kept) (answers : CheckRunAnswers) :
    (handler.perform (answer answers) push history).Kept :=
  Handler.perform_keeps
    (fun _ question _ kept => have forge := ForgeState.Kept.answer ⟨kept.keyed, kept.unique⟩ answers question
      ⟨forge.1, forge.2⟩)
    (fun _ _ kept => ⟨kept.keyed, kept.unique⟩) kept

theorem kept_start : (start : GateHistory DrvId).Kept where
  keyed := ⟨List.nodup_nil, List.forall_mem_nil _⟩
  unique := List.nodup_nil

theorem kept_step {next : GateHistory DrvId} (kept : history.Kept) {event : GateEvent DrvId}
    (taken : history.step event = some next) : next.Kept := by
  cases event with
  | server recorder =>
    obtain ⟨keyed, same⟩ := Option.ite_none_right_eq_some.mp taken
    cases same
    exact ⟨keyed, kept.unique⟩
  | createEagerCheckRuns jobsetId =>
    obtain ⟨jobset, -, rfl⟩ := Option.map_eq_some_iff.mp taken
    exact kept.perform _
  | handle answers task =>
    cases taken
    have forge := ForgeState.Kept.handleGithubTask ⟨kept.keyed, kept.unique⟩ answers task
    cases task with
    | createFailureCheckRun drvId jobsetId jobAttrName difference => exact kept.perform answers
    | _ => exact ⟨forge.1, forge.2⟩

/-- After every run, and for every group of every jobset. -/
theorem variantsAgree_iff {events : List (GateEvent DrvId)} (run : AnyRun step start events history)
    (jobsetId : Nat) (group : String) : history.VariantsAgree jobsetId group ↔ history.Apart jobsetId group :=
  (run.invariant kept_start fun _ _ _ kept _ taken => kept_step kept taken).agree_iff_apart

/-- A jobset with two jobs, of drvs that are queued. -/
def twoJobs (first second : String) : RecorderState Nat where
  service := .started (Database.empty.insertDrvsAndReferences [.plain 0 .queued, .plain 1 .queued] []) 2
  tables := .single ⟨1, "4f2a", "release", "owner", "packages"⟩ [⟨1, 0, first, .new⟩, ⟨1, 1, second, .new⟩]
    (by simp)
  requests := []

/-- The names of two groups differ in the case of their letters only. -/
theorem otherCase_not_variantsAgree : ¬ ∀ (events : List (GateEvent Nat)) (history : GateHistory Nat),
    AnyRun step start events history → ∀ jobsetId, ∀ job ∈ history.forge.jobsInJobset jobsetId, ∀ group,
      job.groupPrefix = some group → history.VariantsAgree jobsetId group := by
  intro always
  obtain ⟨history, performed⟩ : ∃ history, exec step (start : GateHistory Nat)
      [.server (twoJobs "hello.x" "Hello.x")] = some history := ⟨_, rfl⟩
  cases performed
  have agree := always [.server (twoJobs "hello.x" "Hello.x")] _ (run_of_exec rfl) 1 ⟨"hello.x", .new, 0, .queued⟩ (by decide) "hello" (by decide)
  exact absurd agree.loaded.length_eq (by decide)

theorem variantsAgree_twoJobs : ∃ history : GateHistory Nat,
    AnyRun step start [.server (twoJobs "hello.x" "hello.y"), .createEagerCheckRuns 1] history ∧
      (history.VariantsAgree 1 "hello" ↔ history.Apart 1 "hello") := by
  obtain ⟨history, performed⟩ : ∃ history, exec step (start : GateHistory Nat)
      [.server (twoJobs "hello.x" "hello.y"), .createEagerCheckRuns 1] = some history := ⟨_, rfl⟩
  exact ⟨history, run_of_exec performed, variantsAgree_iff (run_of_exec performed) 1 "hello"⟩

end GateHistory

end EkaCI
