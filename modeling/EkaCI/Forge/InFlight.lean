import EkaCI.Forge.Display

/-! The tasks on their way to the check runs. They make up for what the check runs do not
show yet, and the service keeps it so whichever of them it handles. -/

namespace EkaCI

open Lib

variable {DrvId : Type}

def GitHubTask.statusFor [DecidableEq DrvId] (drvId : DrvId) : GitHubTask DrvId → Option DrvBuildState
  | .updateBuildStatus other status => if other = drvId then some status else none
  | _ => none

def GitHubTask.creates : GitHubTask DrvId → Bool
  | .createFailureCheckRun .. => true
  | _ => false

def pendingStatuses [DecidableEq DrvId] (queue : List (GitHubTask DrvId)) (drvId : DrvId) : List DrvBuildState :=
  queue.filterMap (GitHubTask.statusFor drvId)

namespace ForgeState

variable [DecidableEq DrvId]

/-- What the check runs do not show yet is on its way. -/
structure Coherent (state : ForgeState DrvId) : Prop extends Grounded state where
  creations : ∀ drvId jobsetId name difference, .createFailureCheckRun drvId jobsetId name difference ∈ state.queue →
    (∃ job ∈ state.recorder.tables.jobs, job.drvId = drvId) ∧ difference ≠ .removed
  directed : ∀ drvId, pendingStatuses state.queue drvId ≠ [] → ∃ checkRunId, state.Covers checkRunId drvId
  /-- The last of the updates for a drv is as severe as what is recorded. -/
  latest : ∀ drvId status, (pendingStatuses state.queue drvId).getLast? = some status →
    status ≠ .blocked ∧ ∀ buildState, state.rowState drvId = some buildState →
      buildStateSeverity status = buildStateSeverity buildState
  settled : ∀ checkRunId drvId, state.Covers checkRunId drvId →
    (∀ other, state.Covers checkRunId other → pendingStatuses state.queue other = []) →
      state.shown checkRunId = state.recordedDisplay checkRunId
  /-- A warning is followed by an update, or finds no check run. -/
  warned : ∀ earlier drvId status later,
    state.queue = earlier ++ .updateBuildStatusWithSizeWarning drvId status :: later →
      pendingStatuses later drvId ≠ [] ∨
        (∀ checkRunId, ¬ state.Covers checkRunId drvId) ∧ ∀ task ∈ earlier, task.creates = false

variable {state : ForgeState DrvId} {checkRunId : Nat} {drvId : DrvId} {status : DrvBuildState} {known : Nat → Bool}
  {answers : CheckRunAnswers} {task : GitHubTask DrvId} {rest : List (GitHubTask DrvId)}

theorem Coherent.displayed (coherent : Coherent state) (drained : state.queue = []) : state.Displayed := by
  intro row member
  apply coherent.settled _ row.drvId (covers_iff.mpr ⟨row, member, rfl, rfl⟩)
  intro other _
  rw [drained]
  rfl

/-- A check run that shows what is recorded does so as long as what is recorded stays as
severe. -/
theorem Coherent.settled_next {next : ForgeState DrvId} (coherent : Coherent state) (grounded : Grounded next)
    (covered : state.Covers checkRunId drvId)
    (same : ∀ other, next.Covers checkRunId other ↔ state.Covers checkRunId other)
    (alike : ∀ other, state.Covers checkRunId other →
      (next.rowState other).map buildStateSeverity = (state.rowState other).map buildStateSeverity)
    (unsent : ∀ other, state.Covers checkRunId other → pendingStatuses state.queue other = []) :
    state.shown checkRunId = next.recordedDisplay checkRunId := by
  rw [coherent.settled checkRunId drvId covered unsent]
  exact (recordedDisplay_congr coherent.toGrounded grounded covered same alike).symm

theorem Grounded.coherent (grounded : Grounded state) (displayed : state.Displayed) (drained : state.queue = []) :
    Coherent state where
  toGrounded := grounded
  creations _ _ _ _ member := by
    rw [drained] at member
    cases member
  directed _ pending := by
    rw [drained] at pending
    exact absurd rfl pending
  latest _ _ last := by
    rw [drained] at last
    cases last
  settled checkRunId drvId covered _ := by
    obtain ⟨row, member, rfl, -⟩ := covers_iff.mp covered
    exact displayed row member
  warned earlier _ _ _ split := by
    rw [drained] at split
    cases List.append_eq_nil_iff.mp split.symm |>.2

theorem pendingStatuses_of_ne {other : DrvId} (different : other ≠ drvId) :
    pendingStatuses (.updateBuildStatus other status :: rest) drvId = pendingStatuses rest drvId :=
  List.filterMap_cons_none (if_neg different)

theorem pendingStatuses_self :
    pendingStatuses (.updateBuildStatus drvId status :: rest) drvId = status :: pendingStatuses rest drvId :=
  List.filterMap_cons_some (if_pos rfl)

theorem pendingStatuses_cons_ne_nil (pending : pendingStatuses rest drvId ≠ []) :
    pendingStatuses (task :: rest) drvId ≠ [] := by
  rw [pendingStatuses, List.filterMap_cons]
  split
  · exact pending
  · exact List.cons_ne_nil _ _

theorem getLast?_pendingStatuses_cons (last : (pendingStatuses rest drvId).getLast? = some status) :
    (pendingStatuses (task :: rest) drvId).getLast? = some status := by
  rw [pendingStatuses, List.filterMap_cons]
  split
  · exact last
  · rename_i first _
    rw [List.getLast?_cons, ← pendingStatuses, last]
    rfl

/-- The first task is handled, and the check runs that no other update is for show what is
recorded. -/
theorem Coherent.handled (coherent : Coherent state) (split : state.queue = task :: rest) {shown : Nat → CheckRunDisplay}
    (settled : ∀ checkRunId drvId, state.Covers checkRunId drvId →
      (∀ other, state.Covers checkRunId other → pendingStatuses rest other = []) →
        shown checkRunId = state.recordedDisplay checkRunId) :
    Coherent { state with queue := rest, shown := shown } where
  stored := coherent.stored
  present := coherent.present
  unblocked := coherent.unblocked
  forJobs := coherent.forJobs
  numbered := coherent.numbered
  creations drvId jobsetId name difference member :=
    coherent.creations drvId jobsetId name difference (split ▸ List.mem_cons_of_mem _ member)
  directed drvId pending := coherent.directed drvId (split ▸ pendingStatuses_cons_ne_nil pending)
  latest drvId status last := coherent.latest drvId status (split ▸ getLast?_pendingStatuses_cons last)
  settled := settled
  warned earlier drvId status later here := by
    have here : state.queue = (task :: earlier) ++ .updateBuildStatusWithSizeWarning drvId status :: later := by
      rw [split, List.cons_append]
      exact congrArg (task :: ·) here
    refine (coherent.warned _ _ _ _ here).imp id fun ⟨uncovered, others⟩ => ⟨uncovered, fun task member => ?_⟩
    exact others task (List.mem_cons_of_mem _ member)

theorem Coherent.ignored (coherent : Coherent state) (split : state.queue = task :: rest)
    (silent : ∀ drvId, task.statusFor drvId = none) : Coherent { state with queue := rest } := by
  refine coherent.handled split fun checkRunId drvId covered unsent => ?_
  apply coherent.settled checkRunId drvId covered
  intro other covered
  rw [split, pendingStatuses, List.filterMap_cons_none (silent other)]
  exact unsent other covered

omit [DecidableEq DrvId] in
theorem foldl_publish {rows : List (CheckRunRow DrvId)} {value : ForgeState DrvId → CheckRunRow DrvId → CheckRunDisplay}
    (stable : ∀ shown row, value { state with shown := shown } row = value state row) :
    rows.foldl (fun state row => state.publish row.checkRunId (value state row)) state =
      { state with shown :=
          rows.foldl (fun shown row => Function.update shown row.checkRunId (value state row)) state.shown } := by
  induction rows using List.reverseRecOn with
  | nil => rfl
  | append_singleton earlier last ih =>
    rw [List.foldl_append, List.foldl_append, ih, List.foldl_cons, List.foldl_nil, List.foldl_cons, List.foldl_nil, stable]
    rfl

section Publish

variable {value : CheckRunRow DrvId → CheckRunDisplay} {shown : Nat → CheckRunDisplay}

theorem publish_covered {display : CheckRunDisplay} (covered : state.Covers checkRunId drvId)
    (agree : ∀ row, row.checkRunId = checkRunId → value row = display) :
    (state.checkRunsForDrvPath drvId).foldl (fun shown row => Function.update shown row.checkRunId (value row)) shown
      checkRunId = display := by
  rcases @foldl_update _ _ _ _ (state.checkRunsForDrvPath drvId) CheckRunRow.checkRunId value shown checkRunId with
    ⟨row, -, number, published⟩ | ⟨untouched, -⟩
  · rw [published, agree row number]
  · obtain ⟨row, member, number, same⟩ := covers_iff.mp covered
    exact absurd number (untouched row (List.mem_filter.mpr ⟨member, decide_eq_true same⟩))

theorem publish_uncovered (uncovered : ¬ state.Covers checkRunId drvId) :
    (state.checkRunsForDrvPath drvId).foldl (fun shown row => Function.update shown row.checkRunId (value row)) shown
      checkRunId = shown checkRunId := by
  rcases @foldl_update _ _ _ _ (state.checkRunsForDrvPath drvId) CheckRunRow.checkRunId value shown checkRunId with
    ⟨row, member, number, -⟩ | ⟨-, kept⟩
  · obtain ⟨member, same⟩ := List.mem_filter.mp member
    exact absurd (covers_iff.mpr ⟨row, member, number, of_decide_eq_true same⟩) uncovered
  · exact kept

end Publish

theorem Coherent.updated (coherent : Coherent state) (split : state.queue = .updateBuildStatus drvId status :: rest) :
    Coherent (updateBuildStatus { state with queue := rest } known drvId status) := by
  rw [updateBuildStatus, foldl_publish fun _ _ => rfl]
  refine coherent.handled split fun checkRunId other covered unsent => ?_
  by_cases own : state.Covers checkRunId drvId
  · -- No update for the drv is left behind this one, so this one is what counts.
    have last : (pendingStatuses state.queue drvId).getLast? = some status := by
      rw [split, pendingStatuses_self, unsent drvId own]
      rfl
    obtain ⟨unblocked, alike⟩ := coherent.latest drvId status last
    obtain ⟨spared, display⟩ := coherent.toGrounded.statusFor_displayed own unblocked alike
    refine publish_covered own fun row number => ?_
    rw [number, ← display]
    split
    · rfl
    · exact asGhCheckrunState_eq spared
  · refine (publish_uncovered own).trans (coherent.settled checkRunId other covered fun variant covers => ?_)
    have different : drvId ≠ variant := fun same => own (same ▸ covers)
    rw [split, pendingStatuses_of_ne different]
    exact unsent variant covers

theorem Coherent.sizeWarned (coherent : Coherent state)
    (split : state.queue = .updateBuildStatusWithSizeWarning drvId status :: rest) :
    Coherent (updateBuildStatusWithSizeWarning { state with queue := rest } drvId) := by
  rw [updateBuildStatusWithSizeWarning, foldl_publish fun _ _ => rfl]
  refine coherent.handled split fun checkRunId other covered unsent => ?_
  have uncovered : ¬ state.Covers checkRunId drvId := by
    intro own
    rcases coherent.warned [] drvId status rest split with followed | ⟨none, -⟩
    · exact followed (unsent drvId own)
    · exact none checkRunId own
  refine (publish_uncovered uncovered).trans (coherent.settled checkRunId other covered fun variant covers => ?_)
  rw [split]
  exact unsent variant covers

/-- The drv joins a check run. -/
def attach (state : ForgeState DrvId) (checkRunId : Nat) (drvId : DrvId) (nodeId : Option String) : ForgeState DrvId :=
  { state with checkRuns := insertIgnore CheckRunRow.key state.checkRuns ⟨checkRunId, drvId, nodeId⟩ }

/-- A new check run is shown as what is recorded for its variants. -/
def openCheckRun (state : ForgeState DrvId) (variants : List (DrvId × DrvBuildState)) (nodeId : Option String) :
    ForgeState DrvId :=
  { state.createCheckRun (buildStateToGraphql (aggregateBuildState (variants.map Prod.snd))) with
    checkRuns := (variants.map fun variant => ⟨state.fresh, variant.1, nodeId⟩).foldl
      (insertIgnore CheckRunRow.key) state.checkRuns }

/-- What the creation of check runs for a drv can do. -/
inductive Created (state : ForgeState DrvId) (drvId : DrvId) : ForgeState DrvId → Prop where
  | missing : Created state drvId state
  | attached {checkRunId : Nat} {other : DrvId} {nodeId : Option String} {buildState : DrvBuildState}
      (existing : state.Covers checkRunId other) (row : state.rowState drvId = some buildState) :
      Created state drvId ((state.attach checkRunId drvId nodeId).push (.updateBuildStatus drvId buildState))
  | opened {variants : List (DrvId × DrvBuildState)} {nodeId : Option String} (nonempty : variants ≠ [])
      (recorded : ∀ variant ∈ variants, (∃ job ∈ state.recorder.tables.jobs, job.drvId = variant.1) ∧
        state.rowState variant.1 = some variant.2) :
      Created state drvId (state.openCheckRun variants nodeId)

variable {nodeId : Option String} {jobset : JobSet} {buildState : DrvBuildState}

theorem insert_eq (row : state.rowState drvId = some buildState) :
    state.insertCheckRunInfoWithNodeId checkRunId drvId nodeId = (.ok (), state.attach checkRunId drvId nodeId) := by
  rw [insertCheckRunInfoWithNodeId, row]
  rfl

theorem perform_insert {jobs : List (NewOrChangedJob DrvId)}
    (recorded : ∀ job ∈ jobs, state.rowState job.drvId = some job.buildState) :
    (jobs.forM fun job =>
        (Handler.ask (.insertCheckRunInfoWithNodeId checkRunId job.drvId nodeId) : GitHubHandler DrvId Unit)).perform
      (answer answers) push state = { state with
        checkRuns := (jobs.map fun job => ⟨checkRunId, job.drvId, nodeId⟩).foldl
          (insertIgnore CheckRunRow.key) state.checkRuns } := by
  induction jobs generalizing state with
  | nil => rfl
  | cons job rest ih =>
    rw [List.forM, Handler.perform_ask_bind]
    simp only [answer, insert_eq (recorded job List.mem_cons_self)]
    exact ih fun other member => recorded other (List.mem_cons_of_mem _ member)

theorem perform_individual {name : String} {difference : JobDifference} (grounded : Grounded state)
    (listed : ∃ job ∈ state.recorder.tables.jobs, job.drvId = drvId) (row : state.rowState drvId = some buildState)
    (present : difference ≠ .removed) :
    Created state drvId ((GitHubHandler.createIndividualCheckRun jobset drvId name buildState difference).perform
      (answer answers) push state) := by
  have unblocked : buildState ≠ .blocked := by
    rintro rfl
    exact grounded.unblocked _ row
  rw [GitHubHandler.createIndividualCheckRun, Handler.perform_ask_bind]
  simp only [answer]
  have row : (state.createCheckRun buildState.asGhCheckrunState).rowState drvId = some buildState := row
  rw [Handler.perform_ask, answer, insert_eq row, asGhCheckrunState_eq unblocked]
  refine @Created.opened _ _ state drvId [(drvId, buildState)] _ (List.cons_ne_nil _ _) ?_
  intro variant member
  cases List.mem_singleton.mp member
  exact ⟨listed, row⟩

theorem perform_coalesced {group : String} {jobsetId : Nat} (grounded : Grounded state)
    (many : 1 < (state.getGroupJobsInJobset jobsetId group).length) :
    Created state drvId ((do
      let (checkRunId, nodeId) ← Handler.ask
        (.createCoalescedGhCheckRun jobset group (state.getGroupJobsInJobset jobsetId group))
      (state.getGroupJobsInJobset jobsetId group).forM fun job =>
        Handler.ask (.insertCheckRunInfoWithNodeId checkRunId job.drvId (some nodeId)) : GitHubHandler DrvId Unit).perform
      (answer answers) push state) := by
  have recorded : ∀ job ∈ state.getGroupJobsInJobset jobsetId group,
      (∃ stored ∈ state.recorder.tables.jobs, stored.drvId = job.drvId) ∧
        state.rowState job.drvId = some job.buildState := by
    intro job member
    obtain ⟨stored, listed, found⟩ := List.mem_filterMap.mp member
    obtain ⟨buildState, row, rfl⟩ := Option.map_eq_some_iff.mp found
    exact ⟨⟨stored, (List.mem_filter.mp listed).1, rfl⟩, row⟩
  generalize state.getGroupJobsInJobset jobsetId group = jobs at many recorded
  have nonempty : jobs.map NewOrChangedJob.buildState ≠ [] := by
    intro none
    rw [List.map_eq_nil_iff.mp none] at many
    cases many
  have unblocked : aggregateBuildState (jobs.map NewOrChangedJob.buildState) ≠ .blocked := by
    intro blocked
    obtain ⟨job, member, same⟩ := List.mem_map.mp (aggregateBuildState_mem nonempty)
    apply grounded.unblocked job.drvId
    rw [(recorded job member).2, same, blocked]
  rw [Handler.perform_ask_bind]
  simp only [answer]
  rw [asGhCheckrunState_eq unblocked, @perform_insert _ _ (state.createCheckRun _) _ _ _ _ fun job member =>
    (recorded job member).2]
  have variants : jobs.map NewOrChangedJob.buildState = (jobs.map fun job => (job.drvId, job.buildState)).map Prod.snd := by
    rw [List.map_map]
    rfl
  have rows : (jobs.map fun job => (⟨state.fresh, job.drvId, some (toString state.fresh)⟩ : CheckRunRow DrvId)) =
      (jobs.map fun job => (job.drvId, job.buildState)).map fun variant =>
        ⟨state.fresh, variant.1, some (toString state.fresh)⟩ := by
    rw [List.map_map]
    rfl
  rw [variants, rows]
  refine .opened ?_ ?_
  · rw [variants] at nonempty
    exact fun none => nonempty (none ▸ rfl)
  · intro variant member
    obtain ⟨job, listed, rfl⟩ := List.mem_map.mp member
    exact recorded job listed

theorem created_of_handle {jobsetId : Nat} {name : String} {difference : JobDifference} (grounded : Grounded state)
    (listed : ∃ job ∈ state.recorder.tables.jobs, job.drvId = drvId) (present : difference ≠ .removed) :
    Created state drvId (handleGithubTask state answers (.createFailureCheckRun drvId jobsetId name difference)) := by
  obtain ⟨buildState, row, unblocked⟩ := grounded.row_of_job listed
  rw [handleGithubTask, GitHubHandler.handleCreateFailureCheckRun, Handler.perform_ask_bind]
  simp only [answer]
  cases state.recorder.getJobsetInfo jobsetId with
  | none => exact .missing
  | some jobset =>
    dsimp only
    rw [Handler.perform_ask_bind]
    simp only [answer]
    rw [Handler.perform_ask_bind]
    simp only [answer, row, Option.getD_some]
    cases GitHubHandler.groupPrefix name with
    | none => exact perform_individual grounded listed row present
    | some group =>
      dsimp only
      rw [Handler.perform_ask_bind]
      simp only [answer]
      cases found : state.findCoalescedCheckRunForGroup answers.pick jobsetId group with
      | some existing =>
        obtain ⟨existing, member, rfl⟩ := Option.map_eq_some_iff.mp found
        dsimp only
        rw [Handler.perform_ask_bind]
        simp only [answer, insert_eq row]
        have member := List.mem_rotate.mp (List.mem_of_mem_head? member)
        exact .attached (covers_iff.mpr ⟨existing, (List.mem_filter.mp member).1, rfl, rfl⟩) row
      | none =>
        dsimp only
        rw [Handler.perform_ask_bind]
        simp only [answer]
        split
        · rename_i many
          exact perform_coalesced grounded many
        · exact perform_individual grounded listed row present

omit [DecidableEq DrvId] in
theorem Grounded.grown {next : ForgeState DrvId} (grounded : Grounded state) (same : next.recorder = state.recorder)
    (fresh : state.fresh ≤ next.fresh)
    (covers : ∀ checkRunId drvId, next.Covers checkRunId drvId → state.Covers checkRunId drvId ∨
      checkRunId < next.fresh ∧ ∃ job ∈ state.recorder.tables.jobs, job.drvId = drvId) : Grounded next where
  stored job member := by
    rw [same] at member
    rw [rowState, same]
    exact grounded.stored job member
  present := same ▸ grounded.present
  unblocked drvId := by
    rw [rowState, same]
    exact grounded.unblocked drvId
  forJobs checkRunId drvId covered := by
    rw [same]
    rcases covers _ _ covered with old | new
    · exact grounded.forJobs _ _ old
    · exact new.2
  numbered checkRunId drvId covered := by
    rcases covers _ _ covered with old | new
    · exact Nat.lt_of_lt_of_le (grounded.numbered _ _ old) fresh
    · exact new.1

theorem covers_attach {otherRun : Nat} {other : DrvId} :
    (state.attach checkRunId drvId nodeId).Covers otherRun other ↔
      state.Covers otherRun other ∨ otherRun = checkRunId ∧ other = drvId := by
  have keys := @mem_keys_foldl_insertIgnore _ _ _ CheckRunRow.key state.checkRuns [⟨checkRunId, drvId, nodeId⟩]
    (otherRun, other)
  rw [Covers, Covers, attach, ← Prod.mk_inj]
  simpa [CheckRunRow.key] using keys

theorem pendingStatuses_append {first second : List (GitHubTask DrvId)} :
    pendingStatuses (first ++ second) drvId = pendingStatuses first drvId ++ pendingStatuses second drvId :=
  List.filterMap_append

theorem Coherent.attached (coherent : Coherent state)
    (followed : ∀ earlier drvId status later,
      state.queue = earlier ++ .updateBuildStatusWithSizeWarning drvId status :: later → pendingStatuses later drvId ≠ [])
    {other : DrvId} (existing : state.Covers checkRunId other)
    (listed : ∃ job ∈ state.recorder.tables.jobs, job.drvId = drvId) (row : state.rowState drvId = some buildState) :
    Coherent ((state.attach checkRunId drvId nodeId).push (.updateBuildStatus drvId buildState)) := by
  have grounded : Grounded ((state.attach checkRunId drvId nodeId).push (.updateBuildStatus drvId buildState)) := by
    refine coherent.toGrounded.grown rfl (Nat.le_refl _) fun otherRun other covered => ?_
    rcases covers_attach.mp covered with old | ⟨rfl, rfl⟩
    · exact .inl old
    · exact .inr ⟨coherent.numbered _ _ existing, listed⟩
  have own : pendingStatuses ((state.attach checkRunId drvId nodeId).push (.updateBuildStatus drvId buildState)).queue drvId =
      pendingStatuses state.queue drvId ++ [buildState] := by
    rw [push, pendingStatuses_append, pendingStatuses_self]
    rfl
  have others : ∀ other, drvId ≠ other →
      pendingStatuses ((state.attach checkRunId drvId nodeId).push (.updateBuildStatus drvId buildState)).queue other =
        pendingStatuses state.queue other := by
    intro other different
    rw [push, pendingStatuses_append, pendingStatuses_of_ne different]
    exact List.append_nil _
  refine ⟨grounded, ?_, ?_, ?_, ?_, ?_⟩
  · intro drvId jobsetId name difference member
    rcases mem_snoc.mp member with old | new
    · exact coherent.creations _ _ _ _ old
    · cases new
  · intro other pending
    by_cases same : drvId = other
    · exact ⟨checkRunId, covers_attach.mpr (.inr ⟨rfl, same.symm⟩)⟩
    · obtain ⟨otherRun, covered⟩ := coherent.directed other (others other same ▸ pending)
      exact ⟨otherRun, covers_attach.mpr (.inl covered)⟩
  · intro other status last
    by_cases same : drvId = other
    · cases same
      rw [own, List.getLast?_concat] at last
      cases last
      refine ⟨fun blocked => coherent.unblocked drvId (blocked ▸ row), fun recorded found => ?_⟩
      cases row.symm.trans found
      rfl
    · exact coherent.latest other status (others other same ▸ last)
  · intro otherRun other covered unsent
    have different : ∀ variant, state.Covers otherRun variant ∨ otherRun = checkRunId ∧ variant = drvId →
        drvId ≠ variant := by
      rintro variant covers rfl
      have sent := unsent drvId (covers_attach.mpr covers)
      rw [own] at sent
      exact List.append_ne_nil_of_right_ne_nil _ (List.cons_ne_nil _ _) sent
    -- The check run that the drv joins waits for the update; what is left is as it was.
    have elsewhere : otherRun ≠ checkRunId := fun same => different drvId (.inr ⟨same, rfl⟩) rfl
    have same : ∀ variant, (state.attach checkRunId drvId nodeId).Covers otherRun variant ↔ state.Covers otherRun variant :=
      fun variant => covers_attach.trans ⟨fun either => either.elim id fun new => absurd new.1 elsewhere, .inl⟩
    refine coherent.settled_next grounded ((same other).mp covered) same (fun _ _ => rfl) fun variant covers => ?_
    rw [← others variant (different variant (.inl covers))]
    exact unsent variant ((same variant).mpr covers)
  · intro earlier other status later split
    rcases append_split split with ⟨rest, queue, rfl⟩ | ⟨middle, -, new⟩
    · refine .inl ?_
      rw [pendingStatuses_append]
      exact List.append_ne_nil_of_left_ne_nil (followed earlier other status rest queue) _
    · cases middle with
      | nil => cases new
      | cons first middle => cases middle <;> cases new

theorem covers_open {variants : List (DrvId × DrvBuildState)} :
    (state.openCheckRun variants nodeId).Covers checkRunId drvId ↔
      state.Covers checkRunId drvId ∨ checkRunId = state.fresh ∧ ∃ variant ∈ variants, variant.1 = drvId := by
  rw [Covers, Covers, openCheckRun, mem_keys_foldl_insertIgnore, List.map_map]
  refine or_congr Iff.rfl ⟨fun member => ?_, ?_⟩
  · obtain ⟨variant, listed, same⟩ := List.mem_map.mp member
    obtain ⟨number, own⟩ := Prod.mk_inj.mp same
    exact ⟨number.symm, variant, listed, own⟩
  · rintro ⟨rfl, variant, listed, rfl⟩
    exact List.mem_map.mpr ⟨variant, listed, rfl⟩

section Open

variable {variants : List (DrvId × DrvBuildState)} {nodeId : Option String}

theorem Grounded.opened (grounded : Grounded state) (recorded : ∀ variant ∈ variants,
      (∃ job ∈ state.recorder.tables.jobs, job.drvId = variant.1) ∧ state.rowState variant.1 = some variant.2) :
    Grounded (state.openCheckRun variants nodeId) := by
  refine grounded.grown rfl (Nat.le_succ _) fun checkRunId drvId covered => ?_
  rcases covers_open.mp covered with old | ⟨rfl, variant, listed, rfl⟩
  · exact .inl old
  · exact .inr ⟨Nat.lt_succ_self _, (recorded variant listed).1⟩

theorem Grounded.shown_opened (grounded : Grounded state) (nonempty : variants ≠ []) (recorded : ∀ variant ∈ variants,
      (∃ job ∈ state.recorder.tables.jobs, job.drvId = variant.1) ∧ state.rowState variant.1 = some variant.2) :
    (state.openCheckRun variants nodeId).shown state.fresh =
      (state.openCheckRun variants nodeId).recordedDisplay state.fresh := by
  have only : ∀ other, ¬ state.Covers state.fresh other := fun other covered =>
    Nat.lt_irrefl _ (grounded.numbered _ _ covered)
  refine (Function.update_self ..).trans ((grounded.opened recorded).recordedDisplay_eq ?_ ?_ ?_ ?_).symm
  · exact fun none => nonempty (List.map_eq_nil_iff.mp none)
  · intro buildState member
    obtain ⟨variant, listed, rfl⟩ := List.mem_map.mp member
    intro blocked
    exact grounded.unblocked variant.1 (blocked ▸ (recorded variant listed).2)
  · intro buildState member
    obtain ⟨variant, listed, rfl⟩ := List.mem_map.mp member
    refine ⟨variant, mem_variantStates.mpr ⟨covers_open.mpr (.inr ⟨rfl, variant, listed, rfl⟩), ?_⟩, rfl⟩
    exact recorded variant listed
  · intro variant member
    obtain ⟨covered, -, found⟩ := mem_variantStates.mp member
    rcases covers_open.mp covered with old | ⟨-, same, listed, own⟩
    · exact absurd old (only _)
    · have row := (recorded same listed).2
      rw [own] at row
      refine ⟨same.2, List.mem_map_of_mem listed, ?_⟩
      rw [Option.some.inj (row.symm.trans found)]

theorem Coherent.opened (coherent : Coherent state) (followed : ∀ earlier drvId status later,
      state.queue = earlier ++ .updateBuildStatusWithSizeWarning drvId status :: later → pendingStatuses later drvId ≠ [])
    (nonempty : variants ≠ []) (recorded : ∀ variant ∈ variants,
      (∃ job ∈ state.recorder.tables.jobs, job.drvId = variant.1) ∧ state.rowState variant.1 = some variant.2) :
    Coherent (state.openCheckRun variants nodeId) := by
  have grounded := @Grounded.opened _ _ state _ nodeId coherent.toGrounded recorded
  refine ⟨grounded, coherent.creations, ?_, coherent.latest, ?_, ?_⟩
  · intro drvId pending
    obtain ⟨checkRunId, covered⟩ := coherent.directed drvId pending
    exact ⟨checkRunId, covers_open.mpr (.inl covered)⟩
  · intro checkRunId drvId covered unsent
    by_cases new : checkRunId = state.fresh
    · cases new
      exact coherent.toGrounded.shown_opened nonempty recorded
    · have same : ∀ other, (state.openCheckRun variants nodeId).Covers checkRunId other ↔ state.Covers checkRunId other :=
        fun other => covers_open.trans ⟨fun either => either.elim id fun opened => absurd opened.1 new, .inl⟩
      refine (Function.update_of_ne new ..).trans
        (coherent.settled_next grounded ((same drvId).mp covered) same (fun _ _ => rfl) fun other covers => ?_)
      exact unsent other ((same other).mpr covers)
  · exact fun earlier drvId status later split => .inl (followed earlier drvId status later split)

end Open

variable {jobsetId : Nat} {name : String} {difference : JobDifference}

theorem Coherent.creates (coherent : Coherent state)
    (split : state.queue = .createFailureCheckRun drvId jobsetId name difference :: rest) :
    Created { state with queue := rest } drvId
      (handleGithubTask { state with queue := rest } answers (.createFailureCheckRun drvId jobsetId name difference)) := by
  obtain ⟨listed, present⟩ := coherent.creations drvId jobsetId name difference (split ▸ List.mem_cons_self)
  have popped : Coherent { state with queue := rest } := coherent.ignored split fun _ => rfl
  exact created_of_handle popped.toGrounded listed present

theorem Coherent.created (coherent : Coherent state)
    (split : state.queue = .createFailureCheckRun drvId jobsetId name difference :: rest) :
    Coherent (handleGithubTask { state with queue := rest } answers
      (.createFailureCheckRun drvId jobsetId name difference)) := by
  obtain ⟨listed, -⟩ := coherent.creations drvId jobsetId name difference (split ▸ List.mem_cons_self)
  have popped : Coherent { state with queue := rest } := coherent.ignored split fun _ => rfl
  have followed : ∀ earlier drvId status later,
      rest = earlier ++ .updateBuildStatusWithSizeWarning drvId status :: later → pendingStatuses later drvId ≠ [] := by
    intro earlier drvId status later here
    rw [here, ← List.cons_append] at split
    rcases coherent.warned _ _ _ _ split with followed | ⟨-, others⟩
    · exact followed
    · cases others _ List.mem_cons_self
  have created := @Coherent.creates _ _ state _ answers _ _ _ _ coherent split
  generalize handleGithubTask { state with queue := rest } answers _ = next at created ⊢
  cases created with
  | missing => exact popped
  | attached existing row => exact popped.attached followed existing listed row
  | opened nonempty recorded => exact popped.opened followed nonempty recorded

end ForgeState

end EkaCI
