import EkaCI.Forge.InFlight
import EkaCI.Scheduler.Transition

/-! When the forge shows what is recorded. An update carries the result of a build, which
has to be as severe as what the recorder makes of it, and no update goes to the drvs
that fail together with another one. -/

namespace EkaCI

open Lib

variable {DrvId : Type}

namespace ForgeState

variable [DecidableEq DrvId] {state : ForgeState DrvId} {checkRunId : Nat} {drvId : DrvId} {status : DrvBuildState}
  {answers : CheckRunAnswers} {task : GitHubTask DrvId} {rest : List (GitHubTask DrvId)}

/-- The state that is recorded for a drv in the state `row`. -/
def recordedState (row result : DrvBuildState) : DrvBuildState :=
  match recordDecision (some row) result with
  | some (recorded, _) => recorded
  | none => row

/-- What a task may meet. -/
structure Heeds (senders : RecorderSenders) (state : ForgeState DrvId) (task : RecorderTask DrvId) (now : Instant)
    (room : Bool) (grown : Nat) : Prop where
  /-- What is to be shown for a drv with a check run is as severe as what is recorded. With
  no sender the check run shows what it has shown before. -/
  faithful : ∀ checkRunId row, state.Covers checkRunId task.derivation → state.rowState task.derivation = some row →
    (senders.github = true → task.result ≠ .blocked) ∧
      buildStateSeverity (if senders.github then task.result else row) = buildStateSeverity (recordedState row task.result)
  /-- The drvs with a check run that are taken along have failed already. -/
  failed : ∀ other ∈ state.recorder.service.takenAlong now room task, ∀ checkRunId row, state.Covers checkRunId other →
    state.rowState other = some row → buildStateSeverity row = buildStateSeverity .transitiveFailure
  /-- A warning is for a drv that has a check run, or no check run can be created before it
  is handled. -/
  warned : grown ≠ 0 → task.result = .completed .success → state.rowState task.derivation = some .building →
    (∃ checkRunId, state.Covers checkRunId task.derivation) ∨ ∀ other ∈ state.queue, other.creates = false

def heeds (senders : RecorderSenders) (state : ForgeState DrvId) : ForgeAction DrvId → Prop
  | .record task now room grown => Heeds senders state task now room grown
  | .github _ => True

section Record

variable {senders : RecorderSenders} {result : RecorderTask DrvId} {now : Instant} {room : Bool} {grown : Nat}

/-- The state after the rows are written. -/
def recorded (state : ForgeState DrvId) (result : RecorderTask DrvId) (now : Instant) (room : Bool) : ForgeState DrvId :=
  { state with recorder := state.recorder.record now room result }

theorem rowState_recorded : (state.recorded result now room).rowState drvId =
    if drvId ∈ state.recorder.service.takenAlong now room result then
      (state.rowState drvId).map fun _ => .transitiveFailure
    else
      match recordDecision (state.rowState result.derivation) result.result with
      | some (recorded, _) =>
        if drvId = result.derivation then (state.rowState drvId).map fun _ => recorded else state.rowState drvId
      | none => state.rowState drvId :=
  GraphService.record_rowState

theorem recorded_ne_blocked {row : Option DrvBuildState} {outcome recorded : DrvBuildState} {followUp : FollowUp}
    (decision : recordDecision row outcome = some (recorded, followUp)) : recorded ≠ .blocked := by
  rintro rfl
  rcases (System.decided_of_recordDecision decision).settled with terminal | retry
  · cases terminal
  · cases retry

theorem Grounded.recorded (grounded : Grounded state) : Grounded (state.recorded result now room) where
  stored job member := by
    have stored := grounded.stored job member
    rw [rowState_recorded]
    split
    · rwa [Option.isSome_map]
    · split
      · split
        · rwa [Option.isSome_map]
        · exact stored
      · exact stored
  present := grounded.present
  unblocked drvId := by
    rw [rowState_recorded]
    split
    · simp
    · split
      · rename_i decision
        split
        · intro blocked
          obtain ⟨_, -, same⟩ := Option.map_eq_some_iff.mp blocked
          exact recorded_ne_blocked decision same
        · exact grounded.unblocked drvId
      · exact grounded.unblocked drvId
  forJobs := grounded.forJobs
  numbered := grounded.numbered

theorem severity_of_takenAlong {other : DrvId} {row : DrvBuildState} (found : state.rowState result.derivation = some row)
    (taken : other ∈ state.recorder.service.takenAlong now room result) :
    buildStateSeverity row ≠ buildStateSeverity .transitiveFailure := by
  have unfinished : row.isTerminal = false := by
    rw [GraphService.takenAlong] at taken
    split at taken
    · rename_i decision
      rw [rowState] at found
      rw [found] at decision
      cases System.decided_of_recordDecision decision with
      | giveUp _ second =>
        cases second
        rfl
      | interrupted _ _ known unfinished =>
        cases known
        exact unfinished
      | unsatisfiable _ unfinished => exact unfinished
    · cases taken
  cases row with
  | completed | interrupted | transitiveFailure | unsatisfiableRequirements => cases unfinished
  | _ => decide

theorem rowState_own (heeds : Heeds senders state result now room grown) {row : DrvBuildState}
    (covered : state.Covers checkRunId result.derivation) (found : state.rowState result.derivation = some row) :
    (state.recorded result now room).rowState result.derivation = some (recordedState row result.result) := by
  -- Only a cycle of references would take the drv itself along.
  have spared : result.derivation ∉ state.recorder.service.takenAlong now room result := fun taken =>
    severity_of_takenAlong found taken (heeds.failed _ taken checkRunId row covered found)
  rw [rowState_recorded, if_neg spared, found, recordedState]
  split
  · rw [if_pos rfl]
    rfl
  · rfl

theorem severity_other (heeds : Heeds senders state result now room grown) (covered : state.Covers checkRunId drvId)
    (different : drvId ≠ result.derivation) :
    ((state.recorded result now room).rowState drvId).map buildStateSeverity =
      (state.rowState drvId).map buildStateSeverity := by
  rw [rowState_recorded]
  split
  · rename_i taken
    cases found : state.rowState drvId with
    | none => rfl
    | some row => exact congrArg some (heeds.failed drvId taken checkRunId row covered found).symm
  · split <;> rfl

theorem pendingStatuses_eq_nil {tasks : List (GitHubTask DrvId)} (silent : ∀ task ∈ tasks, task.statusFor drvId = none) :
    pendingStatuses tasks drvId = [] :=
  List.filterMap_eq_nil_iff.mpr silent

theorem isEmpty_checkRuns :
    (state.checkRunsForDrvPath drvId).isEmpty = true ↔ ∀ checkRunId, ¬ state.Covers checkRunId drvId := by
  rw [List.isEmpty_iff, checkRunsForDrvPath, List.filter_eq_nil_iff]
  constructor
  · intro none checkRunId covered
    obtain ⟨row, member, -, same⟩ := covers_iff.mp covered
    exact none row member (decide_eq_true same)
  · intro uncovered row member same
    exact uncovered row.checkRunId (covers_iff.mpr ⟨row, member, rfl, of_decide_eq_true same⟩)

/-- The tasks of a step, but for the warnings that come first. -/
def sentLater (state : ForgeState DrvId) (senders : RecorderSenders) (result : RecorderTask DrvId) (now : Instant) (room : Bool) :
    List (GitHubTask DrvId) :=
  state.failureCheckRuns result ++ (state.statusUpdate result ++
    (state.recorder.notify senders now room result).merges.map .checkAutoMerge)

theorem notifyForge_eq : state.notifyForge result senders now room grown =
    if senders.github && !state.recorder.isMissing result then
      state.sizeWarnings result grown ++ state.sentLater senders result now room
    else [] := by
  rw [notifyForge, sentLater, List.append_assoc, List.append_assoc]

omit [DecidableEq DrvId] in
theorem mem_sizeWarnings (member : task ∈ state.sizeWarnings result grown) :
    task = .updateBuildStatusWithSizeWarning result.derivation (.completed .success) ∧ grown ≠ 0 ∧
      result.result = .completed .success ∧ state.rowState result.derivation = some .building := by
  rw [sizeWarnings] at member
  split at member
  · rename_i built
    obtain ⟨some, same⟩ := List.mem_replicate.mp member
    exact ⟨same, some, built⟩
  · cases member

theorem mem_failureCheckRuns (member : task ∈ state.failureCheckRuns result) :
    ∃ job ∈ state.recorder.tables.jobs, job.drvId = result.derivation ∧
      task = .createFailureCheckRun result.derivation job.jobset job.name job.difference := by
  rw [failureCheckRuns] at member
  split at member
  · obtain ⟨job, listed, same⟩ := List.mem_map.mp member
    obtain ⟨listed, own⟩ := List.mem_filter.mp listed
    exact ⟨job, listed, of_decide_eq_true own, same.symm⟩
  · cases member

theorem mem_statusUpdate (member : task ∈ state.statusUpdate result) :
    task = .updateBuildStatus result.derivation result.result ∧ ∃ checkRunId, state.Covers checkRunId result.derivation := by
  rw [statusUpdate] at member
  split at member
  · cases member
  · rename_i covered
    refine ⟨List.mem_singleton.mp member, ?_⟩
    rw [isEmpty_checkRuns] at covered
    push Not at covered
    exact covered

theorem mem_notifyForge (member : task ∈ state.notifyForge result senders now room grown) :
    task ∈ state.sizeWarnings result grown ∨ task ∈ state.failureCheckRuns result ∨ task ∈ state.statusUpdate result ∨
      ∃ request, task = .checkAutoMerge request := by
  rw [notifyForge_eq] at member
  split at member
  · rw [sentLater, List.mem_append, List.mem_append, List.mem_append, List.mem_map] at member
    exact member.imp id (Or.imp id (Or.imp id fun ⟨request, _, same⟩ => ⟨request, same.symm⟩))
  · cases member

theorem pendingStatuses_sentLater (covered : state.Covers checkRunId result.derivation) :
    pendingStatuses (state.sentLater senders result now room) result.derivation = [result.result] := by
  have update : state.statusUpdate result = [.updateBuildStatus result.derivation result.result] := by
    rw [statusUpdate, if_neg fun none => isEmpty_checkRuns.mp none checkRunId covered]
  have creations : pendingStatuses (state.failureCheckRuns result) result.derivation = [] := by
    refine pendingStatuses_eq_nil fun task member => ?_
    obtain ⟨job, -, -, rfl⟩ := mem_failureCheckRuns member
    rfl
  have merges : pendingStatuses ((state.recorder.notify senders now room result).merges.map .checkAutoMerge)
      result.derivation = [] := by
    refine pendingStatuses_eq_nil fun task member => ?_
    obtain ⟨request, -, rfl⟩ := List.mem_map.mp member
    rfl
  rw [sentLater, pendingStatuses_append, pendingStatuses_append, update, pendingStatuses_self, creations, merges]
  rfl

theorem pendingStatuses_notifyForge_of_ne
    (different : drvId ≠ result.derivation ∨ ∀ checkRunId, ¬ state.Covers checkRunId drvId) :
    pendingStatuses (state.notifyForge result senders now room grown) drvId = [] := by
  refine pendingStatuses_eq_nil fun task member => ?_
  rcases mem_notifyForge member with warning | creation | update | ⟨request, rfl⟩
  · rw [(mem_sizeWarnings warning).1]
    rfl
  · obtain ⟨job, -, -, rfl⟩ := mem_failureCheckRuns creation
    rfl
  · obtain ⟨rfl, checkRunId, covered⟩ := mem_statusUpdate update
    refine if_neg fun same => ?_
    rcases different with different | uncovered
    · exact different same.symm
    · exact uncovered checkRunId (same ▸ covered)
  · rfl

theorem warning_split {earlier later : List (GitHubTask DrvId)}
    (split : state.notifyForge result senders now room grown =
      earlier ++ .updateBuildStatusWithSizeWarning drvId status :: later) :
    .updateBuildStatusWithSizeWarning drvId status ∈ state.sizeWarnings result grown ∧
      (∀ task ∈ earlier, task.creates = false) ∧
        ∃ middle, later = middle ++ state.sentLater senders result now room := by
  rw [notifyForge_eq] at split
  split at split
  · rcases append_split split with ⟨middle, warnings, rfl⟩ | ⟨middle, -, others⟩
    · refine ⟨warnings ▸ List.mem_append_right _ List.mem_cons_self, fun task member => ?_, middle, rfl⟩
      have warning : task ∈ state.sizeWarnings result grown := warnings ▸ List.mem_append_left _ member
      rw [(mem_sizeWarnings warning).1]
      rfl
    · have member : .updateBuildStatusWithSizeWarning drvId status ∈ state.sentLater senders result now room :=
        others ▸ List.mem_append_right _ List.mem_cons_self
      rw [sentLater, List.mem_append, List.mem_append, List.mem_map] at member
      rcases member with creation | update | ⟨_, _, impossible⟩
      · obtain ⟨_, -, -, impossible⟩ := mem_failureCheckRuns creation
        cases impossible
      · cases (mem_statusUpdate update).1
      · cases impossible
  · cases List.append_eq_nil_iff.mp split.symm |>.2

theorem pendingStatuses_notifyForge (grounded : Grounded state) (configured : senders.github = true)
    (covered : state.Covers checkRunId result.derivation) :
    pendingStatuses (state.notifyForge result senders now room grown) result.derivation = [result.result] := by
  have present : state.recorder.isMissing result = false := by
    obtain ⟨row, found, -⟩ := grounded.row_of_job (grounded.forJobs _ _ covered)
    rw [rowState] at found
    unfold RecorderState.isMissing
    split
    · rw [found]
      rfl
    · rw [found]
      rfl
    · rfl
  have warnings : pendingStatuses (state.sizeWarnings result grown) result.derivation = [] := by
    refine pendingStatuses_eq_nil fun task member => ?_
    rw [(mem_sizeWarnings member).1]
    rfl
  rw [notifyForge_eq, configured, present, Bool.not_false, Bool.and_self, if_pos rfl, pendingStatuses_append, warnings,
    pendingStatuses_sentLater covered]
  rfl

theorem notifyForge_unconfigured (unconfigured : senders.github = false) :
    state.notifyForge result senders now room grown = [] := by
  rw [notifyForge, unconfigured, Bool.false_and, if_neg Bool.false_ne_true]

theorem pendingStatuses_of_other
    (different : drvId ≠ result.derivation ∨ ∀ checkRunId, ¬ state.Covers checkRunId drvId) :
    pendingStatuses (state.queue ++ state.notifyForge result senders now room grown) drvId =
      pendingStatuses state.queue drvId := by
  rw [pendingStatuses_append, pendingStatuses_notifyForge_of_ne different, List.append_nil]

theorem Coherent.latest_recorded (coherent : Coherent state) (heeds : Heeds senders state result now room grown)
    (last : (pendingStatuses (state.queue ++ state.notifyForge result senders now room grown) drvId).getLast? = some status) :
    status ≠ .blocked ∧ ∀ buildState, (state.recorded result now room).rowState drvId = some buildState →
      buildStateSeverity status = buildStateSeverity buildState := by
  by_cases covered : ∃ checkRunId, state.Covers checkRunId drvId
  · obtain ⟨checkRunId, covered⟩ := covered
    obtain ⟨row, found, -⟩ := coherent.toGrounded.row_of_job (coherent.forJobs _ _ covered)
    by_cases own : drvId = result.derivation
    · cases own
      obtain ⟨unblocked, faithful⟩ := heeds.faithful checkRunId row covered found
      have after := rowState_own heeds covered found
      cases configured : senders.github with
      | true =>
        rw [pendingStatuses_append, pendingStatuses_notifyForge coherent.toGrounded configured covered,
          List.getLast?_concat] at last
        cases last
        refine ⟨unblocked configured, fun buildState recorded => ?_⟩
        cases after.symm.trans recorded
        rwa [configured, if_pos rfl] at faithful
      | false =>
        rw [notifyForge_unconfigured configured, List.append_nil] at last
        obtain ⟨unblocked, alike⟩ := coherent.latest _ status last
        refine ⟨unblocked, fun buildState recorded => ?_⟩
        cases after.symm.trans recorded
        rw [configured, if_neg Bool.false_ne_true] at faithful
        exact (alike row found).trans faithful
    · rw [pendingStatuses_of_other (.inl own)] at last
      obtain ⟨unblocked, alike⟩ := coherent.latest drvId status last
      refine ⟨unblocked, fun buildState recorded => ?_⟩
      have severity := severity_other heeds covered own
      rw [recorded, found] at severity
      exact (alike row found).trans (Option.some.inj severity).symm
  · push Not at covered
    rw [pendingStatuses_of_other (.inr covered)] at last
    obtain ⟨checkRunId, directed⟩ := coherent.directed drvId fun none => by
      rw [none] at last
      cases last
    exact absurd directed (covered checkRunId)

theorem Coherent.settled_recorded (coherent : Coherent state) (heeds : Heeds senders state result now room grown)
    (covered : state.Covers checkRunId drvId) (unsent : ∀ other, state.Covers checkRunId other →
      pendingStatuses (state.queue ++ state.notifyForge result senders now room grown) other = []) :
    state.shown checkRunId = (state.recorded result now room).recordedDisplay checkRunId := by
  refine coherent.settled_next coherent.toGrounded.recorded covered (fun _ => Iff.rfl) ?_ fun other covers => ?_
  · intro other covers
    by_cases own : other = result.derivation
    · cases own
      obtain ⟨row, found, -⟩ := coherent.toGrounded.row_of_job (coherent.forJobs _ _ covers)
      have faithful := (heeds.faithful checkRunId row covers found).2
      cases configured : senders.github with
      | true =>
        have none := unsent _ covers
        rw [pendingStatuses_append, pendingStatuses_notifyForge coherent.toGrounded configured covers] at none
        cases (List.append_eq_nil_iff.mp none).2
      | false =>
        rw [configured, if_neg Bool.false_ne_true] at faithful
        rw [rowState_own heeds covers found, found]
        exact congrArg some faithful.symm
    · exact severity_other heeds covers own
  · have none := unsent other covers
    rw [pendingStatuses_append] at none
    exact (List.append_eq_nil_iff.mp none).1

theorem Coherent.warned_recorded (coherent : Coherent state) (heeds : Heeds senders state result now room grown)
    {earlier later : List (GitHubTask DrvId)} (split : state.queue ++ state.notifyForge result senders now room grown =
      earlier ++ .updateBuildStatusWithSizeWarning drvId status :: later) :
    pendingStatuses later drvId ≠ [] ∨
      (∀ checkRunId, ¬ state.Covers checkRunId drvId) ∧ ∀ task ∈ earlier, task.creates = false := by
  rcases append_split split with ⟨rest, queue, rfl⟩ | ⟨middle, rfl, sent⟩
  · refine (coherent.warned _ _ _ _ queue).imp (fun followed => ?_) id
    rw [pendingStatuses_append]
    exact List.append_ne_nil_of_left_ne_nil followed _
  · obtain ⟨warning, others, between, rfl⟩ := warning_split sent
    obtain ⟨same, some, succeeded, building⟩ := mem_sizeWarnings warning
    cases same
    by_cases covered : ∃ checkRunId, state.Covers checkRunId result.derivation
    · obtain ⟨checkRunId, covered⟩ := covered
      refine .inl ?_
      rw [pendingStatuses_append, pendingStatuses_sentLater covered]
      exact List.append_ne_nil_of_right_ne_nil _ (List.cons_ne_nil _ _)
    · have idle := (heeds.warned some succeeded building).resolve_left covered
      push Not at covered
      refine .inr ⟨covered, fun task member => ?_⟩
      exact (List.mem_append.mp member).elim (idle task) (others task)

theorem Coherent.recorded (coherent : Coherent state) (heeds : Heeds senders state result now room grown) :
    Coherent { state with
      recorder := state.recorder.record now room result
      queue := state.queue ++ state.notifyForge result senders now room grown } := by
  have grounded := @Grounded.recorded _ _ state result now room coherent.toGrounded
  refine ⟨⟨grounded.stored, grounded.present, grounded.unblocked, grounded.forJobs, grounded.numbered⟩, ?_, ?_,
    fun _ _ => coherent.latest_recorded heeds, fun _ _ => coherent.settled_recorded heeds,
    fun _ _ _ _ => coherent.warned_recorded heeds⟩
  · intro drvId jobsetId name difference member
    rcases List.mem_append.mp member with old | new
    · exact coherent.creations _ _ _ _ old
    · rcases mem_notifyForge new with warning | creation | update | ⟨request, impossible⟩
      · cases (mem_sizeWarnings warning).1
      · obtain ⟨job, listed, own, same⟩ := mem_failureCheckRuns creation
        cases same
        exact ⟨⟨job, listed, own⟩, coherent.present job listed⟩
      · cases (mem_statusUpdate update).1
      · cases impossible
  · intro drvId pending
    by_contra uncovered
    have uncovered : ∀ checkRunId, ¬ state.Covers checkRunId drvId := fun checkRunId covered =>
      uncovered ⟨checkRunId, covered⟩
    obtain ⟨checkRunId, covered⟩ := coherent.directed drvId
      (@pendingStatuses_of_other _ _ state _ senders result now room grown (.inr uncovered) ▸ pending)
    exact uncovered checkRunId covered

end Record

theorem Coherent.step {senders : RecorderSenders} {action : ForgeAction DrvId} {next : ForgeState DrvId}
    (coherent : Coherent state) (meets : heeds senders state action) (taken : state.step senders action = some next) :
    Coherent next := by
  cases action with
  | record task now room grown =>
    cases taken
    exact coherent.recorded meets
  | github answers =>
    cases queue : state.queue with
    | nil =>
      simp only [ForgeState.step, queue] at taken
      cases taken
    | cons task rest =>
      simp only [ForgeState.step, queue] at taken
      cases taken
      cases task with
      | updateBuildStatus drvId status => exact coherent.updated queue
      | updateBuildStatusWithSizeWarning drvId status => exact coherent.sizeWarned queue
      | createFailureCheckRun drvId jobsetId name difference => exact coherent.created queue
      | _ => exact coherent.ignored queue fun _ => rfl

/-- What is left to do for the tasks of a queue: the creation of a check run may send an
update. -/
def workload (queue : List (GitHubTask DrvId)) : Nat := queue.length + queue.countP GitHubTask.creates

theorem Coherent.workload_handled (coherent : Coherent state) (split : state.queue = task :: rest) :
    workload (handleGithubTask { state with queue := rest } answers task).queue < workload state.queue := by
  have others : workload rest < workload state.queue := by
    rw [split, workload, workload, List.length_cons, List.countP_cons]
    omega
  cases task with
  | updateBuildStatus drvId status =>
    rw [handleGithubTask, updateBuildStatus, foldl_publish fun _ _ => rfl]
    exact others
  | updateBuildStatusWithSizeWarning drvId status =>
    rw [handleGithubTask, updateBuildStatusWithSizeWarning, foldl_publish fun _ _ => rfl]
    exact others
  | createFailureCheckRun drvId jobsetId name difference =>
    have created := @Coherent.creates _ _ state _ answers _ _ _ _ coherent split
    generalize handleGithubTask { state with queue := rest } answers _ = next at created ⊢
    cases created with
    | missing => exact others
    | opened => exact others
    | attached =>
      simp only [split, push, attach, workload, List.length_append, List.length_cons, List.countP_append, List.countP_cons,
        List.countP_nil, GitHubTask.creates, List.length_nil, if_true, Bool.false_eq_true, if_false]
      omega
  | _ => exact others

theorem Coherent.drains {senders : RecorderSenders} (coherent : Coherent state) (answers : CheckRunAnswers) :
    ∃ count drained, exec (fun state => state.step senders) state (List.replicate count (.github answers)) = some drained ∧
      drained.queue = [] ∧ Coherent drained := by
  induction work : workload state.queue using Nat.strong_induction_on generalizing state with
  | _ work ih =>
    cases split : state.queue with
    | nil => exact ⟨0, state, rfl, split, coherent⟩
    | cons task rest =>
      have taken : state.step senders (.github answers) =
          some (handleGithubTask { state with queue := rest } answers task) := by
        simp only [ForgeState.step, split]
      have less : workload (handleGithubTask { state with queue := rest } answers task).queue < workload state.queue :=
        coherent.workload_handled split
      have meets : heeds senders state (.github answers) := trivial
      obtain ⟨count, drained, performed, ended⟩ := ih _ (work ▸ less) (coherent.step meets taken) rfl
      refine ⟨count + 1, drained, ?_, ended⟩
      rw [List.replicate_succ, exec, taken, Option.bind_some, performed]

end ForgeState

/-- Once its queue is empty the service shows what is recorded, and it empties its queue,
in every run whose tasks carry results as severe as what is recorded, and take no drv
along that is shown as anything but failed. -/
theorem run_displayed [DecidableEq DrvId] (senders : RecorderSenders) {start final : ForgeState DrvId}
    (grounded : start.Grounded) (displayed : start.Displayed) (idle : start.queue = []) {actions : List (ForgeAction DrvId)}
    (run : Run (fun state => state.step senders) (ForgeState.heeds senders) start actions final) :
    (final.queue = [] → final.Displayed) ∧ ∀ answers, ∃ count drained,
      exec (fun state => state.step senders) final (List.replicate count (.github answers)) = some drained ∧
        drained.queue = [] ∧ drained.Displayed := by
  have coherent : final.Coherent := run.invariant (grounded.coherent displayed idle)
    fun _ _ _ coherent meets taken => coherent.step meets taken
  refine ⟨coherent.displayed, fun answers => ?_⟩
  obtain ⟨count, drained, performed, ended, settled⟩ := coherent.drains answers
  exact ⟨count, drained, performed, ended, settled.displayed ended⟩

namespace ForgeState

/-- Two variants of a kernel share a check run while one of them is being built. -/
def twoKernels : ForgeState Nat where
  recorder := {
    service := .started (Database.empty.insertDrvsAndReferences [.plain 1 .building, .plain 2 .queued] []) 3
    tables := .single ⟨7, "c0", "stable", "ekala", "corepkgs"⟩
      [⟨7, 1, "linux.v6_17", .new⟩, ⟨7, 2, "linux.v6_18", .new⟩] (by simp)
    requests := [] }
  checkRuns := [⟨0, 1, none⟩, ⟨0, 2, none⟩]
  shown := fun _ => (.inProgress, none)
  queue := []
  fresh := 1

theorem twoKernels_grounded : twoKernels.Grounded where
  stored := by decide
  present := by decide
  unblocked drvId blocked := by
    obtain ⟨drv, found, -⟩ := Option.map_eq_some_iff.mp blocked
    have all : ∀ other ∈ twoKernels.recorder.service.db.drvs.keys, twoKernels.rowState other ≠ some .blocked := by decide
    exact all drvId (Table.mem_keys_of_get found) blocked
  forJobs checkRunId drvId covered := by
    have all : ∀ pair ∈ twoKernels.checkRuns.map CheckRunRow.key,
        ∃ job ∈ twoKernels.recorder.tables.jobs, job.drvId = pair.2 := by decide
    exact all (checkRunId, drvId) covered
  numbered checkRunId drvId covered := by
    have all : ∀ pair ∈ twoKernels.checkRuns.map CheckRunRow.key, pair.1 < twoKernels.fresh := by decide
    exact all (checkRunId, drvId) covered

theorem twoKernels_shown : twoKernels.Displayed := by
  unfold Displayed
  decide

/-- One of them succeeds, and the check run waits for the other. -/
theorem twoKernels_displayed : ∃ final, Run (fun state => state.step ⟨true, true⟩) (heeds ⟨true, true⟩) twoKernels
      [.record ⟨1, .completed .success⟩ 0 true 0, .github ⟨fun _ => true, 0⟩] final ∧
    final.queue = [] ∧ final.shown 0 = (.queued, none) ∧ final.Displayed := by
  have meets : Heeds ⟨true, true⟩ twoKernels ⟨1, .completed .success⟩ 0 true 0 := by
    refine ⟨fun _ row _ found => ?_, (fun _ taken => nomatch taken), fun grown => absurd rfl grown⟩
    cases found
    decide
  have run : Run (fun state => state.step ⟨true, true⟩) (heeds ⟨true, true⟩) twoKernels
      [.record ⟨1, .completed .success⟩ 0 true 0, .github ⟨fun _ => true, 0⟩] _ := .cons meets rfl (.cons trivial rfl .start)
  exact ⟨_, run, rfl, by decide, (run_displayed _ twoKernels_grounded twoKernels_shown rfl run).1 rfl⟩

/-- One of them fails for the first time, will be tried again, and is shown as failed. -/
theorem twoKernels_not_displayed : ¬ ∀ (senders : RecorderSenders) (start final : ForgeState Nat)
    (actions : List (ForgeAction Nat)), start.Grounded → start.Displayed → start.queue = [] →
      AnyRun (fun state => state.step senders) start actions final → final.queue = [] → final.Displayed := by
  intro always
  have run : AnyRun (fun state => state.step ⟨true, true⟩) twoKernels
      [.record ⟨1, .completed .failure⟩ 0 true 0, .github ⟨fun _ => true, 0⟩] _ := run_of_exec rfl
  have displayed := always _ _ _ _ twoKernels_grounded twoKernels_shown rfl run rfl
  exact absurd (displayed ⟨0, 1, none⟩ List.mem_cons_self) (by decide)

end ForgeState

end EkaCI
