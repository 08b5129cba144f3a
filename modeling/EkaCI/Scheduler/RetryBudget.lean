import EkaCI.Scheduler.Life
import EkaCI.Scheduler.RecorderCalls
import EkaCI.Scheduler.SingleBuild

/-! The retry budget of two attempts. The number of an attempt is not stored: the
recorder takes it from the database, where `building` means the first attempt and
`failedRetry` the second. The retry is picked up like any build, so unless the
message that it is being built gets lost, its failure looks like the first. -/

namespace EkaCI

open Lib

variable {DrvId : Type} [DecidableEq DrvId]

def Life.tellsAttempt (life : Life) : Bool :=
  life.row = some (if life.outcomes = [] then .building else .failedRetry)

/-- The drv has failed for good. -/
def Life.hasFailed (life : Life) : Bool := life.row = some (.completed .failure)

namespace System

/-- A check of the drv would mark it buildable. -/
def isReadyFor (config : SchedulerConfig) (system : System DrvId) (drvId : DrvId) : Bool :=
  system.view.isBuildable drvId && match system.view.get drvId with
    | none => false
    | some node => config.builderFeatures.canBuild node.requiredSystemFeatures

/-- The drv is picked up while nothing of it is under way. Its failures are
recorded when no update of its state is on its way to the graph and its row tells
the attempt. Once it has failed for good, nothing puts it back to work. -/
def keepsBudget (config : SchedulerConfig) (drvId : DrvId) (system : System DrvId)
    (action : Action DrvId) : Bool :=
  let life := system.lifeOf drvId
  action.keepsDrvs &&
  (!life.hasFailed || system.checkedDrv action ≠ some drvId || !system.isReadyFor config drvId) &&
  match action with
  | .dryRunDone (some report) _ =>
    !life.hasFailed || system.ingress ≠ .dryRun drvId false || report.willBuild ≠ {drvId}
  | .applyCommand _ => match system.graphQueue with
    | [] | (.updateState .., _) :: _ => true
    | (command, _) :: _ => system.service.keepsStates (fun other => other = drvId && life.hasFailed)
        (.completed .failure) command
  | .pickUp builder _ => match system.builderQueues builder with
    | [] => true
    | request :: _ => request.drvPath ≠ drvId || (life.view.map (·.isTerminal)).getD false ||
        (life.running = 0 && life.results = [])
  | .record _ => match system.recorderQueue with
    | [] => true
    | task :: _ => task.derivation ≠ drvId ||
        (failsAttempt task.result && life.updates = [] && life.tellsAttempt)
  | .recordReply .. => match system.recorder with
    | .propagated _ blocked => !life.hasFailed || drvId ∉ blocked
    | _ => true
  | _ => true

abbrev FailedForGood : Life → Prop := Done (.completed .failure) (· = .completed .failure)

/-- Every attempt is running, waiting to be recorded, or recorded; and two of
them are the end. -/
structure WithinBudget (life : Life) : Prop where
  starts : life.starts ≤ 2
  counted : life.starts ≤ life.running + life.results.length + life.outcomes.length
  outcomes : life.outcomes.length ≤ 2
  spent : life.outcomes.length = 2 → FailedForGood life ∧ .completed .failure ∈ life.outcomes

section Budget

variable {config : SchedulerConfig} {system : System DrvId} {action : Action DrvId} {drvId : DrvId} {life : Life}

theorem hasFailed_of_failedForGood (failed : FailedForGood life) : life.hasFailed = true := by
  obtain ⟨state, found, same⟩ := failed.row
  rw [Life.hasFailed, found, same]
  rfl

theorem keepsBudget_record {room : Bool} {result : DrvBuildState}
    (meets : keepsBudget config drvId system (.record room) = true)
    (head : system.recorderQueue.head? = some ⟨drvId, result⟩) :
    failsAttempt result = true ∧ (system.lifeOf drvId).updates = [] ∧
      (system.lifeOf drvId).row = some (if (system.lifeOf drvId).outcomes = [] then .building else .failedRetry) := by
  obtain ⟨rest, queue⟩ := List.head?_eq_some_iff.mp head
  simp only [keepsBudget, queue, Life.tellsAttempt, ne_eq, not_true_eq_false, decide_false, Bool.false_or,
    Bool.and_eq_true, decide_eq_true_eq] at meets
  exact ⟨meets.2.1.1, meets.2.1.2, meets.2.2⟩

theorem FailedForGood.undisturbed (meets : keepsBudget config drvId system action = true)
    (failed : FailedForGood (system.lifeOf drvId)) :
    Undisturbed config system action drvId (.completed .failure) (· = .completed .failure) := by
  have ended := hasFailed_of_failedForGood failed
  have condition := meets
  simp only [keepsBudget, ended, Bool.not_true, Bool.false_or, Bool.and_eq_true, Bool.or_eq_true] at meets
  obtain ⟨⟨-, unchecked⟩, kept⟩ := meets
  constructor
  · intro node checked ready found can
    simp [checked, isReadyFor, ready, found, can] at unchecked
  · intro report room cut phase only
    subst cut
    simp [phase, only] at kept
  · intro now failedDrv caller applies head dependent
    subst applies
    obtain ⟨rest, queue⟩ := List.head?_eq_some_iff.mp head
    simp only [queue] at kept
    have spared := GraphService.not_chosen_of_dependent kept dependent
    simp at spared
  · intro now formerlyFailed caller applies head freed
    subst applies
    obtain ⟨rest, queue⟩ := List.head?_eq_some_iff.mp head
    simp only [queue] at kept
    have spared := GraphService.not_chosen_of_unblocked kept freed
    simp at spared
  · intro unblocked referrers failedDrv blocked replies phase member
    subst replies
    simp [phase, member] at kept
  · intro room result state followUp records head decided
    subst records
    obtain ⟨written, found, same⟩ := failed.row
    have told := (keepsBudget_record condition head).2.2
    rw [found, same] at told
    split at told <;> cases told

/-- What the recorder makes of a failure whose row tells the attempt: a retry of
the first, the end of the second. -/
theorem decided_of_tellsAttempt {result state : DrvBuildState} {followUp : FollowUp}
    (failed : failsAttempt result = true)
    (told : life.row = some (if life.outcomes = [] then .building else .failedRetry))
    (decided : Decided life.row result state followUp) :
    (life.outcomes = [] ∧ state = .failedRetry) ∨ (life.outcomes ≠ [] ∧ state = .completed .failure) := by
  cases decided with
  | success succeeded =>
    rw [succeeded] at failed
    cases failed
  | retry _ known _ first =>
    by_cases none : life.outcomes = []
    · exact .inl ⟨none, rfl⟩
    · rw [if_neg none] at told
      cases told.symm.trans known
      exact absurd rfl first
  | giveUp _ second =>
    by_cases none : life.outcomes = []
    · rw [if_pos none] at told
      cases told.symm.trans second
    · exact .inr ⟨none, rfl⟩
  | interrupted stopped final =>
    rw [stopped, failsAttempt, final] at failed
    cases failed
  | unsatisfiable rejected =>
    rw [rejected] at failed
    cases failed

theorem recordDecision_of_tellsAttempt {result : DrvBuildState} (failed : failsAttempt result = true)
    (told : life.row = some (if life.outcomes = [] then .building else .failedRetry)) :
    recordDecision life.row result ≠ none := by
  rw [told]
  split
  · cases result with
    | completed ended => cases ended <;> simp_all [recordDecision, failsAttempt]
    | interrupted kind => simp_all [recordDecision, failsAttempt, DrvBuildState.isTerminal]
    | _ => cases failed
  · cases result with
    | completed ended => cases ended <;> simp_all [recordDecision, failsAttempt]
    | interrupted kind => simp_all [recordDecision, failsAttempt, DrvBuildState.isTerminal]
    | _ => cases failed

theorem keepsBudget_pickUp {builder : Nat} {room : Bool} {request : Drv DrvId} {state : DrvBuildState}
    (meets : keepsBudget config drvId system (.pickUp builder room) = true)
    (head : (system.builderQueues builder).head? = some request) (named : request.drvPath = drvId)
    (seen : (system.lifeOf drvId).view = some state) (unfinished : state.isTerminal = false) :
    (system.lifeOf drvId).running = 0 ∧ (system.lifeOf drvId).results = [] := by
  obtain ⟨rest, queue⟩ := List.head?_eq_some_iff.mp head
  simpa [keepsBudget, Action.keepsDrvs, checkedDrv, queue, named, seen, unfinished] using meets

theorem failedForGood_of_second {room : Bool} {later : List DrvBuildState}
    (updates : (system.lifeOf drvId).updates = [])
    (stored : (system.lifeOf drvId).row ≠ none) :
    FailedForGood { system.lifeOf drvId with
      view := (system.lifeOf drvId).view.map fun _ => .completed .failure
      row := (system.lifeOf drvId).row.map fun _ => .completed .failure
      updates := (system.lifeOf drvId).updates ++ if room then [.completed .failure] else []
      results := later
      outcomes := (system.lifeOf drvId).outcomes ++ [.completed .failure] } := by
  obtain ⟨earlier, found⟩ := Option.ne_none_iff_exists'.mp stored
  refine ⟨?_, ⟨.completed .failure, by rw [found]; rfl, rfl⟩, fun other member => ?_⟩
  · cases (system.lifeOf drvId).view <;> simp
  · rw [updates, List.nil_append] at member
    split at member
    · exact List.mem_singleton.mp member
    · cases member

theorem WithinBudget.happens (known : system.KnownDrvs) (meets : keepsBudget config drvId system action = true)
    (within : WithinBudget (system.lifeOf drvId)) (happens : Happens config system action drvId life) :
    WithinBudget life := by
  have failed : (system.lifeOf drvId).outcomes.length = 2 → FailedForGood life := by
    intro spent
    have earlier := (within.spent spent).1
    exact earlier.happens known rfl rfl (earlier.undisturbed meets) happens
  cases happens with
  | @started builder request room picks head named unfinished =>
    subst picks
    have present := known.given builder request (List.mem_of_mem_head? head)
    obtain ⟨node, found⟩ := Table.get_of_mem_keys (named ▸ present)
    have seen : (system.lifeOf drvId).view = some node.buildState := congrArg (Option.map _) found
    obtain ⟨idle, none⟩ := keepsBudget_pickUp meets head named seen (unfinished _ seen)
    have unspent : (system.lifeOf drvId).outcomes.length ≠ 2 := by
      intro spent
      rcases (within.spent spent).1.view with absent | final
      · cases absent.symm.trans seen
      · cases unfinished _ final
    have counted := within.counted
    have outcomes := within.outcomes
    simp only [idle, none, List.length_nil] at counted
    refine ⟨?_, ?_, outcomes, fun spent => absurd spent unspent⟩
    · dsimp only
      omega
    · simp only [idle, none, List.length_nil]
      omega
  | @finished builder outcome others ends valid running =>
    refine ⟨within.starts, ?_, within.outcomes, fun spent => ⟨failed spent, (within.spent spent).2⟩⟩
    have counted := within.counted
    simp only [List.length_append, List.length_singleton]
    omega
  | @ignored room result later records head first stale =>
    subst records
    obtain ⟨failing, -, told⟩ := keepsBudget_record meets head
    exact absurd stale (recordDecision_of_tellsAttempt failing told)
  | @settled room result state followUp later records head first decided =>
    subst records
    obtain ⟨failing, updates, told⟩ := keepsBudget_record meets head
    have counted := within.counted
    rw [first, List.length_cons] at counted
    have shorter : (system.lifeOf drvId).outcomes.length ≤ 1 := by
      have outcomes := within.outcomes
      by_contra more
      obtain ⟨written, found, same⟩ := (within.spent (by omega)).1.row
      rw [found, same] at told
      split at told <;> cases told
    refine ⟨within.starts, ?_, ?_, fun spent => ?_⟩
    · simp only [List.length_append, List.length_singleton]
      omega
    · simp only [List.length_append, List.length_singleton]
      omega
    · rcases decided_of_tellsAttempt failing told decided with ⟨none, -⟩ | ⟨-, same⟩
      · simp [none] at spent
      · subst same
        refine ⟨failedForGood_of_second updates (by simp [told]), ?_⟩
        exact List.mem_append_right _ (List.mem_singleton_self _)
  | @reported results early =>
    refine ⟨within.starts, ?_, within.outcomes, fun spent => ⟨failed spent, (within.spent spent).2⟩⟩
    have counted := within.counted
    simp only [List.length_append]
    omega
  | _ => exact ⟨within.starts, within.counted, within.outcomes, fun spent => ⟨failed spent, (within.spent spent).2⟩⟩

end Budget

structure BudgetKept (drvId : DrvId) (system : System DrvId) : Prop where
  known : system.KnownDrvs
  within : WithinBudget (system.lifeOf drvId)
  calls : system.RecorderCalls
  propagated : system.FailuresPropagated

/-- In a run that keeps the budget of a drv, it is picked up at most twice; and
from the second failure on the database has it failed for good, with the failure
propagated once the recorder is done with it. -/
theorem retry_budget (config : SchedulerConfig) (db : Database DrvId) (capacity : Nat)
    (positive : 0 < capacity) (now : Instant) (drvId : DrvId) {actions : List (Action DrvId)}
    {final : System DrvId}
    (run : RunsFrom config db capacity positive now (keepsBudget config drvId) actions final) :
    final.log.count (.pickedUp drvId) ≤ 2 ∧
      (2 ≤ (final.log.filterMap (Event.outcomeOf drvId)).length →
        final.db.rowState drvId = some (.completed .failure) ∧
          (final.recorder = .idle → ∃ blocked, .propagated drvId blocked ∈ final.log)) := by
  have valid : BudgetKept drvId final := by
    refine run.invariant ?_ ?_
    · refine ⟨start_knownDrvs db capacity positive now, ?_, start_recorderCalls db capacity positive now,
        fun _ failed => ?_⟩
      · exact ⟨Nat.zero_le _, Nat.zero_le _, Nat.zero_le _, fun spent => by cases spent⟩
      · cases failed
    · intro system action next valid meets taken
      have transition := transition_of_step taken
      have keeps : action.keepsDrvs = true := by
        simp only [keepsBudget, Bool.and_eq_true] at meets
        exact meets.1.1
      have happens := happens_of_transition valid.known keeps transition drvId
      exact ⟨valid.known.step keeps transition, valid.within.happens valid.known meets happens,
        valid.calls.step transition, valid.propagated.step transition⟩
  refine ⟨valid.within.starts, fun spent => ?_⟩
  obtain ⟨failed, recorded⟩ := valid.within.spent (Nat.le_antisymm valid.within.outcomes spent)
  obtain ⟨state, found, same⟩ := failed.row
  refine ⟨same ▸ found, fun idle => ?_⟩
  apply (valid.propagated drvId (mem_outcomes.mp recorded)).resolve_right
  rintro ⟨caller, waiting⟩
  have recorders : caller = .recorder := valid.calls.senders _ waiting rfl
  have called : (.propagateFailure drvId, caller) ∈ final.graphQueue.filter (·.2 = .recorder) :=
    List.mem_filter.mpr ⟨waiting, decide_eq_true recorders⟩
  rw [valid.calls.waiting, idle] at called
  cases called

/-- Two failed attempts, where the graph has no room for the message that the
retry is being built. -/
def failTwice : List (Action Nat) :=
  [.submit (.checkBuildable 0), .ingest true, .applyCommand 0, .sendBuild true,
    .dispatch (.plain 0 .queued) 0, .pickUp 0 true, .applyCommand 0,
    .finish 0 0 (.completed .failure), .record true, .applyCommand 0,
    .ingest true, .dispatch (.plain 0 .failedRetry) 0, .pickUp 0 false,
    .finish 0 0 (.interrupted .timeout), .record true, .applyCommand 0, .applyCommand 0, .recordReply [] []]

theorem failTwice_budget_kept : ∃ final,
    RunsFrom soloBuilders soloDatabase 1 (by decide) 0 (keepsBudget soloBuilders 0) failTwice final ∧
    final.log.count (.pickedUp 0) = 2 ∧ final.log.count (.pickedUp 0) ≤ 2 ∧
    final.db.rowState 0 = some (.completed .failure) ∧ ∃ blocked, .propagated 0 blocked ∈ final.log := by
  refine exists_run_of_checkRun_imp (p := fun final => final.log.count (.pickedUp 0) = 2 ∧
      2 ≤ (final.log.filterMap (Event.outcomeOf 0)).length ∧ final.recorder = .idle)
    (by decide) fun final run ⟨twice, spent, idle⟩ => ?_
  obtain ⟨bounded, settled⟩ := retry_budget soloBuilders soloDatabase 1 (by decide) 0 0 run
  exact ⟨twice, bounded, (settled spent).1, (settled spent).2 idle⟩

/-- Every attempt is announced to the graph in time, and the failure of the retry
earns another retry. -/
def retryAfterRetry : List (Action Nat) :=
  failAndRetry ++ [.finish 1 0 (.completed .failure), .record true, .applyCommand 0,
    .ingest true, .dispatch (.plain 0 .failedRetry) 0, .pickUp 0 true]

theorem retryAfterRetry_budget_exceeded : ∃ final,
    AnyRun (step soloBuilders) (start soloDatabase 1 (by decide) 0) retryAfterRetry final ∧
    final.log.count (.pickedUp 0) = 3 ∧ (final.log.filterMap (Event.outcomeOf 0)).length = 2 ∧
    final.db.rowState 0 = some .failedRetry :=
  exists_run_of_exec (by decide)

end System

end EkaCI
