import EkaCI.Scheduler.Life
import EkaCI.Scheduler.RecorderCalls
import EkaCI.Scheduler.SingleBuild

/-! What becomes of the outcome of a build. The builder thread says that a drv is
being built in the shared view and, if the graph has room for the message, in
the database; the recorder goes by the database. An outcome is handled as long
as the two agree by the time it is recorded. -/

namespace EkaCI

open Lib

variable {DrvId : Type} [DecidableEq DrvId]

/-- Something says that the drv is being built, or is about to. -/
def Life.MarkedBuilding (life : Life) : Prop :=
  life.view = some .building ∨ life.row = some .building ∨ .building ∈ life.updates

/-- The result at hand is the last there is of the drv: no other waits and no
build of it runs. -/
def Life.isLastResult (life : Life) : Bool := life.running = 0 && life.results.length ≤ 1

/-- When the recorder turns to a result: a failure finds the drv building or at
its retry, unless the drv is finished; and after the last result nothing says
that the drv is being built, neither an update on its way nor, where the result
is stale, the view. -/
def Life.handles (life : Life) (result : DrvBuildState) : Bool :=
  let finished := (life.row.map (·.isTerminal)).getD true
  (result ≠ .completed .failure || life.row = some .building || life.row = some .failedRetry || finished) &&
    (!life.isLastResult || (.building ∉ life.updates &&
      (!finished || result = .completed .success || life.view ≠ some .building)))

theorem Life.expected_of_handles {life : Life} {result : DrvBuildState} (handles : life.handles result = true) :
    result ≠ .completed .failure ∨ life.row = some .building ∨ life.row = some .failedRetry ∨
      (life.row.map (·.isTerminal)).getD true = true := by
  simp only [Life.handles, Bool.and_eq_true] at handles
  simpa [or_assoc] using handles.1

namespace System

/-- The results of builds are recorded when the database is ready for them. -/
def handlesOutcomes (system : System DrvId) (action : Action DrvId) : Bool :=
  action.keepsDrvs && match action with
  | .record _ => match system.recorderQueue with
    | [] => true
    | task :: _ => (system.lifeOf task.derivation).handles task.result
  | _ => true

/-- Nothing is left for the graph and the recorder to do, and no build runs. -/
structure Drained (system : System DrvId) : Prop where
  commands : system.graphQueue = []
  tasks : system.recorderQueue = []
  builds : system.attempts = []

/-- Whatever says that a drv is being built, a build or a result of it is under
way. -/
structure Accounted (life : Life) : Prop where
  results : ∀ result ∈ life.results, isBuildOutcome result = true ∨ result = .unsatisfiableRequirements
  seen : 0 < life.starts → life.view ≠ none
  underway : 0 < life.starts → life.MarkedBuilding → 0 < life.running ∨ life.results ≠ []

section Accounted

variable {config : SchedulerConfig} {system : System DrvId} {action : Action DrvId} {drvId : DrvId} {life : Life}

theorem finished_of_ignored {row : Option DrvBuildState} {result : DrvBuildState}
    (outcome : isBuildOutcome result = true ∨ result = .unsatisfiableRequirements)
    (expected : result ≠ .completed .failure ∨ row = some .building ∨ row = some .failedRetry ∨
      (row.map (·.isTerminal)).getD true = true)
    (stale : recordDecision row result = none) :
    (row.map (·.isTerminal)).getD true = true ∧ result ≠ .completed .success := by
  cases result with
  | completed ended =>
    cases ended with
    | success => cases stale
    | failure =>
      rcases expected with different | building | retry | finished
      · exact absurd rfl different
      · rw [building] at stale
        cases stale
      · rw [retry] at stale
        cases stale
      · exact ⟨finished, by decide⟩
  | interrupted kind =>
    refine ⟨?_, by simp⟩
    cases row with
    | none => rfl
    | some state =>
      simp only [recordDecision] at stale
      split at stale
      · assumption
      · split at stale
        · split at stale <;> cases stale
        · cases stale
  | unsatisfiableRequirements =>
    refine ⟨?_, by simp⟩
    cases row with
    | none => rfl
    | some state =>
      simp only [recordDecision, Option.getD_some] at stale
      split at stale
      · assumption
      · cases stale
  | _ => rcases outcome with impossible | impossible <;> cases impossible

theorem handles_of_meets {room : Bool} {result : DrvBuildState}
    (meets : system.handlesOutcomes (.record room) = true)
    (head : system.recorderQueue.head? = some ⟨drvId, result⟩) :
    (system.lifeOf drvId).handles result = true := by
  obtain ⟨rest, queue⟩ := List.head?_eq_some_iff.mp head
  simp only [handlesOutcomes, queue, Bool.and_eq_true] at meets
  exact meets.2

omit [DecidableEq DrvId] in
theorem left_or_last {result : DrvBuildState} {later : List DrvBuildState} {lastly : Bool}
    (first : life.results = result :: later) (last : (!life.isLastResult || lastly) = true) :
    (0 < life.running ∨ later ≠ []) ∨ lastly = true := by
  rcases Bool.or_eq_true_iff.mp last with more | held
  · refine .inl ?_
    by_contra done
    obtain ⟨idle, empty⟩ := not_or.mp done
    rw [not_not] at empty
    have idle : life.running = 0 := Nat.eq_zero_of_not_pos idle
    simp [Life.isLastResult, first, empty, idle] at more
  · exact .inr held

theorem Accounted.of_marks (accounted : Accounted (system.lifeOf drvId))
    (results : life.results = (system.lifeOf drvId).results) (running : life.running = (system.lifeOf drvId).running)
    (starts : life.starts = (system.lifeOf drvId).starts)
    (seen : life.view = none → (system.lifeOf drvId).view = none)
    (marks : life.MarkedBuilding → (system.lifeOf drvId).MarkedBuilding) : Accounted life := by
  refine ⟨results ▸ accounted.results, fun started none => ?_, fun started marked => ?_⟩
  · exact accounted.seen (starts ▸ started) (seen none)
  · rw [running, results]
    exact accounted.underway (starts ▸ started) (marks marked)

theorem Accounted.happens (known : system.KnownDrvs) (meets : system.handlesOutcomes action = true)
    (accounted : Accounted (system.lifeOf drvId)) (happens : Happens config system action drvId life) :
    Accounted life := by
  cases happens with
  | nothing => exact accounted
  | @reported results early =>
    refine ⟨fun result member => ?_, accounted.seen, fun started marked => ?_⟩
    · rcases List.mem_append.mp member with earlier | added
      · exact accounted.results result earlier
      · rcases early result added with success | unsatisfiable
        · exact .inl (success ▸ rfl)
        · exact .inr unsatisfiable
    · refine (accounted.underway started marked).imp_right fun nonempty => ?_
      exact List.append_ne_nil_of_left_ne_nil nonempty _
  | announced =>
    refine accounted.of_marks rfl rfl rfl id fun marked => ?_
    rcases marked with seen | stored | waiting
    · exact .inl seen
    · exact .inr (.inl stored)
    · exact .inr (.inr (by simpa using waiting))
  | shortCut =>
    refine accounted.of_marks rfl rfl rfl (by simp) fun marked => ?_
    rcases marked with seen | stored | waiting
    · cases found : (system.lifeOf drvId).view <;> simp [found] at seen
    · exact .inr (.inl stored)
    · exact .inr (.inr waiting)
  | @updated state later first =>
    refine accounted.of_marks rfl rfl rfl (by simp) fun marked => .inr (.inr ?_)
    rw [first]
    rcases marked with seen | stored | waiting
    · obtain ⟨_, -, same⟩ := Option.map_eq_some_iff.mp seen
      exact same ▸ List.mem_cons_self ..
    · obtain ⟨_, -, same⟩ := Option.map_eq_some_iff.mp stored
      exact same ▸ List.mem_cons_self ..
    · exact List.mem_cons_of_mem _ waiting
  | blocked =>
    refine accounted.of_marks rfl rfl rfl (by simp) fun marked => ?_
    rcases marked with seen | stored | waiting
    · cases found : (system.lifeOf drvId).view <;> simp [found] at seen
    · cases found : (system.lifeOf drvId).row <;> simp [found] at stored
    · exact .inr (.inr waiting)
  | unblocked =>
    refine accounted.of_marks rfl rfl rfl (by simp) fun marked => ?_
    rcases marked with seen | stored | waiting
    · cases found : (system.lifeOf drvId).view <;> simp [found] at seen
    · exact .inr (.inl stored)
    · exact .inr (.inr waiting)
  | persisted =>
    refine accounted.of_marks rfl rfl rfl id fun marked => ?_
    rcases marked with seen | stored | waiting
    · exact .inl seen
    · cases found : (system.lifeOf drvId).row <;> simp [found] at stored
    · exact .inr (.inr waiting)
  | @started builder request room picks head named unfinished =>
    refine ⟨accounted.results, fun _ => ?_, fun _ _ => .inl (Nat.succ_pos _)⟩
    have present := known.given builder request (List.mem_of_mem_head? head)
    obtain ⟨node, found⟩ := Table.get_of_mem_keys (named ▸ present)
    simp [lifeOf, SharedView.getBuildState, found]
  | @finished builder outcome others ends valid running =>
    refine ⟨fun result member => ?_, accounted.seen, fun _ _ => .inr (by simp)⟩
    rcases List.mem_append.mp member with earlier | added
    · exact accounted.results result earlier
    · exact .inl (List.mem_singleton.mp added ▸ valid)
  | @ignored room result later records head first stale =>
    subst records
    have handles := handles_of_meets meets head
    obtain ⟨finished, failed⟩ := finished_of_ignored
      (accounted.results result (first ▸ List.mem_cons_self ..)) (Life.expected_of_handles handles) stale
    simp only [Life.handles, Bool.and_eq_true] at handles
    refine ⟨fun other member => ?_, accounted.seen, fun started marked => ?_⟩
    · exact accounted.results other (first ▸ List.mem_cons_of_mem _ member)
    · refine (left_or_last first handles.2).elim id fun last => ?_
      simp only [finished, Bool.not_true, Bool.false_or, Bool.and_eq_true, Bool.or_eq_true,
        decide_eq_true_eq, failed, false_or, ne_eq] at last
      rcases marked with seen | stored | waiting
      · exact absurd seen last.2
      · have stored : (system.lifeOf drvId).row = some .building := stored
        rw [stored] at finished
        cases finished
      · exact absurd waiting last.1
  | @settled room result state followUp later records head first decided =>
    subst records
    have handles := handles_of_meets meets head
    simp only [Life.handles, Bool.and_eq_true] at handles
    have different := decided.ne_building
    refine ⟨fun other member => ?_, fun started => ?_, fun started marked => ?_⟩
    · exact accounted.results other (first ▸ List.mem_cons_of_mem _ member)
    · simpa using accounted.seen started
    · refine (left_or_last first handles.2).elim id fun last => ?_
      simp only [Bool.and_eq_true, decide_eq_true_eq] at last
      rcases marked with seen | stored | waiting
      · obtain ⟨_, -, same⟩ := Option.map_eq_some_iff.mp seen
        exact absurd same different
      · obtain ⟨_, -, same⟩ := Option.map_eq_some_iff.mp stored
        exact absurd same different
      · rcases List.mem_append.mp waiting with earlier | added
        · exact absurd earlier last.1
        · split at added
          · exact absurd (List.mem_singleton.mp added).symm different
          · cases added

end Accounted

structure OutcomesHandled (system : System DrvId) : Prop where
  known : system.KnownDrvs
  accounted : ∀ drvId, Accounted (system.lifeOf drvId)
  propagated : system.FailuresPropagated

theorem start_outcomesHandled (db : Database DrvId) (capacity : Nat) (positive : 0 < capacity)
    (now : Instant) : (start db capacity positive now).OutcomesHandled := by
  refine ⟨start_knownDrvs db capacity positive now, fun drvId => ?_, fun _ failed => ?_⟩
  · refine ⟨fun _ member => ?_, fun started => ?_, fun started => ?_⟩
    · cases member
    · cases started
    · cases started
  · cases failed

section Handled

variable {config : SchedulerConfig} {system next : System DrvId} {action : Action DrvId}

theorem OutcomesHandled.step (valid : system.OutcomesHandled) (meets : system.handlesOutcomes action = true)
    (transition : Transition config system action next) : next.OutcomesHandled := by
  have keeps : action.keepsDrvs = true := (Bool.and_eq_true_iff.mp meets).1
  refine ⟨valid.known.step keeps transition, fun drvId => ?_, valid.propagated.step transition⟩
  have happens := happens_of_transition valid.known keeps transition drvId
  exact (valid.accounted drvId).happens valid.known meets happens

theorem OutcomesHandled.stored (valid : system.OutcomesHandled) {drvId : DrvId}
    (picked : .pickedUp drvId ∈ system.log) : ∃ state, system.db.rowState drvId = some state := by
  have seen := (valid.accounted drvId).seen (starts_pos.mpr picked)
  obtain ⟨state, held⟩ := Option.ne_none_iff_exists'.mp seen
  obtain ⟨node, found, -⟩ := Option.map_eq_some_iff.mp held
  obtain ⟨row, stored⟩ := Table.get_of_mem_keys (valid.known.rows drvId (Table.mem_keys_of_get found))
  exact ⟨row.buildState, by simp [Database.rowState, Database.getDrv, stored]⟩

theorem OutcomesHandled.record (valid : system.OutcomesHandled) {room : Bool} {drvId : DrvId}
    {result : DrvBuildState} (meets : system.handlesOutcomes (.record room) = true)
    (taken : system.step config (.record room) = some next)
    (head : system.recorderQueue.head? = some ⟨drvId, result⟩) (failed : failsAttempt result = true)
    (picked : .pickedUp drvId ∈ system.log)
    (unfinished : ∀ state, system.db.rowState drvId = some state → state.isTerminal = false) :
    (next.db.rowState drvId = some .failedRetry ∧ .checkBuildable drvId ∈ next.ingressQueue) ∨
      (next.db.rowState drvId = some (.completed .failure) ∧ next.recorder = .awaitPropagate drvId ∧
        (.propagateFailure drvId, .recorder) ∈ next.graphQueue) := by
  obtain ⟨known, stored⟩ := valid.stored picked
  have row : (system.lifeOf drvId).row = some known := stored
  obtain ⟨rest, queue⟩ := List.head?_eq_some_iff.mp head
  have expected := Life.expected_of_handles (handles_of_meets meets head)
  cases transition_of_step taken with
  | check source => cases source
  | @recordIgnore task others _ _ popped ignored =>
    cases queue.symm.trans popped
    have first := results_of_head queue drvId
    rw [if_pos rfl] at first
    obtain ⟨finished, -⟩ := finished_of_ignored
      ((valid.accounted drvId).results result (first ▸ List.mem_cons_self ..)) expected ignored
    rw [row, Option.map_some, Option.getD_some, unfinished known stored] at finished
    cases finished
  | @recordSettle task others _ state followUp _ popped decided =>
    cases queue.symm.trans popped
    have written : (({ system with recorderQueue := rest }.settle drvId state room).follow
        drvId followUp).db.rowState drvId = some state := by
      rw [(follow_followsUp ..).row]
      have updated := @Database.updateDrvStatus_rowState _ _ system.db drvId drvId state
      rw [if_pos rfl, stored] at updated
      exact updated
    have decided : Decided (system.db.rowState drvId) result state followUp := decided_of_recordDecision decided
    cases decided with
    | success succeeded =>
      rw [succeeded] at failed
      cases failed
    | retry => exact .inl ⟨written, List.mem_append_right _ (List.mem_singleton_self _)⟩
    | giveUp => exact .inr ⟨written, rfl, List.mem_append_right _ (List.mem_singleton_self _)⟩
    | interrupted stopped final =>
      rw [stopped, failsAttempt, final] at failed
      cases failed
    | unsatisfiable rejected =>
      rw [rejected] at failed
      cases failed

end Handled

/-- In a run that records the results of builds when the database is ready for
them: a failed outcome of a build that was picked up sends its drv to its retry
or makes it fail for good, with its dependents to be told, and once everything
is drained no drv is left in `building` and every permanent failure has been
propagated. -/
theorem no_outcome_lost (config : SchedulerConfig) (db : Database DrvId) (capacity : Nat)
    (positive : 0 < capacity) (now : Instant) {actions : List (Action DrvId)} {system : System DrvId}
    (run : RunsFrom config db capacity positive now handlesOutcomes actions system) :
    (∀ room next drvId result, system.handlesOutcomes (.record room) = true →
      system.step config (.record room) = some next →
      system.recorderQueue.head? = some ⟨drvId, result⟩ → failsAttempt result = true →
      .pickedUp drvId ∈ system.log →
      (∀ state, system.db.rowState drvId = some state → state.isTerminal = false) →
      (next.db.rowState drvId = some .failedRetry ∧ .checkBuildable drvId ∈ next.ingressQueue) ∨
        (next.db.rowState drvId = some (.completed .failure) ∧ next.recorder = .awaitPropagate drvId ∧
          (.propagateFailure drvId, .recorder) ∈ next.graphQueue)) ∧
    (system.Drained → ∀ drvId, .pickedUp drvId ∈ system.log →
      system.view.getBuildState drvId ≠ some .building ∧ system.db.rowState drvId ≠ some .building ∧
        (.recorded drvId (.completed .failure) ∈ system.log →
          ∃ blocked, .propagated drvId blocked ∈ system.log)) := by
  have valid : system.OutcomesHandled := by
    apply run.invariant (start_outcomesHandled db capacity positive now)
    intro system action next valid meets taken
    exact valid.step meets (transition_of_step taken)
  refine ⟨fun room next drvId result meets taken head failed picked unfinished => ?_,
    fun drained drvId picked => ?_⟩
  · exact valid.record meets taken head failed picked unfinished
  · have unmarked : ¬ (system.lifeOf drvId).MarkedBuilding := by
      intro marked
      have underway := (valid.accounted drvId).underway (starts_pos.mpr picked) marked
      simp [lifeOf, drained.builds, drained.tasks] at underway
    refine ⟨fun seen => unmarked (.inl seen), fun stored => unmarked (.inr (.inl stored)), fun failed => ?_⟩
    apply (valid.propagated drvId failed).resolve_right
    rintro ⟨caller, waiting⟩
    simp [drained.commands] at waiting

/-- A build that fails and whose failure is about to be recorded. -/
def failOnce : List (Action Nat) :=
  [.submit (.checkBuildable 0), .ingest true, .applyCommand 0, .sendBuild true,
    .dispatch (.plain 0 .queued) 0, .pickUp 0 true, .applyCommand 0, .finish 0 0 (.completed .failure)]

theorem failOnce_handled : ∃ system next,
    RunsFrom soloBuilders soloDatabase 1 (by decide) 0 handlesOutcomes failOnce system ∧
    system.step soloBuilders (.record true) = some next ∧
    ((next.db.rowState 0 = some .failedRetry ∧ .checkBuildable 0 ∈ next.ingressQueue) ∨
      (next.db.rowState 0 = some (.completed .failure) ∧ next.recorder = .awaitPropagate 0 ∧
        (.propagateFailure 0, .recorder) ∈ next.graphQueue)) := by
  have reached : ∃ system,
      RunsFrom soloBuilders soloDatabase 1 (by decide) 0 handlesOutcomes failOnce system ∧
      (system.handlesOutcomes (.record true) = true ∧ (system.step soloBuilders (.record true)).isSome = true ∧
        system.recorderQueue.head? = some ⟨0, .completed .failure⟩ ∧ .pickedUp 0 ∈ system.log ∧
        system.db.rowState 0 = some .building) := exists_run_of_checkRun (by decide)
  obtain ⟨system, run, meets, enabled, head, picked, row⟩ := reached
  obtain ⟨next, taken⟩ := Option.isSome_iff_exists.mp enabled
  refine ⟨system, next, run, taken, ?_⟩
  refine (no_outcome_lost soloBuilders soloDatabase 1 (by decide) 0 run).1 true next 0 (.completed .failure)
    meets taken head rfl picked fun state found => ?_
  cases row.symm.trans found
  rfl

/-- The graph has no room for the message that the drv is being built, and the
build fails: the recorder does not know what to do with the failure. -/
def refusedMark : List (Action Nat) :=
  [.submit (.checkBuildable 0), .ingest true, .applyCommand 0, .sendBuild true,
    .dispatch (.plain 0 .queued) 0, .pickUp 0 false, .finish 0 0 (.completed .failure), .record true]

instance (system : System DrvId) : Decidable system.Drained :=
  decidable_of_iff (system.graphQueue = [] ∧ system.recorderQueue = [] ∧ system.attempts = [])
    ⟨fun drained => ⟨drained.1, drained.2.1, drained.2.2⟩,
      fun drained => ⟨drained.commands, drained.tasks, drained.builds⟩⟩

theorem refusedMark_outcome_lost : ∃ final,
    AnyRun (step soloBuilders) (start soloDatabase 1 (by decide) 0) refusedMark final ∧
    final.Drained ∧ .pickedUp 0 ∈ final.log ∧ final.ingressQueue = [] ∧
    final.db.rowState 0 = some .buildable ∧ final.view.getBuildState 0 = some .building :=
  exists_run_of_exec (by decide)

end System

end EkaCI
