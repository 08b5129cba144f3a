import EkaCI.Scheduler.DependencyOrder
import EkaCI.Scheduler.InStep

/-! A restart refines the running services: under which steps the graph that is
rebuilt from the database is the graph in memory, up to the work that a restart
forgets. -/

namespace EkaCI

open Lib

variable {DrvId : Type} [DecidableEq DrvId]

namespace System

section Record

variable {system next : System DrvId}

/-- The phase in which the recorder is left. -/
def followUpPhase (drvId : DrvId) : FollowUp → RecorderPhase DrvId
  | .retry => .idle
  | .propagate => .awaitPropagate drvId
  | .clear => .awaitClear drvId

/-- What the recorder does when it writes a state: it tells the graph and makes its call. -/
structure Settled (system next : System DrvId) (drvId : DrvId) (state : DrvBuildState) (followUp : FollowUp) :
    Prop where
  graph : next.service.graph = system.service.graph
  row : ∀ other, next.db.rowState other =
    if other = drvId then (system.db.rowState other).map fun _ => state else system.db.rowState other
  rows : next.db.drvs.keys = system.db.drvs.keys
  refs : next.db.refs = system.db.refs
  phase : next.recorder = followUpPhase drvId followUp
  queue : next.graphQueue = system.graphQueue ++
    (.updateState drvId state, .detached) :: next.recorder.call.toList

theorem settle_settled (drvId : DrvId) (state : DrvBuildState) (followUp : FollowUp)
    (idle : system.recorder = .idle) :
    Settled system ((system.settle drvId state true).follow drvId followUp) drvId state followUp := by
  have row := fun other => @Database.updateDrvStatus_rowState _ _ system.db drvId other state
  cases followUp with
  | retry =>
    refine ⟨rfl, row, rfl, rfl, idle, ?_⟩
    have kept : (system.settle drvId state true).recorder = .idle := idle
    rw [follow, kept]
    rfl
  | propagate | clear => exact ⟨rfl, row, rfl, rfl, rfl, List.append_assoc ..⟩

section Settle

variable {task : RecorderTask DrvId} {state : DrvBuildState} {followUp : FollowUp}

theorem blocksNone_of_success (decided : Decided (system.db.rowState task.derivation) task.result state followUp)
    (recoverable : system.recordsRecoverable task = true) (success : state = .completed .success) :
    system.service.graph.blocksNone task.derivation = true := by
  subst success
  cases decided with
  | success succeeded => simpa [recordsRecoverable, succeeded] using recoverable

theorem leaf_of_propagated
    (decided : Decided (system.db.rowState task.derivation) task.result state .propagate)
    (recoverable : system.recordsRecoverable task = true) (different : state ≠ .completed .failure) :
    system.service.graph.getAllTransitiveDependents task.derivation = [] := by
  cases decided with
  | giveUp => exact absurd rfl different
  | interrupted stopped final known unfinished =>
    simpa [recordsRecoverable, stopped, final, known, unfinished] using recoverable
  | unsatisfiable rejected unfinished =>
    simpa [recordsRecoverable, rejected, unfinished] using recoverable

theorem Settled.updatesOf (settled : Settled system next task.derivation state followUp) (other : DrvId) :
    next.updatesOf other = system.updatesOf other ++ if task.derivation = other then [state] else [] := by
  have silent : next.recorder.call.toList.filterMap (fun entry => entry.1.updateOf other) = [] := by
    cases next.recorder <;> rfl
  rw [updatesOf_sent settled.queue, List.filterMap_cons, silent, GraphCommand.updateOf]
  split <;> simp_all

theorem Settled.announced (settled : Settled system next task.derivation state followUp)
    (decided : Decided (system.db.rowState task.derivation) task.result state followUp)
    (failure : state = .completed .failure) : next.recorder = .awaitPropagate task.derivation := by
  subst failure
  rw [settled.phase]
  cases decided
  rfl

theorem Settled.failsBefore (valid : system.InStep) (idle : system.recorder = .idle)
    (settled : Settled system next task.derivation (.completed .failure) .propagate)
    (decided : Decided (system.db.rowState task.derivation) task.result (.completed .failure) .propagate) :
    failsBefore task.derivation (next.db.rowState task.derivation) next.graphQueue = true := by
  cases decided with
  | giveUp _ second =>
    have unsent : ∀ entry ∈ system.graphQueue, entry.1 ≠ .propagateFailure task.derivation := by
      intro entry member same
      have sender := valid.calls.senders entry member (same ▸ rfl)
      have pending := valid.calls.waiting
      rw [idle] at pending
      have none := List.filter_eq_nil_iff.mp pending entry member
      simp [sender] at none
    rw [settled.queue, settled.row, if_pos rfl, second, settled.phase]
    exact failsBefore_announced .detached .recorder unsent

theorem InStep.settle (valid : system.InStep) (idle : system.recorder = .idle)
    (decided : Decided (system.db.rowState task.derivation) task.result state followUp)
    (recoverable : system.recordsRecoverable task = true)
    (settled : Settled system next task.derivation state followUp) (calls : next.RecorderCalls) : next.InStep := by
  have covers : ∀ failed, system.db.rowState failed = some (.completed .failure) ∨
      .completed .failure ∈ system.updatesOf failed → next.service.graph.Covers failed := by
    intro failed failing
    rw [settled.graph]
    exact (valid.covered failed failing).resolve_right fun waiting => by cases idle.symm.trans waiting
  refine ⟨calls, ?_, ?_, fun failed failing => ?_, fun other resident free told => ?_, fun other waiting => ?_,
    fun failed blocked phase => ?_, fun other waiting => ?_⟩
  · rw [settled.graph]
    refine valid.backed.of_rows ?_ ?_ fun failed other member row => ?_
    · rw [settled.rows]
      exact fun _ member => member
    · rw [settled.refs]
      exact fun _ member => member
    · rw [settled.row]
      split
      · rename_i same
        subst same
        have none := blocksNone_of_success decided recoverable (decided.over_terminal row rfl)
        exact absurd member (BuildGraph.blocksNone_iff.mp none other)
      · exact row
  · refine valid.delivers.sent settled.graph settled.rows settled.refs settled.queue fun entry member => ?_
    rcases List.mem_cons.mp member with rfl | call
    · exact ⟨rfl, rfl⟩
    · cases phase : next.recorder <;> simp_all [RecorderPhase.call, GraphCommand.newDrvs, GraphCommand.newRefs]
  · rcases failing with recorded | waiting
    · rw [settled.row] at recorded
      split at recorded
      · rename_i same
        obtain ⟨_, -, failure⟩ := Option.map_eq_some_iff.mp recorded
        exact .inr (same ▸ settled.announced decided failure)
      · exact .inl (covers failed (.inl recorded))
    · rw [settled.updatesOf] at waiting
      rcases List.mem_append.mp waiting with earlier | added
      · exact .inl (covers failed (.inr earlier))
      · split at added
        · rename_i same
          exact .inr (same ▸ settled.announced decided (List.mem_singleton.mp added).symm)
        · cases added
  · rw [settled.graph] at resident free ⊢
    rw [settled.updatesOf, List.append_eq_nil_iff] at told
    have different : other ≠ task.derivation := by
      rintro rfl
      simp at told
    rw [settled.row, if_neg different]
    exact valid.free other resident free told.1
  · rw [settled.phase] at waiting
    cases followUp with
    | retry | clear => cases waiting
    | propagate =>
      cases waiting
      by_cases failure : state = .completed .failure
      · subst failure
        exact .inr (settled.failsBefore valid idle decided)
      · refine .inl fun other strict => ?_
        rw [settled.graph, ← BuildGraph.mem_getAllTransitiveDependents,
          leaf_of_propagated decided recoverable failure] at strict
        cases strict
  · rw [settled.phase] at phase
    cases followUp <;> cases phase
  · rw [settled.phase] at waiting
    rw [settled.graph]
    cases followUp with
    | retry | propagate => cases waiting
    | clear =>
      cases waiting
      cases decided with
      | success succeeded => exact blocksNone_of_success (.success succeeded) recoverable rfl

end Settle

theorem InStep.replied (valid : system.InStep) (calls : next.RecorderCalls)
    (graph : next.service.graph = system.service.graph) (rows : next.db.drvs.keys = system.db.drvs.keys)
    (refs : next.db.refs = system.db.refs) (row : ∀ drvId, next.db.rowState drvId = system.db.rowState drvId)
    (queue : next.graphQueue = system.graphQueue) (idle : next.recorder = .idle)
    (answered : ∀ drvId, system.recorder ≠ .awaitPropagate drvId) : next.InStep := by
  have updates : next.updatesOf = system.updatesOf := by
    funext drvId
    rw [updatesOf, queue, updatesOf]
  refine ⟨calls, ?_, ?_, fun failed failing => ?_, ?_, fun drvId waiting => ?_, fun drvId blocked phase => ?_,
    fun drvId waiting => ?_⟩
  · rw [graph]
    refine valid.backed.of_rows ?_ ?_ fun failed _ _ held => (row failed).trans held
    · rw [rows]
      exact fun _ member => member
    · rw [refs]
      exact fun _ member => member
  · refine valid.delivers.sent graph rows refs (queue.trans (List.append_nil _).symm) fun _ member => ?_
    cases member
  · rw [row, updates] at failing
    rw [graph]
    exact .inl ((valid.covered failed failing).resolve_right (answered failed))
  · rw [graph, updates]
    simp only [row]
    exact valid.free
  · cases idle.symm.trans waiting
  · cases idle.symm.trans phase
  · cases idle.symm.trans waiting

theorem InStep.replyPropagated (valid : system.InStep) {drvId : DrvId} {blocked : List DrvId}
    (phase : system.recorder = .propagated drvId blocked)
    (calls : (system.replyPropagated drvId blocked).RecorderCalls) :
    (system.replyPropagated drvId blocked).InStep := by
  have written := replyPropagated_db system drvId blocked
  obtain ⟨rows, refs⟩ := @Database.insertTransitiveFailures_frame _ _ system.db drvId blocked
  refine valid.replied calls rfl (written ▸ rows) (written ▸ refs) (fun other => ?_) rfl rfl fun other => ?_
  · rw [written, Database.insertTransitiveFailures_rowState]
    split
    · rename_i member
      rw [(valid.answered drvId blocked phase other member).2]
      rfl
    · rfl
  · simp [phase]

end Record

section Submit

variable {system next : System DrvId}

theorem InStep.submitDrvs (valid : system.InStep) {drvs : List (Drv DrvId)} {refs : List (DrvId × DrvId)}
    (calls : next.RecorderCalls) (graph : next.service.graph = system.service.graph)
    (stored : next.db = system.db.insertDrvsAndReferences drvs refs) (recorder : next.recorder = system.recorder)
    (queue : next.graphQueue = system.graphQueue ++ [(.insertDrvs drvs refs, .detached)]) : next.InStep := by
  obtain ⟨keys, kept, edges⟩ := system.db.insertDrvsAndReferences_frame drvs refs
  rw [← stored] at keys kept edges
  have updates : ∀ drvId, next.updatesOf drvId = system.updatesOf drvId := by
    intro drvId
    rw [updatesOf_sent queue]
    exact List.append_nil _
  have row : ∀ drvId state, system.db.rowState drvId = some state → next.db.rowState drvId = some state := by
    intro drvId state held
    obtain ⟨drv, found, -⟩ := Option.map_eq_some_iff.mp held
    exact (kept drvId (Table.mem_keys_of_get found)).trans held
  refine ⟨calls, ?_, ⟨fun drvId member => ?_, fun edge member => ?_, fun entry member drv brings => ?_,
    fun entry member edge brings => ?_⟩, fun failed failing => ?_, fun drvId resident free settled => ?_,
    fun drvId waiting => ?_, fun drvId blocked phase other member => ?_, ?_⟩
  · rw [graph]
    exact valid.backed.of_rows (fun drvId member => (keys drvId).mpr (.inl member))
      (fun edge member => (edges edge).mpr (.inl member)) fun failed _ _ => row failed _
  · rw [graph, queue]
    rcases (keys drvId).mp member with old | new
    · apply (valid.delivers.loaded drvId old).imp_right
      rintro ⟨entry, waiting, brings⟩
      exact ⟨entry, List.mem_append_left _ waiting, brings⟩
    · exact .inr ⟨_, List.mem_append_right _ (List.mem_singleton_self _), new⟩
  · rw [graph, queue]
    rcases (edges edge).mp member with old | new
    · apply (valid.delivers.linked edge old).imp_right
      rintro ⟨entry, waiting, brings⟩
      exact ⟨entry, List.mem_append_left _ waiting, brings⟩
    · exact .inr ⟨_, List.mem_append_right _ (List.mem_singleton_self _), new⟩
  · rw [queue] at member
    rw [keys]
    rcases List.mem_append.mp member with earlier | added
    · exact .inl (valid.delivers.drvs entry earlier drv brings)
    · rw [List.mem_singleton.mp added] at brings
      exact .inr (List.mem_map_of_mem brings)
  · rw [queue] at member
    rw [edges]
    rcases List.mem_append.mp member with earlier | added
    · exact .inl (valid.delivers.refs entry earlier edge brings)
    · rw [List.mem_singleton.mp added] at brings
      exact .inr brings
  · rw [graph, recorder]
    rw [updates] at failing
    by_cases known : failed ∈ system.db.drvs.keys
    · rw [kept failed known] at failing
      exact valid.covered failed failing
    · -- nothing in the graph depends on a drv that has just been submitted
      refine .inl fun drvId strict => ?_
      obtain ⟨middle, edge, -⟩ := Relation.TransGen.head'_iff.mp strict.2
      exact absurd (valid.backed.resident failed edge.resident) known
  · rw [graph] at resident free ⊢
    rw [updates] at settled
    rw [kept drvId (valid.backed.resident drvId resident)]
    exact valid.free drvId resident free settled
  · rw [recorder] at waiting
    rw [graph, queue]
    refine (valid.propagating drvId waiting).imp_right fun fails => failsBefore_append ?_
    cases held : system.db.rowState drvId with
    | none =>
      rw [held, failsBefore_none] at fails
      cases fails
    | some state =>
      rw [row drvId state held, ← held]
      exact fails
  · rw [recorder] at phase
    rw [graph]
    exact (valid.answered drvId blocked phase other member).imp_right (row other _)
  · rw [graph, recorder]
    exact valid.clearing

end Submit

section Runs

variable {config : SchedulerConfig} {system next : System DrvId} {action : Action DrvId}

theorem start_inStep {db : Database DrvId} {capacity : Nat} (positive : 0 < capacity) (now : Instant)
    (closed : db.RefsClosed) (room : db.drvs.keys.length ≤ capacity) :
    (start db capacity positive now).InStep := by
  have agrees := @BuildGraph.fromDatabase_agrees _ _ db capacity positive now room
  have backed := @BuildGraph.fromDatabase_backed _ _ db capacity positive now closed room
  refine ⟨start_recorderCalls db capacity positive now, backed, ⟨fun drvId member => ?_, fun edge member => ?_,
    ?_, ?_⟩, fun failed failing => .inl fun drvId strict => ?_, fun drvId _ free _ => agrees.free drvId free,
    ?_, ?_, ?_⟩
  · exact .inl ((agrees.resident drvId).mpr member)
  · exact .inl ((agrees.dependent edge.2 edge.1).mpr ⟨(closed edge member).2, member⟩)
  · exact List.forall_mem_nil _
  · exact List.forall_mem_nil _
  · rcases failing with recorded | waiting
    · exact (agrees.blockers drvId (backed.strictDependent_resident strict) failed).mpr ⟨recorded, strict⟩
    · cases waiting
  · exact fun _ waiting => by cases waiting
  · exact fun _ _ phase => by cases phase
  · exact fun _ waiting => by cases waiting

theorem InStep.step (valid : system.InStep) (meets : system.keepsRecoverable action = true)
    (transition : Transition config system action next) : next.InStep := by
  have calls := valid.calls.step transition
  cases transition with
  | submitDrvs drvs refs => exact valid.submitDrvs calls rfl rfl rfl rfl
  | query asks =>
    refine valid.sent calls rfl rfl rfl rfl fun entry member => ?_
    rw [List.mem_singleton.mp member]
    exact quiet_query asks
  | check source checked =>
    cases checked with
    | update =>
      cases source <;>
        refine valid.sent calls rfl rfl rfl rfl fun entry member => ?_ <;>
        rw [List.mem_singleton.mp member] <;>
        exact quiet_update (by simp)
    | _ => cases source <;> exact valid.congr calls rfl rfl rfl rfl
  | @apply now command caller rest head =>
    apply valid.apply head
    rw [keepsRecoverable, head] at meets
    exact meets
  | startBuild =>
    refine InStep.trySendUpdate ?_ .building _ calls (by simp)
    exact valid.congr (valid.calls.congr rfl rfl) rfl rfl rfl rfl
  | @recordSettle task rest room state followUp idle head decided =>
    rw [keepsRecoverable, head] at meets
    obtain ⟨rfl, recoverable⟩ := Bool.and_eq_true_iff.mp meets
    have base : ({ system with recorderQueue := rest } : System DrvId).InStep :=
      valid.congr (valid.calls.congr rfl rfl) rfl rfl rfl rfl
    exact base.settle idle (decided_of_recordDecision decided) recoverable (settle_settled _ _ _ idle) calls
  | replyPropagated phase => exact valid.replyPropagated phase calls
  | replyCleared phase =>
    exact valid.replied calls rfl rfl rfl (fun _ => rfl) rfl rfl fun other => by simp [phase]
  | _ => exact valid.congr calls rfl rfl rfl rfl

theorem InStep.agrees (valid : system.InStep) (drained : system.graphQueue = []) :
    system.service.graph.Agrees system.db := by
  have waiting := valid.calls.waiting
  rw [drained] at waiting
  have covers : ∀ failed, system.db.rowState failed = some (.completed .failure) →
      system.service.graph.Covers failed := by
    intro failed recorded
    refine (valid.covered failed (.inl recorded)).resolve_right fun phase => ?_
    rw [phase] at waiting
    cases waiting
  have loaded : ∀ drvId ∈ system.db.drvs.keys, drvId ∈ system.service.graph.nodes.keys := by
    intro drvId member
    apply (valid.delivers.loaded drvId member).resolve_right
    rintro ⟨entry, pending, -⟩
    rw [drained] at pending
    cases pending
  refine ⟨fun drvId => ⟨valid.backed.resident drvId, loaded drvId⟩, fun source target => ⟨fun edge => ?_, ?_⟩,
    fun drvId resident failed => ⟨valid.backed.failed failed drvId, ?_⟩, valid.backed.blocked, fun drvId free => ?_⟩
  · exact ⟨valid.backed.resident source edge.resident, (valid.backed.linked source target edge).1⟩
  · rintro ⟨-, stored⟩
    apply (valid.delivers.linked _ stored).resolve_right
    rintro ⟨entry, pending, -⟩
    rw [drained] at pending
    cases pending
  · rintro ⟨recorded, strict⟩
    exact covers failed recorded drvId strict
  · by_cases resident : drvId ∈ system.service.graph.nodes.keys
    · apply valid.free drvId resident free
      rw [updatesOf, drained]
      rfl
    · have missing : drvId ∉ system.db.drvs.keys := mt (loaded drvId) resident
      rw [BuildGraph.stateOf_of_absent resident, Database.rowState, Database.getDrv,
        Table.get_none_iff.mpr missing]
      rfl

end Runs

/-- In every run whose steps meet the condition, and in every state of it with
nothing left for the graph to apply: the graph rebuilt from the database has, for
every drv, the state in memory up to the work that a restart forgets, and the
same blockers. -/
theorem restart_refines (config : SchedulerConfig) (db : Database DrvId) (capacity : Nat)
    (positive : 0 < capacity) (now later : Instant) (closed : db.RefsClosed)
    (room : db.drvs.keys.length ≤ capacity) {actions : List (Action DrvId)} {final : System DrvId}
    (run : RunsFrom config db capacity positive now keepsRecoverable actions final)
    (drained : final.graphQueue = []) (fits : final.db.drvs.keys.length ≤ capacity) (drvId : DrvId) :
    (BuildGraph.fromDatabase final.db capacity positive later).stateOf drvId =
        (final.service.graph.stateOf drvId).map (·.normalize) ∧
      (BuildGraph.fromDatabase final.db capacity positive later).getFailedDependencies drvId =
        final.service.graph.getFailedDependencies drvId := by
  have valid : final.InStep := by
    apply run.invariant (start_inStep positive now closed room)
    intro system action next valid meets taken
    exact valid.step meets (transition_of_step taken)
  exact (valid.agrees drained).restart fits drvId

/-- Drv 0 fails for good, which blocks 1, and two unrelated drvs arrive. -/
def failAndExtend : List (Action Nat) :=
  [.submit (.checkBuildable 0), .ingest true, .applyCommand 0, .sendBuild true,
    .dispatch (.plain 0 .queued) 0, .pickUp 0 true, .applyCommand 0,
    .finish 0 0 (.completed .failure), .record true, .applyCommand 0,
    .ingest true, .dispatch (.plain 0 .failedRetry) 0, .pickUp 0 false,
    .finish 0 0 (.completed .failure), .record true, .applyCommand 0, .applyCommand 0, .recordReply [] [],
    .submitDrvs [.plain 2 .queued, .plain 3 .queued] [(3, 2)], .applyCommand 0]

theorem failAndExtend_recovered : ∃ final,
    RunsFrom soloBuilders pairDatabase 4 (by decide) 0 keepsRecoverable failAndExtend final ∧
    (BuildGraph.fromDatabase final.db 4 (by decide) 1).stateOf 1 = some .transitiveFailure ∧
    (BuildGraph.fromDatabase final.db 4 (by decide) 1).getFailedDependencies 1 = {0} ∧
    (BuildGraph.fromDatabase final.db 4 (by decide) 1).stateOf 3 = some .queued := by
  refine exists_run_of_checkRun_imp (p := fun final => final.graphQueue = [] ∧ final.db.drvs.keys.length ≤ 4 ∧
      final.service.graph.stateOf 1 = some .transitiveFailure ∧ final.service.graph.getFailedDependencies 1 = {0} ∧
      final.service.graph.stateOf 3 = some .queued)
    (by decide) fun final run ⟨drained, fits, state, blockers, arrived⟩ => ?_
  have restart := restart_refines soloBuilders pairDatabase 4 (by decide) 0 1 (by decide) (by decide) run
    drained fits
  refine ⟨?_, ?_, ?_⟩
  · rw [(restart 1).1, state]
    rfl
  · rw [(restart 1).2, blockers]
  · rw [(restart 3).1, arrived]
    rfl

/-- No builder takes drv 0, which blocks 1. -/
def rejectDependency : List (Action Nat) :=
  [.submit (.checkBuildable 0), .ingest true, .applyCommand 0, .sendBuild true, .reject (.plain 0 .queued),
    .record true, .applyCommand 0, .applyCommand 0, .recordReply [] []]

theorem rejectDependency_blocker_lost : ∃ final,
    AnyRun (step soloBuilders) (start pairDatabase 2 (by decide) 0) rejectDependency final ∧
    (final.graphQueue = [] ∧ final.recorderQueue = [] ∧ final.ingressQueue = [] ∧ final.buildQueue = [] ∧
      final.recorder = .idle ∧ final.ingress = .idle) ∧
    final.service.graph.stateOf 1 = some .transitiveFailure ∧
    final.service.graph.getFailedDependencies 1 = {0} ∧
    (BuildGraph.fromDatabase final.db 2 (by decide) 1).stateOf 1 = some .transitiveFailure ∧
    (BuildGraph.fromDatabase final.db 2 (by decide) 1).getFailedDependencies 1 = ∅ :=
  exists_run_of_exec (by decide)

end System

end EkaCI
