import EkaCI.Scheduler.Transition

/-! What the recorder asks of the graph service: it waits for the answer of each
call, so at most one of its calls is under way, and every permanent failure it
records is propagated. -/

namespace EkaCI

open Lib

variable {DrvId : Type} [DecidableEq DrvId]

def RecorderPhase.call : RecorderPhase DrvId → Option (GraphCommand DrvId × Caller)
  | .awaitPropagate drvId => some (.propagateFailure drvId, .recorder)
  | .awaitClear drvId => some (.clearFailure drvId, .recorder)
  | _ => none

/-- The commands that nobody but the recorder sends. -/
def GraphCommand.isRecorders : GraphCommand DrvId → Bool
  | .propagateFailure _ | .clearFailure _ => true
  | _ => false

namespace System

/-- The one call of the recorder that is under way is the one it waits for. -/
structure RecorderCalls (system : System DrvId) : Prop where
  waiting : system.graphQueue.filter (·.2 = .recorder) = system.recorder.call.toList
  senders : ∀ entry ∈ system.graphQueue, entry.1.isRecorders = true → entry.2 = .recorder

section Calls

variable {config : SchedulerConfig} {system next : System DrvId} {action : Action DrvId}

section Queue

omit [DecidableEq DrvId]

theorem RecorderCalls.sent (calls : system.RecorderCalls) {more : List (GraphCommand DrvId × Caller)}
    (queue : next.graphQueue = system.graphQueue ++ more) (recorder : next.recorder = system.recorder)
    (others : ∀ entry ∈ more, entry.2 ≠ .recorder ∧ entry.1.isRecorders = false) : next.RecorderCalls := by
  constructor
  · have none : more.filter (·.2 = .recorder) = [] := by
      refine List.filter_eq_nil_iff.mpr fun entry member => ?_
      simpa using (others entry member).1
    rw [queue, List.filter_append, none, List.append_nil, recorder]
    exact calls.waiting
  · intro entry member recorders
    rw [queue] at member
    rcases List.mem_append.mp member with earlier | added
    · exact calls.senders entry earlier recorders
    · rw [(others entry added).2] at recorders
      cases recorders

theorem RecorderCalls.congr (calls : system.RecorderCalls) (queue : next.graphQueue = system.graphQueue)
    (call : next.recorder.call = system.recorder.call) : next.RecorderCalls :=
  ⟨by rw [queue, call]; exact calls.waiting, queue ▸ calls.senders⟩

theorem Checked.recorderCalls {drvId : DrvId} {room : Bool} (checked : Checked config system drvId room next)
    (calls : system.RecorderCalls) : next.RecorderCalls := by
  cases checked with
  | update =>
    refine calls.sent rfl rfl fun entry member => ?_
    rw [List.mem_singleton.mp member]
    exact ⟨by simp, rfl⟩
  | _ => exact calls.congr rfl rfl

theorem RecorderCalls.trySendUpdate (calls : system.RecorderCalls) (drvId : DrvId) (state : DrvBuildState)
    (room : Bool) : (system.trySendUpdate drvId state room).RecorderCalls := by
  refine calls.sent rfl rfl fun entry member => ?_
  split at member
  · rw [List.mem_singleton.mp member]
    exact ⟨by simp, rfl⟩
  · cases member

theorem RecorderCalls.call_of_head {command : GraphCommand DrvId} {caller : Caller}
    {rest : List (GraphCommand DrvId × Caller)} (calls : system.RecorderCalls)
    (head : system.graphQueue = (command, caller) :: rest)
    (recorders : caller = .recorder ∨ command.isRecorders = true) :
    caller = .recorder ∧ system.recorder.call = some (command, .recorder) := by
  have sender : caller = .recorder :=
    recorders.elim id (calls.senders (command, caller) (head ▸ List.mem_cons_self ..))
  subst sender
  have waiting := calls.waiting
  rw [head, List.filter_cons, if_pos (by simp)] at waiting
  refine ⟨rfl, ?_⟩
  cases phase : system.recorder.call with
  | none =>
    rw [phase] at waiting
    cases waiting
  | some call =>
    rw [phase] at waiting
    rw [(List.cons.inj waiting).1]

end Queue

theorem RecorderCalls.apply {now : Instant} {command : GraphCommand DrvId} {caller : Caller}
    {rest : List (GraphCommand DrvId × Caller)} (calls : system.RecorderCalls)
    (head : system.graphQueue = (command, caller) :: rest) :
    ({ system with graphQueue := rest }.applyCommand now command caller).RecorderCalls := by
  have waiting := calls.waiting
  have senders : ∀ entry ∈ rest, entry.1.isRecorders = true → entry.2 = .recorder :=
    fun entry member => calls.senders entry (head ▸ List.mem_cons_of_mem _ member)
  rw [head, List.filter_cons] at waiting
  refine ⟨?_, senders⟩
  cases caller with
  | recorder =>
    simp only [decide_true, if_true] at waiting
    cases phase : system.recorder with
    | awaitPropagate | awaitClear =>
      rw [phase] at waiting
      simp only [applyCommand]
      exact (List.cons.inj waiting).2
    | _ =>
      rw [phase] at waiting
      cases waiting
  | _ => exact waiting

theorem RecorderCalls.settle (calls : system.RecorderCalls) (idle : system.recorder = .idle) (drvId : DrvId)
    (state : DrvBuildState) (room : Bool) (followUp : FollowUp) :
    ((system.settle drvId state room).follow drvId followUp).RecorderCalls := by
  have base : RecorderCalls { system with
      service := { system.service with
        db := system.db.updateDrvStatus drvId state
        sharedView := system.view.setState drvId state }
      log := system.log ++ [.recorded drvId state] } := calls.congr rfl rfl
  have settled : (system.settle drvId state room).RecorderCalls := base.trySendUpdate drvId state room
  have waiting : (system.settle drvId state room).graphQueue.filter (·.2 = .recorder) = [] := by
    rw [settled.waiting]
    have kept : (system.settle drvId state room).recorder = .idle := idle
    rw [kept]
    rfl
  cases followUp with
  | retry => exact settled.congr rfl rfl
  | propagate | clear =>
    refine ⟨?_, fun entry member recorders => ?_⟩
    · rw [follow, send, List.filter_append, waiting]
      rfl
    · rcases List.mem_append.mp member with earlier | added
      · exact settled.senders entry earlier recorders
      · rw [List.mem_singleton.mp added]

theorem RecorderCalls.step (calls : system.RecorderCalls) (transition : Transition config system action next) :
    next.RecorderCalls := by
  cases transition with
  | submitDrvs drvs refs =>
    refine calls.sent rfl rfl fun entry member => ?_
    rw [List.mem_singleton.mp member]
    exact ⟨by simp, rfl⟩
  | @query command asks =>
    refine calls.sent rfl rfl fun entry member => ?_
    rw [List.mem_singleton.mp member]
    refine ⟨by simp, ?_⟩
    cases command <;> first | rfl | cases asks
  | check source checked =>
    apply checked.recorderCalls
    cases source <;> exact calls.congr rfl rfl
  | apply head => exact calls.apply head
  | startBuild =>
    refine RecorderCalls.trySendUpdate ?_ ..
    exact calls.congr rfl rfl
  | @recordSettle task rest room state followUp idle head decided =>
    have base : RecorderCalls { system with recorderQueue := rest } := calls.congr rfl rfl
    exact base.settle idle task.derivation state room followUp
  | replyPropagated phase =>
    refine calls.congr rfl ?_
    rw [phase]
    rfl
  | replyCleared phase =>
    refine calls.congr rfl ?_
    rw [phase]
    rfl
  | _ => exact calls.congr rfl rfl

theorem start_recorderCalls (db : Database DrvId) (capacity : Nat) (positive : 0 < capacity) (now : Instant) :
    (start db capacity positive now).RecorderCalls :=
  ⟨rfl, List.forall_mem_nil _⟩

end Calls

section Propagation

variable {config : SchedulerConfig} {system next : System DrvId} {action : Action DrvId}

/-- A permanent failure that has been recorded has been propagated, or the graph
is about to. -/
def FailuresPropagated (system : System DrvId) : Prop :=
  ∀ drvId, .recorded drvId (.completed .failure) ∈ system.log →
    (∃ blocked, .propagated drvId blocked ∈ system.log) ∨
      ∃ caller, (.propagateFailure drvId, caller) ∈ system.graphQueue

omit [DecidableEq DrvId] in
theorem FailuresPropagated.mono (propagated : system.FailuresPropagated)
    (recorded : ∀ drvId, .recorded drvId (.completed .failure) ∈ next.log →
      .recorded drvId (.completed .failure) ∈ system.log)
    (log : system.log ⊆ next.log) (queue : system.graphQueue ⊆ next.graphQueue) :
    next.FailuresPropagated := by
  intro drvId failed
  rcases propagated drvId (recorded drvId failed) with ⟨blocked, done⟩ | ⟨caller, waiting⟩
  · exact .inl ⟨blocked, log done⟩
  · exact .inr ⟨caller, queue waiting⟩

omit [DecidableEq DrvId] in
theorem FailuresPropagated.sent (propagated : system.FailuresPropagated) (log : next.log = system.log)
    (queue : system.graphQueue ⊆ next.graphQueue) : next.FailuresPropagated :=
  propagated.mono (fun _ failed => log ▸ failed) (log ▸ List.Subset.refl _) queue

omit [DecidableEq DrvId] in
theorem Checked.queue {drvId : DrvId} {room : Bool} (checked : Checked config system drvId room next) :
    system.graphQueue ⊆ next.graphQueue := by
  cases checked with
  | update => exact List.subset_append_left ..
  | _ => exact List.Subset.refl _

theorem FailuresPropagated.apply {now : Instant} {command : GraphCommand DrvId} {caller : Caller}
    {rest : List (GraphCommand DrvId × Caller)} (propagated : system.FailuresPropagated)
    (head : system.graphQueue = (command, caller) :: rest) :
    ({ system with graphQueue := rest }.applyCommand now command caller).FailuresPropagated := by
  have kept : system.log ⊆ ({ system with graphQueue := rest }.applyCommand now command caller).log := by
    cases command with
    | propagateFailure => exact List.subset_append_left ..
    | _ => exact List.Subset.refl _
  intro drvId failed
  have recorded : .recorded drvId (.completed .failure) ∈ system.log := by
    cases command with
    | propagateFailure => simpa [applyCommand] using failed
    | _ => exact failed
  rcases propagated drvId recorded with ⟨blocked, done⟩ | ⟨sender, waiting⟩
  · exact .inl ⟨blocked, kept done⟩
  · rw [head] at waiting
    rcases List.mem_cons.mp waiting with first | later
    · cases first
      exact .inl ⟨_, List.mem_append_right _ (List.mem_singleton_self _)⟩
    · exact .inr ⟨sender, later⟩

theorem FailuresPropagated.settle {drvId : DrvId} {row : Option DrvBuildState} {result state : DrvBuildState}
    {followUp : FollowUp} {room : Bool} (propagated : system.FailuresPropagated)
    (decided : Decided row result state followUp) :
    ((system.settle drvId state room).follow drvId followUp).FailuresPropagated := by
  have log : ((system.settle drvId state room).follow drvId followUp).log =
      system.log ++ [.recorded drvId state] := (follow_followsUp ..).log
  have queue : system.graphQueue ⊆ ((system.settle drvId state room).follow drvId followUp).graphQueue := by
    have settled : system.graphQueue ⊆ (system.settle drvId state room).graphQueue :=
      List.subset_append_left ..
    cases followUp with
    | retry => exact settled
    | propagate | clear => exact List.Subset.trans settled (List.subset_append_left ..)
  intro other failed
  rw [log] at failed ⊢
  rcases List.mem_append.mp failed with earlier | added
  · rcases propagated other earlier with ⟨blocked, done⟩ | ⟨caller, waiting⟩
    · exact .inl ⟨blocked, List.mem_append_left _ done⟩
    · exact .inr ⟨caller, queue waiting⟩
  · cases List.mem_singleton.mp added
    cases decided
    exact .inr ⟨.recorder, List.mem_append_right _ (List.mem_singleton_self _)⟩

theorem FailuresPropagated.step (propagated : system.FailuresPropagated)
    (transition : Transition config system action next) : next.FailuresPropagated := by
  cases transition with
  | submitDrvs | query => exact propagated.sent rfl (List.subset_append_left ..)
  | check source checked =>
    have sends := checked.sendsOnly
    cases source <;> exact propagated.sent sends.log checked.queue
  | apply head => exact propagated.apply head
  | startBuild =>
    refine propagated.mono (fun drvId failed => ?_) (List.subset_append_left ..) (List.subset_append_left ..)
    simpa [trySendUpdate] using failed
  | @recordSettle task rest room state followUp idle head decided =>
    have base : ({ system with recorderQueue := rest } : System DrvId).FailuresPropagated := propagated
    exact base.settle (decided_of_recordDecision decided)
  | _ => exact propagated

end Propagation

end System

end EkaCI
