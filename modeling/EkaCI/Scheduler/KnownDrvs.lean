import EkaCI.Graph.Startup
import EkaCI.Scheduler.Transition

/-! Runs over a fixed set of drvs: nothing is inserted and nothing reloaded.
Every drv that a message or a service speaks of is then in the shared view, and
every drv in the view has a row. -/

namespace EkaCI

open Lib

variable {DrvId : Type} [DecidableEq DrvId]

/-- The actions that neither insert drvs nor make the graph reload any. -/
def Action.keepsDrvs : Action DrvId → Bool
  | .submitDrvs .. | .query _ => false
  | _ => true

namespace System

structure KnownDrvs (system : System DrvId) : Prop where
  commands : ∀ entry ∈ system.graphQueue, entry.1.isStateChange = true
  rows : ∀ drvId ∈ system.view.keys, drvId ∈ system.db.drvs.keys
  requests : ∀ request ∈ system.buildQueue, request.drvPath ∈ system.view.keys
  given : ∀ builder, ∀ request ∈ system.builderQueues builder, request.drvPath ∈ system.view.keys
  phase : ∀ drvId node, system.ingress = .awaitUpdate drvId node ∨ system.ingress = .updated drvId node →
    drvId ∈ system.view.keys

theorem start_knownDrvs (db : Database DrvId) (capacity : Nat) (positive : 0 < capacity) (now : Instant) :
    (start db capacity positive now).KnownDrvs := by
  constructor
  · intro _ member
    cases member
  · intro drvId member
    exact BuildGraph.mem_rows_of_fromDatabase (GraphService.mem_new_view.mp member)
  · intro _ member
    cases member
  · intro _ _ member
    cases member
  · intro _ _ phase
    rcases phase with waiting | updated <;> contradiction

section Step

variable {config : SchedulerConfig} {system next : System DrvId} {action : Action DrvId}

/-- A fixed set of drvs: the keys of the view and of the table of drvs. -/
structure SameDrvs (system next : System DrvId) : Prop where
  view : next.view.keys = system.view.keys
  rows : next.db.drvs.keys = system.db.drvs.keys

theorem follow_sameDrvs (system : System DrvId) (drvId : DrvId) (followUp : FollowUp) :
    SameDrvs system (system.follow drvId followUp) := by
  cases followUp <;> exact ⟨rfl, rfl⟩

theorem sameDrvs_step (known : system.KnownDrvs) (keeps : action.keepsDrvs = true)
    (transition : Transition config system action next) : SameDrvs system next := by
  cases transition with
  | submitDrvs | query => cases keeps
  | check source checked =>
    have sends := checked.sendsOnly
    cases source <;>
      exact ⟨congrArg (·.sharedView.keys) sends.service, congrArg (·.db.drvs.keys) sends.service⟩
  | apply head =>
    have change := known.commands _ (head ▸ List.mem_cons_self ..)
    exact ⟨(GraphService.process_keys change).1, (GraphService.process_keys change).2⟩
  | recordSettle => exact ⟨(follow_sameDrvs ..).view, (follow_sameDrvs ..).rows⟩
  | replyPropagated =>
    refine ⟨rfl, ?_⟩
    rw [replyPropagated_db]
    exact (Database.insertTransitiveFailures_frame ..).1
  | _ => exact ⟨rfl, rfl⟩

omit [DecidableEq DrvId] in
theorem KnownDrvs.of_sameDrvs (known : system.KnownDrvs) (same : SameDrvs system next)
    (commands : ∀ entry ∈ next.graphQueue, entry ∈ system.graphQueue ∨ entry.1.isStateChange = true)
    (requests : ∀ request ∈ next.buildQueue, request ∈ system.buildQueue ∨ request.drvPath ∈ system.view.keys)
    (given : ∀ builder, ∀ request ∈ next.builderQueues builder,
      request ∈ system.builderQueues builder ∨ request ∈ system.buildQueue)
    (phase : ∀ drvId node, next.ingress = .awaitUpdate drvId node ∨ next.ingress = .updated drvId node →
      (system.ingress = .awaitUpdate drvId node ∨ system.ingress = .updated drvId node) ∨
        drvId ∈ system.view.keys) : next.KnownDrvs := by
  constructor
  · intro entry member
    exact (commands entry member).elim (known.commands entry) id
  · rw [same.view, same.rows]
    exact known.rows
  · intro request member
    rw [same.view]
    exact (requests request member).elim (known.requests request) id
  · intro builder request member
    rw [same.view]
    exact (given builder request member).elim (known.given builder request) (known.requests request)
  · intro drvId node held
    rw [same.view]
    exact (phase drvId node held).elim (known.phase drvId node) id

omit [DecidableEq DrvId] in
theorem KnownDrvs.check (known : system.KnownDrvs) {drvId : DrvId} {room : Bool}
    (checked : Checked config system drvId room next) : next.KnownDrvs := by
  cases checked with
  | skip => exact known
  | unsatisfiable =>
    exact known.of_sameDrvs ⟨rfl, rfl⟩ (fun _ => .inl) (fun _ => .inl) (fun _ _ => .inl) fun _ _ => .inl
  | retry ready found =>
    refine known.of_sameDrvs ⟨rfl, rfl⟩ (fun _ => .inl) (fun request member => ?_) (fun _ _ => .inl) fun _ _ => .inl
    rcases mem_offerBuild member with earlier | offered
    · exact .inl earlier
    · exact .inr (offered ▸ Table.mem_keys_of_get found)
  | update ready found =>
    refine known.of_sameDrvs ⟨rfl, rfl⟩ (fun entry member => ?_) (fun _ => .inl)
      (fun _ _ => .inl) fun drvId node held => ?_
    · rcases List.mem_append.mp member with earlier | sent
      · exact .inl earlier
      · rw [List.mem_singleton.mp sent]
        exact .inr rfl
    · rcases held with waiting | updated
      · cases waiting
        exact .inr (Table.mem_keys_of_get found)
      · cases updated

omit [DecidableEq DrvId] in
theorem isStateChange_of_trySendUpdate {drvId : DrvId} {state : DrvBuildState} {room : Bool}
    {entry : GraphCommand DrvId × Caller}
    (member : entry ∈ (system.trySendUpdate drvId state room).graphQueue) :
    entry ∈ system.graphQueue ∨ entry.1.isStateChange = true := by
  rcases List.mem_append.mp member with earlier | sent
  · exact .inl earlier
  · split at sent
    · rw [List.mem_singleton.mp sent]
      exact .inr rfl
    · cases sent

theorem isStateChange_of_follow {drvId : DrvId} {state : DrvBuildState} {room : Bool}
    {followUp : FollowUp} {entry : GraphCommand DrvId × Caller}
    (member : entry ∈ ((system.settle drvId state room).follow drvId followUp).graphQueue) :
    entry ∈ system.graphQueue ∨ entry.1.isStateChange = true := by
  have settled : ∀ {command : GraphCommand DrvId} {caller : Caller}, command.isStateChange = true →
      entry ∈ (system.settle drvId state room).graphQueue ++ [(command, caller)] →
      entry ∈ system.graphQueue ∨ entry.1.isStateChange = true := by
    intro command caller change inside
    rcases List.mem_append.mp inside with earlier | sent
    · exact isStateChange_of_trySendUpdate earlier
    · rw [List.mem_singleton.mp sent]
      exact .inr change
  cases followUp with
  | retry => exact isStateChange_of_trySendUpdate member
  | propagate | clear => exact settled rfl member

omit [DecidableEq DrvId] in
theorem mem_of_popped {builder other : Nat} {request taken : Drv DrvId} {rest : List (Drv DrvId)}
    (head : system.builderQueues builder = taken :: rest)
    (member : request ∈ Function.update system.builderQueues builder rest other) :
    request ∈ system.builderQueues other := by
  rw [Function.update_apply] at member
  split at member
  · rename_i same
    rw [same, head]
    exact List.mem_cons_of_mem _ member
  · exact member

theorem KnownDrvs.step (known : system.KnownDrvs) (keeps : action.keepsDrvs = true)
    (transition : Transition config system action next) : next.KnownDrvs := by
  have same := sameDrvs_step known keeps transition
  cases transition with
  | submitDrvs | query => cases keeps
  | dryRun | dryRunOver | substitute =>
    refine known.of_sameDrvs same (fun _ => .inl) (fun _ => .inl) (fun _ _ => .inl) fun _ _ held => ?_
    rcases held with waiting | updated <;> contradiction
  | @check action drvId room base next source checked =>
    have based : base.KnownDrvs ∧ base.view.keys = system.view.keys := by
      cases source with
      | dryRun =>
        refine ⟨known.of_sameDrvs ⟨rfl, rfl⟩ (fun _ => .inl) (fun _ => .inl) (fun _ _ => .inl) fun _ _ held => ?_, rfl⟩
        rcases held with waiting | updated <;> contradiction
      | _ =>
        exact ⟨known.of_sameDrvs ⟨rfl, rfl⟩ (fun _ => .inl) (fun _ => .inl) (fun _ _ => .inl) fun _ _ => .inl, rfl⟩
    exact based.1.check checked
  | @shortCut drvId room report node phase only found =>
    refine known.of_sameDrvs same (fun _ => .inl) (fun request member => ?_) (fun _ _ => .inl) fun _ _ held => ?_
    · rcases List.mem_append.mp member with earlier | offered
      · exact .inl earlier
      · rw [List.mem_singleton.mp offered]
        exact .inr (Table.mem_keys_of_get found)
    · rcases held with waiting | updated <;> contradiction
  | @sendBuild drvId node room phase =>
    refine known.of_sameDrvs same (fun _ => .inl) (fun request member => ?_) (fun _ _ => .inl) fun _ _ held => ?_
    · rcases mem_offerBuild member with earlier | offered
      · exact .inl earlier
      · exact .inr (offered ▸ known.phase drvId node (.inr phase))
    · rcases held with waiting | updated <;> contradiction
  | apply head =>
    refine known.of_sameDrvs same (fun entry member => ?_) (fun _ => .inl) (fun _ _ => .inl) fun _ _ held => ?_
    · exact .inl (head ▸ List.mem_cons_of_mem _ member)
    · have waiting := applyCommand_ingress held
      exact .inl waiting
  | @dispatch request builder waiting =>
    refine known.of_sameDrvs same (fun _ => .inl)
      (fun _ member => .inl (List.mem_of_mem_erase member)) (fun other request' member => ?_)
      fun _ _ => .inl
    simp only [Function.update_apply] at member
    split at member
    · rename_i equal
      rcases List.mem_append.mp member with earlier | moved
      · exact .inl (equal ▸ earlier)
      · exact .inr (List.mem_singleton.mp moved ▸ waiting)
    · exact .inl member
  | reject | drop =>
    exact known.of_sameDrvs same (fun _ => .inl) (fun _ member => .inl (List.mem_of_mem_erase member)) (fun _ _ => .inl)
      fun _ _ => .inl
  | skipBuild head =>
    exact known.of_sameDrvs same (fun _ => .inl) (fun _ => .inl)
      (fun _ _ member => .inl (mem_of_popped head member)) fun _ _ => .inl
  | startBuild head unfinished =>
    refine known.of_sameDrvs same (fun entry member => ?_) (fun _ => .inl)
      (fun _ _ member => .inl (mem_of_popped head member)) fun _ _ => .inl
    exact isStateChange_of_trySendUpdate member
  | @recordSettle task rest room state followUp idle head decided =>
    have follows := follow_followsUp
      (System.settle { system with recorderQueue := rest } task.derivation state room) task.derivation followUp
    refine known.of_sameDrvs same (fun entry member => ?_) (fun _ member => .inl (follows.buildQueue ▸ member))
      (fun _ _ member => .inl (follows.builderQueues ▸ member)) fun _ _ held => .inl (follows.ingress ▸ held)
    have sent := isStateChange_of_follow member
    exact sent
  | _ =>
    exact known.of_sameDrvs same (fun _ => .inl) (fun _ => .inl) (fun _ _ => .inl) fun _ _ => .inl

end Step

end System

end EkaCI
