import EkaCI.Build.State
import EkaCI.Lib.Run
import EkaCI.Lib.Table

/-! The accumulating build queue. Requests are received into one deque for each
platform and leave for the queues of the platforms as far as these have room. -/

namespace EkaCI

open Lib

variable {DrvId : Type}

/-- Where the loop is. -/
inductive QueuePhase where
  /-- Step 1, receiving without waiting. -/
  | draining
  /-- Step 2, with the platforms still to be served. -/
  | dispatching (rest : List String)
  /-- Step 3, waiting for a request or for the timer. -/
  | resting
  deriving DecidableEq

structure BuildQueue (DrvId : Type) where
  /-- Requests in the channel of the queue. -/
  incoming : List (Drv DrvId)
  pending : Table String (List (Drv DrvId))
  phase : QueuePhase
  /-- What was received so far, and what each platform was sent. -/
  received : List (Drv DrvId)
  sent : String → List (Drv DrvId)

inductive QueueAction (DrvId : Type) where
  | submit (request : Drv DrvId)
  | receive
  /-- The channel is empty; a hash map is iterated in any order. -/
  | dispatch (order : List String)
  | serve (hasRoom : Bool)
  | rest
  | tick

/-- The platform that a request is for; `builtin` stands for the default one. -/
def platformOf (defaultPlatform : Option String) (request : Drv DrvId) : Option String :=
  if request.system = "builtin" then defaultPlatform else some request.system

def enqueue (pending : Table String (List (Drv DrvId))) (platform : String) (request : Drv DrvId) :
    Table String (List (Drv DrvId)) :=
  if pending.contains platform then pending.modify platform (· ++ [request]) else pending.push platform [request]

/-- A request whose platform is not known is dropped. -/
def classifyAndEnqueue (request : Drv DrvId) (defaultPlatform : Option String)
    (pending : Table String (List (Drv DrvId))) : Table String (List (Drv DrvId)) :=
  match platformOf defaultPlatform request with
  | none => pending
  | some platform => enqueue pending platform request

namespace BuildQueue

def start : BuildQueue DrvId where
  incoming := []
  pending := .empty
  phase := .draining
  received := []
  sent := fun _ => []

def waiting (queue : BuildQueue DrvId) (platform : String) : List (Drv DrvId) :=
  (queue.pending.get platform).getD []

def allEmpty (queue : BuildQueue DrvId) : Bool := queue.pending.values.all List.isEmpty

/-- The channel holds so many requests; producers wait for room. -/
def requestBuffer : Nat := 100

variable (systemSenders : List String) (defaultPlatform : Option String)

def accept (queue : BuildQueue DrvId) (request : Drv DrvId) (rest : List (Drv DrvId)) : BuildQueue DrvId :=
  { queue with
    incoming := rest
    pending := classifyAndEnqueue request defaultPlatform queue.pending
    phase := .draining
    received := queue.received ++ [request] }

/-- Step 2 for the platform that is served now. -/
def serve (queue : BuildQueue DrvId) (platform : String) (rest : List String) (hasRoom : Bool) : BuildQueue DrvId :=
  if platform ∉ systemSenders then
    -- nobody can build these: the whole deque is dropped
    { queue with pending := queue.pending.modify platform fun _ => [], phase := .dispatching rest }
  else
    match queue.waiting platform with
    | [] => { queue with phase := .dispatching rest }
    | request :: later =>
      if hasRoom then
        { queue with
          pending := queue.pending.modify platform fun _ => later
          sent := Function.update queue.sent platform (queue.sent platform ++ [request]) }
      else { queue with phase := .dispatching rest }

/-- One step of `poll_for_builds`, or of a producer. -/
def step (queue : BuildQueue DrvId) : QueueAction DrvId → Option (BuildQueue DrvId)
  | .submit request =>
    if queue.incoming.length < requestBuffer then some { queue with incoming := queue.incoming ++ [request] } else none
  | .receive =>
    match queue.phase, queue.incoming with
    | .draining, request :: rest => some (queue.accept defaultPlatform request rest)
    | .resting, request :: rest => if queue.allEmpty then some (queue.accept defaultPlatform request rest) else none
    | _, _ => none
  | .dispatch order =>
    match queue.phase, queue.incoming with
    | .draining, [] => if order.isPerm queue.pending.keys then some { queue with phase := .dispatching order } else none
    | _, _ => none
  | .serve hasRoom =>
    match queue.phase with
    | .dispatching (platform :: rest) => some (queue.serve systemSenders platform rest hasRoom)
    | _ => none
  | .rest => if queue.phase = .dispatching [] then some { queue with phase := .resting } else none
  | .tick => if queue.phase = .resting ∧ queue.allEmpty = false then some { queue with phase := .draining } else none

/-- The steps, one constructor for each thing that can happen. -/
inductive Steps (queue : BuildQueue DrvId) : QueueAction DrvId → BuildQueue DrvId → Prop where
  | submitted (request : Drv DrvId) (room : queue.incoming.length < requestBuffer) :
      Steps queue (.submit request) { queue with incoming := queue.incoming ++ [request] }
  | received {request : Drv DrvId} {rest : List (Drv DrvId)} (head : queue.incoming = request :: rest)
      (ready : queue.phase = .draining ∨ queue.phase = .resting ∧ queue.allEmpty = true) :
      Steps queue .receive (queue.accept defaultPlatform request rest)
  | dispatched {order : List String} (phase : queue.phase = .draining) (drained : queue.incoming = [])
      (listed : order.Perm queue.pending.keys) : Steps queue (.dispatch order) { queue with phase := .dispatching order }
  | dropped {platform : String} {rest : List String} {hasRoom : Bool}
      (phase : queue.phase = .dispatching (platform :: rest)) (unconfigured : platform ∉ systemSenders) :
      Steps queue (.serve hasRoom)
        { queue with pending := queue.pending.modify platform fun _ => [], phase := .dispatching rest }
  | passed {platform : String} {rest : List String} {hasRoom : Bool}
      (phase : queue.phase = .dispatching (platform :: rest)) (configured : platform ∈ systemSenders)
      (done : queue.waiting platform = [] ∨ hasRoom = false) :
      Steps queue (.serve hasRoom) { queue with phase := .dispatching rest }
  | delivered {platform : String} {rest : List String} {request : Drv DrvId} {later : List (Drv DrvId)}
      (phase : queue.phase = .dispatching (platform :: rest)) (configured : platform ∈ systemSenders)
      (front : queue.waiting platform = request :: later) :
      Steps queue (.serve true)
        { queue with
          pending := queue.pending.modify platform fun _ => later
          sent := Function.update queue.sent platform (queue.sent platform ++ [request]) }
  | rested (phase : queue.phase = .dispatching []) : Steps queue .rest { queue with phase := .resting }
  | ticked (phase : queue.phase = .resting) (busy : queue.allEmpty = false) :
      Steps queue .tick { queue with phase := .draining }

variable {systemSenders defaultPlatform} {queue next : BuildQueue DrvId} {action : QueueAction DrvId}
variable {platform : String} {request : Drv DrvId}

theorem serve_steps {rest : List String} (hasRoom : Bool) (phase : queue.phase = .dispatching (platform :: rest)) :
    Steps systemSenders defaultPlatform queue (.serve hasRoom) (queue.serve systemSenders platform rest hasRoom) := by
  unfold serve
  split
  · rename_i unconfigured
    exact .dropped phase unconfigured
  · rename_i configured
    have configured := Decidable.not_not.mp configured
    split
    · rename_i empty
      exact .passed phase configured (.inl empty)
    · rename_i front
      split
      · rename_i room
        rw [room]
        exact .delivered phase configured front
      · rename_i full
        exact .passed phase configured (.inr (Bool.eq_false_iff.mpr full))

theorem steps_of_step (taken : queue.step systemSenders defaultPlatform action = some next) :
    Steps systemSenders defaultPlatform queue action next := by
  cases action with
  | submit request =>
    obtain ⟨room, ⟨⟩⟩ := Option.ite_none_right_eq_some.mp taken
    exact .submitted request room
  | receive =>
    simp only [step] at taken
    split at taken
    · rename_i phase head
      cases Option.some.inj taken
      exact .received head (.inl phase)
    · rename_i phase head
      obtain ⟨empty, ⟨⟩⟩ := Option.ite_none_right_eq_some.mp taken
      exact .received head (.inr ⟨phase, empty⟩)
    · cases taken
  | dispatch order =>
    simp only [step] at taken
    split at taken
    · rename_i phase drained
      obtain ⟨listed, ⟨⟩⟩ := Option.ite_none_right_eq_some.mp taken
      exact .dispatched phase drained (List.isPerm_iff.mp listed)
    · cases taken
  | serve hasRoom =>
    simp only [step] at taken
    split at taken
    · rename_i phase
      cases Option.some.inj taken
      exact serve_steps hasRoom phase
    · cases taken
  | rest =>
    obtain ⟨phase, ⟨⟩⟩ := Option.ite_none_right_eq_some.mp taken
    exact .rested phase
  | tick =>
    obtain ⟨⟨phase, busy⟩, ⟨⟩⟩ := Option.ite_none_right_eq_some.mp taken
    exact .ticked phase busy

theorem step_of_steps (steps : Steps systemSenders defaultPlatform queue action next) :
    queue.step systemSenders defaultPlatform action = some next := by
  cases steps with
  | submitted request room => exact if_pos room
  | received head ready =>
    obtain phase | ⟨phase, empty⟩ := ready
    · simp [step, phase, head]
    · simp [step, phase, head, empty]
  | dispatched phase drained listed => simp [step, phase, drained, List.isPerm_iff.mpr listed]
  | dropped phase unconfigured => simp [step, phase, serve, unconfigured]
  | @passed platform rest hasRoom phase configured done =>
    obtain empty | full := done
    · simp [step, phase, serve, configured, empty]
    · cases front : queue.waiting platform with
      | nil => simp [step, phase, serve, configured, front]
      | cons request later => simp [step, phase, serve, configured, full, front]
  | delivered phase configured front => simp [step, phase, serve, configured, front]
  | rested phase => exact if_pos phase
  | ticked phase busy => exact if_pos ⟨phase, busy⟩

theorem enqueue_getD (pending : Table String (List (Drv DrvId))) (platform other : String) (request : Drv DrvId) :
    ((enqueue pending platform request).get other).getD [] =
      if other = platform then (pending.get other).getD [] ++ [request] else (pending.get other).getD [] := by
  unfold enqueue
  split
  · rename_i present
    obtain ⟨list, found⟩ := Option.isSome_iff_exists.mp present
    rw [Table.modify_get]
    split
    · rename_i same
      rw [same, found]
      rfl
    · rfl
  · rename_i absent
    have absent : pending.get platform = none := Option.not_isSome_iff_eq_none.mp absent
    rw [Table.push_get]
    split
    · rename_i same
      rw [same, absent]
      rfl
    · rfl

theorem accept_waiting (queue : BuildQueue DrvId) (request : Drv DrvId) (rest : List (Drv DrvId)) (platform : String) :
    (queue.accept defaultPlatform request rest).waiting platform =
      if platformOf defaultPlatform request = some platform then queue.waiting platform ++ [request]
      else queue.waiting platform := by
  unfold accept waiting classifyAndEnqueue
  cases platformOf defaultPlatform request with
  | none => simp
  | some target =>
    rw [enqueue_getD]
    simp only [Option.some.injEq, eq_comm]

theorem modify_getD {pending : Table String (List (Drv DrvId))} {list : List (Drv DrvId)}
    (settled : list = [] ∨ (pending.get platform).getD [] ≠ []) (other : String) :
    ((pending.modify platform fun _ => list).get other).getD [] =
      if other = platform then list else (pending.get other).getD [] := by
  rw [Table.modify_get]
  split
  · rename_i same
    rw [same]
    cases found : pending.get platform with
    | some _ => rfl
    | none =>
      obtain rfl | nonempty := settled
      · rfl
      · rw [found] at nonempty
        exact absurd rfl nonempty
  · rfl

theorem getD_ne_nil {later : List (Drv DrvId)} (front : queue.waiting platform = request :: later) :
    (queue.pending.get platform).getD [] ≠ [] := by
  rw [show (queue.pending.get platform).getD [] = request :: later from front]
  exact List.cons_ne_nil _ _

theorem allEmpty_iff : queue.allEmpty = true ↔ ∀ platform, queue.waiting platform = [] := by
  rw [allEmpty, List.all_eq_true]
  constructor
  · intro empty platform
    unfold waiting
    cases found : queue.pending.get platform with
    | none => rfl
    | some list =>
      have listed : list ∈ queue.pending.values :=
        List.mem_filterMap.mpr ⟨platform, Table.mem_keys_of_get found, found⟩
      exact List.isEmpty_iff.mp (empty list listed)
  · intro empty list listed
    obtain ⟨platform, -, found⟩ := List.mem_filterMap.mp listed
    have none := empty platform
    rw [waiting, found] at none
    exact List.isEmpty_iff.mpr none

/-- What a configured platform was sent, followed by what waits for it, is what
was received for it. -/
def Lossless (systemSenders : List String) (defaultPlatform : Option String) (queue : BuildQueue DrvId) : Prop :=
  ∀ platform ∈ systemSenders, queue.sent platform ++ queue.waiting platform =
    queue.received.filter fun request => platformOf defaultPlatform request = some platform

theorem Steps.lossless (steps : Steps systemSenders defaultPlatform queue action next)
    (lossless : queue.Lossless systemSenders defaultPlatform) : next.Lossless systemSenders defaultPlatform := by
  intro platform configured
  have before := lossless platform configured
  cases steps with
  | submitted | dispatched | passed | rested | ticked => exact before
  | @received request rest =>
    rw [accept_waiting]
    show queue.sent platform ++ _ = (queue.received ++ [request]).filter _
    rw [List.filter_append, ← before]
    by_cases classified : platformOf defaultPlatform request = some platform
    · simp [classified]
    · simp [classified]
  | @dropped other _ _ _ unconfigured =>
    have different : platform ≠ other := fun same => unconfigured (same ▸ configured)
    rw [← before]
    show queue.sent platform ++ ((queue.pending.modify other _).get platform).getD [] = _
    rw [modify_getD (.inl rfl), if_neg different]
    rfl
  | @delivered other _ request later _ _ front =>
    rw [← before]
    show Function.update queue.sent other _ platform ++ ((queue.pending.modify other _).get platform).getD [] = _
    rw [modify_getD (.inr (getD_ne_nil front)), Function.update_apply]
    split
    · rename_i same
      rw [same, front, List.append_assoc, List.singleton_append]
    · rfl

/-- Somebody can build this. -/
def serviceable (systemSenders : List String) (defaultPlatform : Option String) (request : Drv DrvId) : Bool :=
  (platformOf defaultPlatform request).any (· ∈ systemSenders)

/-- Unconfigured platforms wait for the pass over the deques at most. -/
def Cleared (systemSenders : List String) (queue : BuildQueue DrvId) : Prop :=
  ∀ platform, platform ∉ systemSenders → queue.waiting platform ≠ [] →
    match queue.phase with
    | .draining => True
    | .dispatching rest => platform ∈ rest
    | .resting => False

theorem mem_keys_of_waiting (nonempty : queue.waiting platform ≠ []) : platform ∈ queue.pending.keys := by
  cases found : queue.pending.get platform with
  | none =>
    rw [waiting, found] at nonempty
    exact absurd rfl nonempty
  | some list => exact Table.mem_keys_of_get found

theorem Steps.cleared (steps : Steps systemSenders defaultPlatform queue action next)
    (cleared : queue.Cleared systemSenders) : next.Cleared systemSenders := by
  intro platform unconfigured nonempty
  cases steps with
  | submitted => exact cleared platform unconfigured nonempty
  | received | ticked => trivial
  | dispatched _ _ listed => exact listed.mem_iff.mpr (mem_keys_of_waiting nonempty)
  | @dropped other rest _ phase _ =>
    have kept : platform ≠ other ∧ queue.waiting platform ≠ [] := by
      rw [waiting, modify_getD (.inl rfl)] at nonempty
      split at nonempty
      · exact absurd rfl nonempty
      · rename_i different
        exact ⟨different, nonempty⟩
    have listed := cleared platform unconfigured kept.2
    rw [phase] at listed
    exact (List.mem_cons.mp listed).resolve_left kept.1
  | @passed other _ _ phase configured _ =>
    have listed := cleared platform unconfigured nonempty
    rw [phase] at listed
    exact (List.mem_cons.mp listed).resolve_left fun same => unconfigured (same ▸ configured)
  | @delivered other rest request later phase configured front =>
    have different : platform ≠ other := fun same => unconfigured (same ▸ configured)
    rw [waiting, modify_getD (.inr (getD_ne_nil front)), if_neg different] at nonempty
    exact cleared platform unconfigured nonempty
  | rested phase =>
    have listed := cleared platform unconfigured nonempty
    rw [phase] at listed
    cases listed

/-- The phase without the platforms that are not configured. -/
def QueuePhase.restrict (systemSenders : List String) : QueuePhase → QueuePhase
  | .dispatching rest => .dispatching (rest.filter (· ∈ systemSenders))
  | phase => phase

def QueueAction.restrict (systemSenders : List String) : QueueAction DrvId → QueueAction DrvId
  | .dispatch order => .dispatch (order.filter (· ∈ systemSenders))
  | action => action

/-- The queue as it would be without the requests that nobody can build. It may
still be asleep when such a request has woken the loop. -/
structure Shadow (systemSenders : List String) (defaultPlatform : Option String) (queue shadow : BuildQueue DrvId) :
    Prop where
  incoming : shadow.incoming = queue.incoming.filter (serviceable systemSenders defaultPlatform)
  keys : shadow.pending.keys = queue.pending.keys.filter (· ∈ systemSenders)
  waiting : ∀ platform ∈ systemSenders, shadow.waiting platform = queue.waiting platform
  sent : ∀ platform ∈ systemSenders, shadow.sent platform = queue.sent platform
  phase : shadow.phase = QueuePhase.restrict systemSenders queue.phase ∨
    shadow.phase = .resting ∧ ∀ platform ∈ systemSenders, queue.waiting platform = []

theorem enqueue_keys (pending : Table String (List (Drv DrvId))) (platform : String) (request : Drv DrvId) :
    (enqueue pending platform request).keys =
      if platform ∈ pending.keys then pending.keys else platform :: pending.keys := by
  unfold enqueue
  by_cases present : pending.contains platform = true
  · rw [if_pos present, if_pos ((pending.mem_keys platform).mpr present), Table.modify_keys]
  · have absent : platform ∉ pending.keys := fun member => present ((pending.mem_keys platform).mp member)
    rw [if_neg present, if_neg absent, Table.push_keys, List.erase_of_not_mem absent]

theorem serviceable_iff : serviceable systemSenders defaultPlatform request = true ↔
    ∃ platform ∈ systemSenders, platformOf defaultPlatform request = some platform := by
  unfold serviceable
  cases platformOf defaultPlatform request with
  | none => simp
  | some platform => simp

section Simulation

variable {shadow : BuildQueue DrvId} {request : Drv DrvId} {rest : List (Drv DrvId)}

theorem Shadow.accept (related : Shadow systemSenders defaultPlatform queue shadow)
    (rest : List (Drv DrvId)) (fit : serviceable systemSenders defaultPlatform request = true) :
    Shadow systemSenders defaultPlatform (queue.accept defaultPlatform request rest)
      (shadow.accept defaultPlatform request (rest.filter (serviceable systemSenders defaultPlatform))) := by
  obtain ⟨platform, configured, classified⟩ := serviceable_iff.mp fit
  refine ⟨rfl, ?_, fun other member => ?_, related.sent, .inl rfl⟩
  · show (classifyAndEnqueue request defaultPlatform shadow.pending).keys =
      (classifyAndEnqueue request defaultPlatform queue.pending).keys.filter _
    have same : platform ∈ shadow.pending.keys ↔ platform ∈ queue.pending.keys := by
      simp [related.keys, configured]
    simp only [classifyAndEnqueue, classified, enqueue_keys, same]
    split
    · exact related.keys
    · simp [related.keys, configured]
  · rw [accept_waiting, accept_waiting, related.waiting other member]

theorem Shadow.ignore (related : Shadow systemSenders defaultPlatform queue shadow)
    (head : queue.incoming = request :: rest) (unfit : serviceable systemSenders defaultPlatform request ≠ true)
    (ready : queue.phase = .draining ∨ queue.phase = .resting ∧ queue.allEmpty = true) :
    Shadow systemSenders defaultPlatform (queue.accept defaultPlatform request rest) shadow := by
  have kept : ∀ platform ∈ systemSenders,
      (queue.accept defaultPlatform request rest).waiting platform = queue.waiting platform := by
    intro platform configured
    rw [accept_waiting, if_neg fun classified => unfit (serviceable_iff.mpr ⟨platform, configured, classified⟩)]
  refine ⟨?_, ?_, fun platform member => ?_, related.sent, ?_⟩
  · rw [related.incoming, head, List.filter_cons_of_neg unfit]
    rfl
  · rw [related.keys]
    show _ = (classifyAndEnqueue request defaultPlatform queue.pending).keys.filter _
    unfold classifyAndEnqueue
    cases classified : platformOf defaultPlatform request with
    | none => rfl
    | some platform =>
      have unconfigured : platform ∉ systemSenders :=
        fun member => unfit (serviceable_iff.mpr ⟨platform, member, classified⟩)
      simp only [enqueue_keys]
      split
      · rfl
      · simp [unconfigured]
  · rw [kept platform member, related.waiting platform member]
  · obtain same | ⟨asleep, empty⟩ := related.phase
    · obtain phase | ⟨phase, empty⟩ := ready
      · rw [phase] at same
        exact .inl same
      · rw [phase] at same
        refine .inr ⟨same, fun platform member => ?_⟩
        rw [kept platform member, allEmpty_iff.mp empty platform]
    · refine .inr ⟨asleep, fun platform member => ?_⟩
      rw [kept platform member, empty platform member]

theorem restrict_dispatching_of_mem {rest : List String} (configured : platform ∈ systemSenders) :
    QueuePhase.restrict systemSenders (.dispatching (platform :: rest)) =
      .dispatching (platform :: rest.filter (· ∈ systemSenders)) := by
  rw [QueuePhase.restrict, List.filter_cons_of_pos (by simpa using configured)]

theorem Shadow.drop (related : Shadow systemSenders defaultPlatform queue shadow) {rest : List String}
    (phase : queue.phase = .dispatching (platform :: rest)) (unconfigured : platform ∉ systemSenders) :
    Shadow systemSenders defaultPlatform
      { queue with pending := queue.pending.modify platform fun _ => [], phase := .dispatching rest } shadow := by
  have kept : ∀ other ∈ systemSenders,
      BuildQueue.waiting { queue with
        pending := queue.pending.modify platform fun _ => [], phase := .dispatching rest } other =
        queue.waiting other := by
    intro other member
    have different : other ≠ platform := fun same => unconfigured (same ▸ member)
    rw [BuildQueue.waiting, modify_getD (.inl rfl), if_neg different]
    rfl
  refine ⟨related.incoming, related.keys, fun other member => ?_, related.sent, ?_⟩
  · exact (related.waiting other member).trans (kept other member).symm
  · refine related.phase.imp (fun same => ?_) fun asleep => ⟨asleep.1, fun other member => ?_⟩
    · rw [same, phase, QueuePhase.restrict, List.filter_cons_of_neg (by simpa using unconfigured)]
      rfl
    · rw [kept other member, asleep.2 other member]

theorem Shadow.deliver (related : Shadow systemSenders defaultPlatform queue shadow) {later : List (Drv DrvId)}
    (configured : platform ∈ systemSenders) (front : queue.waiting platform = request :: later)
    (awake : shadow.phase = QueuePhase.restrict systemSenders queue.phase) :
    Shadow systemSenders defaultPlatform
      { queue with
        pending := queue.pending.modify platform fun _ => later
        sent := Function.update queue.sent platform (queue.sent platform ++ [request]) }
      { shadow with
        pending := shadow.pending.modify platform fun _ => later
        sent := Function.update shadow.sent platform (shadow.sent platform ++ [request]) } := by
  have ahead : shadow.waiting platform = request :: later := by rw [related.waiting platform configured, front]
  refine ⟨related.incoming, related.keys, fun other member => ?_, fun other member => ?_, .inl awake⟩
  · rw [BuildQueue.waiting, modify_getD (.inr (getD_ne_nil ahead)), BuildQueue.waiting,
      modify_getD (.inr (getD_ne_nil front))]
    split
    · rfl
    · exact related.waiting other member
  · simp only [Function.update_apply, related.sent platform configured]
    split
    · rfl
    · exact related.sent other member

theorem Shadow.allEmpty_iff (related : Shadow systemSenders defaultPlatform queue shadow) :
    shadow.allEmpty = true ↔ ∀ platform ∈ systemSenders, queue.waiting platform = [] := by
  rw [BuildQueue.allEmpty_iff]
  constructor
  · intro empty platform member
    rw [← related.waiting platform member, empty platform]
  · intro empty platform
    by_cases member : platform ∈ systemSenders
    · rw [related.waiting platform member, empty platform member]
    · by_contra nonempty
      have listed := mem_keys_of_waiting nonempty
      rw [related.keys, List.mem_filter] at listed
      exact member (of_decide_eq_true listed.2)

theorem Cleared.allEmpty_iff (cleared : queue.Cleared systemSenders) (resting : queue.phase = .resting) :
    queue.allEmpty = true ↔ ∀ platform ∈ systemSenders, queue.waiting platform = [] := by
  rw [BuildQueue.allEmpty_iff]
  refine ⟨fun empty platform _ => empty platform, fun empty platform => ?_⟩
  by_cases member : platform ∈ systemSenders
  · exact empty platform member
  · by_contra nonempty
    have impossible := cleared platform member nonempty
    rw [resting] at impossible
    exact impossible

/-- A list of actions without the requests that nobody can build. -/
def Quiet (systemSenders : List String) (defaultPlatform : Option String) (actions quiet : List (QueueAction DrvId)) :
    Prop :=
  quiet.Sublist (actions.map (QueueAction.restrict systemSenders)) ∧
    ∀ request, .submit request ∈ quiet → serviceable systemSenders defaultPlatform request = true

theorem Quiet.none (action : QueueAction DrvId) : Quiet systemSenders defaultPlatform [action] [] :=
  ⟨List.nil_sublist _, fun _ member => absurd member List.not_mem_nil⟩

theorem Quiet.one (fit : ∀ request, action = .submit request →
    serviceable systemSenders defaultPlatform request = true) :
    Quiet systemSenders defaultPlatform [action] [QueueAction.restrict systemSenders action] := by
  refine ⟨List.Sublist.refl _, fun request member => fit request ?_⟩
  have same := List.mem_singleton.mp member
  cases action <;> simp_all [QueueAction.restrict]

theorem Quiet.append {first second quiet later : List (QueueAction DrvId)}
    (left : Quiet systemSenders defaultPlatform first quiet) (right : Quiet systemSenders defaultPlatform second later) :
    Quiet systemSenders defaultPlatform (first ++ second) (quiet ++ later) := by
  refine ⟨?_, fun request member => ?_⟩
  · rw [List.map_append]
    exact left.1.append right.1
  · exact (List.mem_append.mp member).elim (left.2 request) (right.2 request)

/-- What the queue without these requests does while the queue takes a step. -/
def Keeps (systemSenders : List String) (defaultPlatform : Option String) (shadow : BuildQueue DrvId)
    (action : QueueAction DrvId) (next : BuildQueue DrvId) : Prop :=
  ∃ quiet later, Quiet systemSenders defaultPlatform [action] quiet ∧
    exec (step systemSenders defaultPlatform) shadow quiet = some later ∧
    Shadow systemSenders defaultPlatform next later

theorem Keeps.asleep (related : Shadow systemSenders defaultPlatform next shadow) :
    Keeps systemSenders defaultPlatform shadow action next :=
  ⟨[], shadow, Quiet.none action, rfl, related⟩

theorem Keeps.along {later : BuildQueue DrvId}
    (fit : ∀ request, action = .submit request → serviceable systemSenders defaultPlatform request = true)
    (steps : Steps systemSenders defaultPlatform shadow (QueueAction.restrict systemSenders action) later)
    (related : Shadow systemSenders defaultPlatform next later) :
    Keeps systemSenders defaultPlatform shadow action next :=
  ⟨_, later, Quiet.one fit, by rw [exec, step_of_steps steps, Option.bind_some, exec], related⟩

theorem Steps.keeps (steps : Steps systemSenders defaultPlatform queue action next)
    (cleared : queue.Cleared systemSenders) (related : Shadow systemSenders defaultPlatform queue shadow) :
    Keeps systemSenders defaultPlatform shadow action next := by
  obtain ⟨incoming, keys, waiting, sent, phases⟩ := related
  have related : Shadow systemSenders defaultPlatform queue shadow := ⟨incoming, keys, waiting, sent, phases⟩
  cases steps with
  | submitted request room =>
    by_cases fit : serviceable systemSenders defaultPlatform request = true
    · refine .along (fun other same => by cases same; exact fit)
        (.submitted request (Nat.lt_of_le_of_lt ?_ room)) ⟨?_, keys, waiting, sent, phases⟩
      · rw [incoming]
        exact List.length_filter_le ..
      · simp [incoming, fit]
    · exact .asleep ⟨by simp [incoming, fit], keys, waiting, sent, phases⟩
  | @received request rest head ready =>
    by_cases fit : serviceable systemSenders defaultPlatform request = true
    · have front : shadow.incoming = request :: rest.filter (serviceable systemSenders defaultPlatform) := by
        rw [incoming, head, List.filter_cons_of_pos fit]
      refine .along (fun _ same => by cases same) (.received front ?_) (related.accept rest fit)
      obtain same | ⟨asleep, empty⟩ := phases
      · obtain phase | ⟨phase, empty⟩ := ready
        · rw [phase] at same
          exact .inl same
        · rw [phase] at same
          exact .inr ⟨same, related.allEmpty_iff.mpr fun platform _ => allEmpty_iff.mp empty platform⟩
      · exact .inr ⟨asleep, related.allEmpty_iff.mpr empty⟩
    · exact .asleep (related.ignore head fit ready)
  | @dispatched order phase drained listed =>
    obtain same | asleep := phases
    · rw [phase] at same
      have none : shadow.incoming = [] := by rw [incoming, drained, List.filter_nil]
      refine .along (fun _ same => by cases same) (.dispatched same none ?_) ⟨incoming, keys, waiting, sent, .inl rfl⟩
      rw [keys]
      exact listed.filter _
    · exact .asleep ⟨incoming, keys, waiting, sent, .inr asleep⟩
  | @dropped platform rest _ phase unconfigured => exact .asleep (related.drop phase unconfigured)
  | @passed platform rest hasRoom phase configured done =>
    obtain same | asleep := phases
    · rw [phase, restrict_dispatching_of_mem configured] at same
      refine .along (fun _ same => by cases same) (.passed same configured ?_) ⟨incoming, keys, waiting, sent, .inl rfl⟩
      rw [waiting platform configured]
      exact done
    · exact .asleep ⟨incoming, keys, waiting, sent, .inr asleep⟩
  | @delivered platform rest request later phase configured front =>
    obtain same | asleep := phases
    · have ahead : shadow.waiting platform = request :: later := by rw [waiting platform configured, front]
      have serves := same
      rw [phase, restrict_dispatching_of_mem configured] at serves
      exact .along (fun _ same => by cases same) (.delivered serves configured ahead) (related.deliver configured front same)
    · rw [asleep.2 platform configured] at front
      cases front
  | rested phase =>
    obtain same | asleep := phases
    · rw [phase] at same
      exact .along (fun _ same => by cases same) (.rested same) ⟨incoming, keys, waiting, sent, .inl rfl⟩
    · exact .asleep ⟨incoming, keys, waiting, sent, .inr asleep⟩
  | ticked phase busy =>
    have some : ¬ ∀ platform ∈ systemSenders, queue.waiting platform = [] := by
      rw [← cleared.allEmpty_iff phase, busy]
      exact Bool.false_ne_true
    obtain same | ⟨-, empty⟩ := phases
    · rw [phase] at same
      have busy : shadow.allEmpty = false :=
        Bool.eq_false_iff.mpr fun empty => some (related.allEmpty_iff.mp empty)
      exact .along (fun _ same => by cases same) (.ticked same busy) ⟨incoming, keys, waiting, sent, .inl rfl⟩
    · exact absurd empty some

theorem run_shadow {actions : List (QueueAction DrvId)} {final : BuildQueue DrvId}
    (run : AnyRun (step systemSenders defaultPlatform) start actions final) :
    final.Cleared systemSenders ∧ ∃ quiet shadow, Quiet systemSenders defaultPlatform actions quiet ∧
      exec (step systemSenders defaultPlatform) start quiet = some shadow ∧
      Shadow systemSenders defaultPlatform final shadow := by
  induction run with
  | start =>
    refine ⟨fun _ _ nonempty => absurd rfl nonempty, [], start, ⟨List.nil_sublist _, ?_⟩, rfl, ?_⟩
    · exact fun _ member => absurd member List.not_mem_nil
    · exact ⟨rfl, rfl, fun _ _ => rfl, fun _ _ => rfl, .inl rfl⟩
  | snoc _ _ taken ih =>
    obtain ⟨cleared, quiet, shadow, without, performed, related⟩ := ih
    have steps := steps_of_step taken
    obtain ⟨more, later, last, moved, related⟩ := steps.keeps cleared related
    refine ⟨steps.cleared cleared, quiet ++ more, later, without.append last, ?_, related⟩
    rw [exec_append, performed, Option.bind_some, moved]

end Simulation

/-- The queue loses, duplicates and reorders nothing, and what it sends and holds
for the configured platforms is what it would be if the requests that nobody can
build had not come, after no more steps. -/
theorem run_lossless (systemSenders : List String) (defaultPlatform : Option String)
    (actions : List (QueueAction DrvId)) (final : BuildQueue DrvId)
    (performed : exec (step systemSenders defaultPlatform) start actions = some final) :
    (∀ platform ∈ systemSenders, final.sent platform ++ final.waiting platform =
      final.received.filter fun request => platformOf defaultPlatform request = some platform) ∧
    ∃ quiet shadow, Quiet systemSenders defaultPlatform actions quiet ∧
      exec (step systemSenders defaultPlatform) start quiet = some shadow ∧
      ∀ platform ∈ systemSenders,
        shadow.sent platform = final.sent platform ∧ shadow.waiting platform = final.waiting platform := by
  have run := run_of_exec performed
  constructor
  · exact run.invariant (p := Lossless systemSenders defaultPlatform) (fun _ _ => rfl)
      fun _ _ _ lossless _ taken => (steps_of_step taken).lossless lossless
  · obtain ⟨-, quiet, shadow, without, performed, related⟩ := run_shadow run
    exact ⟨quiet, shadow, without, performed,
      fun platform member => ⟨related.sent platform member, related.waiting platform member⟩⟩

def requestFor (drvPath : Nat) (system : String) : Drv Nat := { Drv.plain drvPath .buildable with system := system }

/-- Two requests for the default platform around one that nobody can build; there
is room for the first only. -/
def mixedRequests : List (QueueAction Nat) :=
  [.submit (requestFor 0 "builtin"), .submit (requestFor 1 "riscv64-linux"), .submit (requestFor 2 "x86_64-linux"),
    .receive, .receive, .receive, .dispatch ["riscv64-linux", "x86_64-linux"],
    .serve false, .serve true, .serve false, .rest, .tick]

theorem mixedRequests_lossless : ∃ final : BuildQueue Nat,
    exec (step ["x86_64-linux"] (some "x86_64-linux")) start mixedRequests = some final ∧
      final.sent "x86_64-linux" ++ final.waiting "x86_64-linux" =
        [requestFor 0 "builtin", requestFor 2 "x86_64-linux"] := by
  have received : (exec (step ["x86_64-linux"] (some "x86_64-linux")) start mixedRequests).map BuildQueue.received =
      some [requestFor 0 "builtin", requestFor 1 "riscv64-linux", requestFor 2 "x86_64-linux"] := by decide
  obtain ⟨final, performed, received⟩ := Option.map_eq_some_iff.mp received
  refine ⟨final, performed, ?_⟩
  rw [(run_lossless _ _ _ final performed).1 "x86_64-linux" (by decide), received]
  decide

end BuildQueue

end EkaCI
