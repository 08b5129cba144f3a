import EkaCI.Build.State
import EkaCI.Lib.Run
import Mathlib.Data.List.Sort

/-! The web sockets to which the server's events are broadcast. Every connection reads
the one channel at its own pace, and forwards what its client has subscribed to. The
channel keeps the latest events only: a connection that falls further behind is told
how many it has missed. It is never closed, since the service holds a sender itself. -/

namespace EkaCI.WebSocketService

open Lib

structure BuildStateChange where
  drvPath : String
  oldState : DrvBuildState
  newState : DrvBuildState
  timestamp : Int

structure JobComplete where
  jobsetId : Int
  conclusion : String
  timestamp : Int

structure LogLine where
  drvPath : String
  line : String
  timestamp : Int

structure JobStatsUpdate where
  jobsetId : Int
  totalDrvs : Int
  queuedDrvs : Int
  buildableDrvs : Int
  buildingDrvs : Int
  completedSuccessDrvs : Int
  completedFailureDrvs : Int
  failedRetryDrvs : Int
  transitiveFailureDrvs : Int
  blockedDrvs : Int
  interruptedDrvs : Int
  timestamp : Int

inductive ServerEvent where
  | buildStateChange (change : BuildStateChange)
  | jobComplete (complete : JobComplete)
  | logLine (log : LogLine)
  | jobStatsUpdate (update : JobStatsUpdate)

inductive ResourceType where
  | commit
  | job
  | drv
  | allBuilds
  deriving DecidableEq, Repr

structure Subscription where
  resource : ResourceType
  id : String
  deriving DecidableEq, Repr

structure SubscribeMessage where
  resource : ResourceType
  id : String

structure UnsubscribeMessage where
  resource : ResourceType
  id : String

inductive ClientMessage where
  | subscribe (sub : SubscribeMessage)
  | unsubscribe (unsub : UnsubscribeMessage)

structure SubscriptionManager where
  subscriptions : Finset Subscription

namespace SubscriptionManager

def new : SubscriptionManager := ⟨∅⟩

def subscribe (manager : SubscriptionManager) (resource : ResourceType) (id : String) : SubscriptionManager :=
  ⟨insert ⟨resource, id⟩ manager.subscriptions⟩

def unsubscribe (manager : SubscriptionManager) (resource : ResourceType) (id : String) : SubscriptionManager :=
  ⟨manager.subscriptions.erase ⟨resource, id⟩⟩

/-- A log line goes to those that have subscribed to its drv, never to those of all builds. -/
def matchesEvent (manager : SubscriptionManager) : ServerEvent → Bool
  | .buildStateChange change =>
    (⟨.drv, change.drvPath⟩ : Subscription) ∈ manager.subscriptions ∨
      (⟨.allBuilds, "all"⟩ : Subscription) ∈ manager.subscriptions
  | .jobComplete complete =>
    (⟨.job, toString complete.jobsetId⟩ : Subscription) ∈ manager.subscriptions ∨
      (⟨.allBuilds, "all"⟩ : Subscription) ∈ manager.subscriptions
  | .logLine log => (⟨.drv, log.drvPath⟩ : Subscription) ∈ manager.subscriptions
  | .jobStatsUpdate update =>
    (⟨.job, toString update.jobsetId⟩ : Subscription) ∈ manager.subscriptions ∨
      (⟨.allBuilds, "all"⟩ : Subscription) ∈ manager.subscriptions

end SubscriptionManager

/-- The library that reads the messages and writes the events. -/
structure Codec where
  fromStr : String → Option ClientMessage
  toText : ServerEvent → Option String

/-- The buffer the service asks for; the channel may hold more. -/
def bufferSize : Nat := 100

/-- A connection: where on the channel it came in and where it reads next, and what
it has sent and missed so far. -/
structure Connection where
  joined : Nat
  next : Nat
  subscriptions : SubscriptionManager
  sent : List String
  missed : Nat
  closed : Bool

/-- What happens to one connection: its client sends a text or another frame, or goes;
or an event is received, and what is then sent may not get through. -/
inductive ClientAction where
  | text (text : String)
  | other
  | close
  | receive (through : Bool)

section Step

variable (codec : Codec) (capacity : Nat)

def handleClientMessage (text : String) (manager : SubscriptionManager) : Option SubscriptionManager :=
  (codec.fromStr text).map fun
    | .subscribe sub => manager.subscribe sub.resource sub.id
    | .unsubscribe unsub => manager.unsubscribe unsub.resource unsub.id

/-- What the connection sends for an event, if anything. -/
def frame (manager : SubscriptionManager) (event : ServerEvent) : Option String :=
  if manager.matchesEvent event then codec.toText event else none

namespace Connection

def opened (events : List ServerEvent) : Connection := ⟨events.length, events.length, .new, [], 0, false⟩

/-- The next event is received. One that lags moves on to the oldest event that is kept. -/
def receive (connection : Connection) (events : List ServerEvent) (through : Bool) : Option Connection :=
  if connection.next + capacity < events.length then
    let oldest := events.length - capacity
    some { connection with next := oldest, missed := connection.missed + (oldest - connection.next) }
  else
    events[connection.next]?.map fun event =>
      let received := { connection with next := connection.next + 1 }
      match frame codec connection.subscriptions event with
      | none => received
      | some json => if through then { received with sent := connection.sent ++ [json] } else { received with closed := true }

/-- One round of the loop of a connection. -/
def handle (connection : Connection) (events : List ServerEvent) (action : ClientAction) : Option Connection :=
  if connection.closed then none
  else match action with
    | .text text =>
      match handleClientMessage codec text connection.subscriptions with
      | some subscriptions => some { connection with subscriptions := subscriptions }
      | none => some { connection with closed := true }
    | .other => some connection
    | .close => some { connection with closed := true }
    | .receive through => connection.receive codec capacity events through

end Connection

end Step

end EkaCI.WebSocketService

namespace EkaCI

open Lib WebSocketService

/-- All that has been broadcast and every connection there has been. An event that is
sent while there is none is kept here, as no later connection reads it. -/
structure WebSocketService where
  events : List ServerEvent
  connections : List Connection

namespace WebSocketService

def new : WebSocketService := ⟨[], []⟩

inductive Action where
  | broadcast (event : ServerEvent)
  | connect
  | client (id : Nat) (action : ClientAction)

def step (codec : Codec) (capacity : Nat) (service : WebSocketService) : Action → Option WebSocketService
  | .broadcast event => some { service with events := service.events ++ [event] }
  | .connect => some { service with connections := service.connections ++ [.opened service.events] }
  | .client id action =>
    service.connections[id]?.bind fun connection =>
      (connection.handle codec capacity service.events action).map fun next =>
        { service with connections := service.connections.set id next }

/-- An event is received after so many of the client's texts. -/
structure Receipt where
  position : Nat
  handled : Nat

section Streams

variable (codec : Codec)

/-- The subscriptions after the client's texts. -/
def subscriptionsAfter (texts : List String) : SubscriptionManager :=
  texts.foldl (fun manager text => (handleClientMessage codec text manager).getD manager) .new

def Receipt.frame (events : List ServerEvent) (texts : List String) (receipt : Receipt) : Option String :=
  events[receipt.position]?.bind (WebSocketService.frame codec (subscriptionsAfter codec (texts.take receipt.handled)))

def ClientAction.texts : ClientAction → List String
  | .text content => [content]
  | .other | .close | .receive _ => []

def Action.textsOf (id : Nat) : Action → List String
  | .client other action => if other = id then action.texts else []
  | .broadcast _ | .connect => []

/-- The texts that a client has sent in a run. -/
def textsOf (id : Nat) (actions : List Action) : List String := actions.flatMap (Action.textsOf id)

/-- What a connection has sent is what it was subscribed to at each receipt. The events
are received in their order, each at most once, and those not received were missed. -/
structure Streams (events : List ServerEvent) (texts : List String) (connection : Connection) (receipts : List Receipt) :
    Prop where
  ordered : receipts.Pairwise fun earlier later => earlier.position < later.position ∧ earlier.handled ≤ later.handled
  within : ∀ receipt ∈ receipts, connection.joined ≤ receipt.position ∧ receipt.position < connection.next ∧
    receipt.handled ≤ texts.length
  reached : connection.joined ≤ connection.next ∧ connection.next ≤ events.length
  sent : connection.sent = receipts.filterMap (Receipt.frame codec events texts)
  counted : connection.closed = false → receipts.length + connection.missed = connection.next - connection.joined
  subscribed : connection.closed = false → connection.subscriptions = subscriptionsAfter codec texts

end Streams

section Steps

variable {codec : Codec} {capacity : Nat} {events : List ServerEvent} {texts : List String} {connection next : Connection}
  {receipts : List Receipt}

theorem subscriptionsAfter_snoc (text : String) : subscriptionsAfter codec (texts ++ [text]) =
    (handleClientMessage codec text (subscriptionsAfter codec texts)).getD (subscriptionsAfter codec texts) := by
  rw [subscriptionsAfter, List.foldl_append, List.foldl_cons, List.foldl_nil, subscriptionsAfter]

theorem Streams.frames (streams : Streams codec events texts connection receipts) (moreEvents : List ServerEvent)
    (moreTexts : List String) : receipts.filterMap (Receipt.frame codec (events ++ moreEvents) (texts ++ moreTexts)) =
      receipts.filterMap (Receipt.frame codec events texts) := by
  apply List.filterMap_congr
  intro receipt member
  obtain ⟨-, before, handled⟩ := streams.within receipt member
  have there : receipt.position < events.length := lt_of_lt_of_le before streams.reached.2
  rw [Receipt.frame, Receipt.frame, List.getElem?_append_left there, List.take_append_of_le_length handled]

theorem streams_opened : Streams codec events [] (.opened events) [] where
  ordered := .nil
  within _ member := absurd member List.not_mem_nil
  reached := ⟨Nat.le_refl _, Nat.le_refl _⟩
  sent := rfl
  counted _ := (Nat.sub_self _).symm
  subscribed _ := rfl

theorem Streams.broadcast (streams : Streams codec events texts connection receipts) (event : ServerEvent) :
    Streams codec (events ++ [event]) texts connection receipts where
  ordered := streams.ordered
  within := streams.within
  reached := by
    rw [List.length_append]
    exact ⟨streams.reached.1, Nat.le_add_right_of_le streams.reached.2⟩
  sent := by
    have same := streams.frames [event] []
    rw [List.append_nil] at same
    exact streams.sent.trans same.symm
  counted := streams.counted
  subscribed := streams.subscribed

theorem Streams.text (streams : Streams codec events texts connection receipts) {text : String}
    {subscriptions : SubscriptionManager} {closed : Bool} (remains : closed = false → connection.closed = false)
    (handled : closed = false → subscriptions = subscriptionsAfter codec (texts ++ [text])) :
    Streams codec events (texts ++ [text]) { connection with subscriptions := subscriptions, closed := closed } receipts where
  ordered := streams.ordered
  within receipt member := by
    obtain ⟨joined, before, handled⟩ := streams.within receipt member
    rw [List.length_append]
    exact ⟨joined, before, Nat.le_add_right_of_le handled⟩
  reached := streams.reached
  sent := by
    have same := streams.frames [] [text]
    rw [List.append_nil] at same
    exact streams.sent.trans same.symm
  counted live := streams.counted (remains live)
  subscribed := handled

theorem Streams.skip (streams : Streams codec events texts connection receipts) {position missed : Nat} {closed : Bool}
    (forward : connection.next ≤ position) (within : position ≤ events.length)
    (remains : closed = false → connection.closed = false)
    (counted : closed = false → missed = connection.missed + (position - connection.next)) :
    Streams codec events texts { connection with next := position, missed := missed, closed := closed } receipts where
  ordered := streams.ordered
  within receipt member := by
    obtain ⟨joined, before, handled⟩ := streams.within receipt member
    exact ⟨joined, lt_of_lt_of_le before forward, handled⟩
  reached := ⟨streams.reached.1.trans forward, within⟩
  sent := streams.sent
  counted live := by
    have before := streams.counted (remains live)
    have joined := streams.reached.1
    dsimp only
    rw [counted live]
    omega
  subscribed live := streams.subscribed (remains live)

theorem Streams.receipt (streams : Streams codec events texts connection receipts) (live : connection.closed = false)
    {event : ServerEvent} (found : events[connection.next]? = some event) :
    Streams codec events texts
      { connection with
        next := connection.next + 1
        sent := connection.sent ++ (frame codec connection.subscriptions event).toList }
      (receipts ++ [⟨connection.next, texts.length⟩]) where
  ordered := by
    refine List.pairwise_append.mpr ⟨streams.ordered, List.pairwise_singleton _ _, fun earlier member later last => ?_⟩
    obtain rfl := List.mem_singleton.mp last
    obtain ⟨-, before, handled⟩ := streams.within earlier member
    exact ⟨before, handled⟩
  within receipt member := by
    rcases mem_snoc.mp member with earlier | rfl
    · obtain ⟨joined, before, handled⟩ := streams.within receipt earlier
      exact ⟨joined, Nat.lt_succ_of_lt before, handled⟩
    · exact ⟨streams.reached.1, Nat.lt_succ_self _, Nat.le_refl _⟩
  reached := ⟨Nat.le_succ_of_le streams.reached.1, (List.getElem?_eq_some_iff.mp found).1⟩
  sent := by
    have last : Receipt.frame codec events texts ⟨connection.next, texts.length⟩ =
        frame codec connection.subscriptions event := by
      rw [Receipt.frame, found, Option.bind_some, List.take_length, streams.subscribed live]
    rw [List.filterMap_append, streams.sent, List.filterMap_cons, last]
    cases frame codec connection.subscriptions event <;> rfl
  counted _ := by
    have before := streams.counted live
    have joined := streams.reached.1
    rw [List.length_append, List.length_singleton]
    dsimp only
    omega
  subscribed := streams.subscribed

theorem Streams.receive (streams : Streams codec events texts connection receipts) (live : connection.closed = false)
    {through : Bool} (taken : connection.receive codec capacity events through = some next) :
    ∃ received, Streams codec events texts next received := by
  unfold Connection.receive at taken
  split at taken
  · rename_i lags
    obtain rfl := Option.some.inj taken
    exact ⟨receipts, streams.skip (by omega) (Nat.sub_le _ _) id fun _ => rfl⟩
  · obtain ⟨event, found, rfl⟩ := Option.map_eq_some_iff.mp taken
    have received := streams.receipt live found
    have there : connection.next < events.length := (List.getElem?_eq_some_iff.mp found).1
    cases due : frame codec connection.subscriptions event with
    | none =>
      rw [due] at received
      simp only [Option.toList_none, List.append_nil] at received
      exact ⟨_, received⟩
    | some json =>
      cases through with
      | true =>
        rw [due] at received
        exact ⟨_, received⟩
      | false =>
        refine ⟨receipts, streams.skip (Nat.le_succ _) there (fun stays => ?_) fun stays => ?_⟩
        · cases stays
        · cases stays

theorem Streams.handle (streams : Streams codec events texts connection receipts) {action : ClientAction}
    (taken : connection.handle codec capacity events action = some next) :
    ∃ received, Streams codec events (texts ++ action.texts) next received := by
  unfold Connection.handle at taken
  split at taken
  · cases taken
  · rename_i notClosed
    have live : connection.closed = false := Bool.not_eq_true _ ▸ notClosed
    cases action with
    | text text =>
      simp only at taken
      split at taken
      · rename_i subscriptions handled
        obtain rfl := Option.some.inj taken
        refine ⟨receipts, streams.text id fun _ => ?_⟩
        rw [subscriptionsAfter_snoc, ← streams.subscribed live, handled]
        rfl
      · obtain rfl := Option.some.inj taken
        refine ⟨receipts, streams.text (fun _ => live) fun stays => ?_⟩
        cases stays
    | other =>
      obtain rfl := Option.some.inj taken
      rw [ClientAction.texts, List.append_nil]
      exact ⟨receipts, streams⟩
    | close =>
      obtain rfl := Option.some.inj taken
      rw [ClientAction.texts, List.append_nil]
      refine ⟨receipts, streams.skip (Nat.le_refl _) streams.reached.2 (fun _ => live) fun stays => ?_⟩
      cases stays
    | receive through =>
      rw [ClientAction.texts, List.append_nil]
      exact streams.receive live taken

end Steps

section Runs

variable {codec : Codec} {capacity : Nat} {actions : List Action} {state next final : WebSocketService} {action : Action}

theorem textsOf_snoc (id : Nat) (actions : List Action) (action : Action) :
    textsOf id (actions ++ [action]) = textsOf id actions ++ action.textsOf id := by
  rw [textsOf, List.flatMap_append, List.flatMap_singleton, textsOf]

/-- The clients are sent their streams, and one that has not connected has sent nothing. -/
structure Streaming (codec : Codec) (actions : List Action) (state : WebSocketService) : Prop where
  streams : ∀ id connection, state.connections[id]? = some connection →
    ∃ receipts, Streams codec state.events (textsOf id actions) connection receipts
  silent : ∀ id, state.connections.length ≤ id → textsOf id actions = []

theorem streaming_new : Streaming codec [] new := by
  refine ⟨fun id connection present => ?_, fun _ _ => rfl⟩
  rw [new, List.getElem?_nil] at present
  cases present

theorem Streaming.step (streaming : Streaming codec actions state)
    (taken : WebSocketService.step codec capacity state action = some next) : Streaming codec (actions ++ [action]) next := by
  cases action with
  | broadcast event =>
    obtain rfl := Option.some.inj taken
    refine ⟨fun id connection present => ?_, fun id beyond => ?_⟩
    · obtain ⟨receipts, streams⟩ := streaming.streams id connection present
      rw [textsOf_snoc, Action.textsOf, List.append_nil]
      exact ⟨receipts, streams.broadcast event⟩
    · rw [textsOf_snoc, Action.textsOf, List.append_nil]
      exact streaming.silent id beyond
  | connect =>
    obtain rfl := Option.some.inj taken
    refine ⟨fun id connection present => ?_, fun id beyond => ?_⟩
    · rw [textsOf_snoc, Action.textsOf, List.append_nil]
      rcases Nat.lt_or_ge id state.connections.length with before | beyond
      · rw [List.getElem?_append_left before] at present
        exact streaming.streams id connection present
      · rw [List.getElem?_append_right beyond, List.getElem?_singleton] at present
        split at present
        · obtain rfl := Option.some.inj present
          rw [streaming.silent id beyond]
          exact ⟨[], streams_opened⟩
        · cases present
    · rw [textsOf_snoc, Action.textsOf, List.append_nil]
      rw [List.length_append] at beyond
      exact streaming.silent id (Nat.le_of_add_right_le beyond)
  | client client action =>
    obtain ⟨before, found, taken⟩ := Option.bind_eq_some_iff.mp taken
    obtain ⟨after, handled, rfl⟩ := Option.map_eq_some_iff.mp taken
    refine ⟨fun id connection present => ?_, fun id beyond => ?_⟩
    · rw [textsOf_snoc, Action.textsOf]
      by_cases same : client = id
      · subst same
        obtain ⟨receipts, streams⟩ := streaming.streams client before found
        rw [List.getElem?_set_self (List.getElem?_eq_some_iff.mp found).1] at present
        obtain rfl := Option.some.inj present
        rw [if_pos rfl]
        exact streams.handle handled
      · rw [List.getElem?_set_ne same] at present
        rw [if_neg same, List.append_nil]
        exact streaming.streams id connection present
    · rw [List.length_set] at beyond
      have other : client ≠ id := Nat.ne_of_lt (lt_of_lt_of_le (List.getElem?_eq_some_iff.mp found).1 beyond)
      rw [textsOf_snoc, Action.textsOf, if_neg other, List.append_nil]
      exact streaming.silent id beyond

theorem streaming_of_run {good : WebSocketService → Action → Prop}
    (run : Run (WebSocketService.step codec capacity) good new actions final) :
    Streaming codec actions final := by
  induction run with
  | start => exact streaming_new
  | snoc _ _ taken before => exact before.step taken

/-- No connection is more than the buffer behind. -/
def KeepsUp (state : WebSocketService) : Prop :=
  ∀ connection ∈ state.connections, connection.closed = false → state.events.length ≤ connection.next + bufferSize

instance (state : WebSocketService) : Decidable state.KeepsUp :=
  inferInstanceAs (Decidable (∀ _ ∈ _, _))

theorem missed_handle {connection after : Connection} {events : List ServerEvent} {action : ClientAction}
    (held : bufferSize ≤ capacity) (near : connection.closed = false → events.length ≤ connection.next + bufferSize)
    (taken : connection.handle codec capacity events action = some after) : after.missed = connection.missed := by
  unfold Connection.handle at taken
  split at taken
  · cases taken
  · rename_i notClosed
    have near := near (Bool.not_eq_true _ ▸ notClosed)
    cases action with
    | text text =>
      simp only at taken
      split at taken <;> exact Option.some.inj taken ▸ rfl
    | other | close => exact Option.some.inj taken ▸ rfl
    | receive through =>
      simp only at taken
      unfold Connection.receive at taken
      rw [if_neg (by omega)] at taken
      obtain ⟨event, found, rfl⟩ := Option.map_eq_some_iff.mp taken
      split
      · rfl
      · split <;> rfl

theorem missed_of_run (held : bufferSize ≤ capacity)
    (run : Run (WebSocketService.step codec capacity) (fun state _ => state.KeepsUp) new actions final) :
    ∀ connection ∈ final.connections, connection.missed = 0 := by
  apply run.invariant
  · intro connection member
    exact absurd member List.not_mem_nil
  · intro state action next before keeps taken connection member
    cases action with
    | broadcast event =>
      obtain rfl := Option.some.inj taken
      exact before connection member
    | connect =>
      obtain rfl := Option.some.inj taken
      rcases mem_snoc.mp member with earlier | rfl
      · exact before connection earlier
      · rfl
    | client client action =>
      obtain ⟨old, found, taken⟩ := Option.bind_eq_some_iff.mp taken
      obtain ⟨after, handled, rfl⟩ := Option.map_eq_some_iff.mp taken
      have there := List.mem_of_getElem? found
      rcases List.mem_or_eq_of_mem_set member with earlier | rfl
      · exact before connection earlier
      · exact (missed_handle held (keeps old there) handled).trans (before old there)

/-- Without a miss, the receipts are all there is between where the connection came in and where it is. -/
theorem Streams.positions {events : List ServerEvent} {texts : List String} {connection : Connection} {receipts : List Receipt}
    (streams : Streams codec events texts connection receipts) (live : connection.closed = false)
    (none : connection.missed = 0) :
    receipts.map Receipt.position = List.range' connection.joined (connection.next - connection.joined) := by
  have ordered : (receipts.map Receipt.position).Pairwise (· < ·) :=
    List.pairwise_map.mpr (streams.ordered.imp And.left)
  have among : receipts.map Receipt.position ⊆ List.range' connection.joined (connection.next - connection.joined) := by
    intro position member
    obtain ⟨receipt, received, rfl⟩ := List.mem_map.mp member
    obtain ⟨joined, before, -⟩ := streams.within receipt received
    exact List.mem_range'_1.mpr ⟨joined, by omega⟩
  have counted := streams.counted live
  have perm := (List.subperm_of_subset (ordered.imp Nat.ne_of_lt) among).perm_of_length_le (by simp; omega)
  apply perm.eq_of_pairwise _ ordered List.pairwise_lt_range'
  intro a b _ _ below above
  exact absurd below (Nat.lt_asymm above)

end Runs

variable {codec : Codec} {capacity : Nat} {actions : List Action} {final : WebSocketService}

/-- Whatever the clients do and however they fall behind, each is sent what it is
subscribed to, in the order of the broadcasts and nothing twice, and what it is not
sent is accounted for. -/
theorem run_streams (run : AnyRun (step codec capacity) new actions final) {id : Nat} {connection : Connection}
    (present : final.connections[id]? = some connection) :
    ∃ receipts, Streams codec final.events (textsOf id actions) connection receipts :=
  (streaming_of_run run).streams id connection present

/-- The messages and events of the runs below as the library reads and writes them. -/
def plainCodec : Codec where
  fromStr text :=
    if text = "\x7b\"type\":\"subscribe\",\"resource\":\"drv\",\"id\":\"/nix/store/a.drv\"\x7d" then
      some (.subscribe ⟨.drv, "/nix/store/a.drv"⟩)
    else none
  toText
    | .logLine ⟨"/nix/store/a.drv", "hello", 0⟩ =>
      some
        "\x7b\"type\":\"log_line\",\"drv_path\":\"/nix/store/a.drv\",\"line\":\"hello\",\"timestamp\":\"1970-01-01T00:00:00Z\"\x7d"
    | _ => none

/-- A client subscribes to a drv between two of its lines, and then another one comes in. -/
def subscribing : List Action :=
  [.connect, .broadcast (.logLine ⟨"/nix/store/a.drv", "hello", 0⟩), .client 0 (.receive true),
    .client 0 (.text "\x7b\"type\":\"subscribe\",\"resource\":\"drv\",\"id\":\"/nix/store/a.drv\"\x7d"),
    .broadcast (.logLine ⟨"/nix/store/a.drv", "hello", 0⟩), .connect, .client 0 (.receive true)]

theorem subscribing_streams : ∃ (final : WebSocketService) (connection : Connection),
    final.connections[0]? = some connection ∧ connection.sent.length = 1 ∧ ∃ receipts,
      Streams plainCodec final.events (textsOf 0 subscribing) connection receipts := by
  have ends : ((exec (step plainCodec 128) new subscribing).bind (·.connections[0]?)).map (·.sent.length) = some 1 := by
    decide +kernel
  obtain ⟨connection, found, sent⟩ := Option.map_eq_some_iff.mp ends
  obtain ⟨final, performed, present⟩ := Option.bind_eq_some_iff.mp found
  exact ⟨final, connection, present, sent, run_streams (run_of_exec performed) present⟩

/-- Where no connection is ever more than the buffer behind, an open one has received
every event since it came in. -/
theorem run_complete (held : bufferSize ≤ capacity)
    (run : Run (step codec capacity) (fun state _ => state.KeepsUp) new actions final) {id : Nat} {connection : Connection}
    (present : final.connections[id]? = some connection) (live : connection.closed = false) :
    ∃ receipts, Streams codec final.events (textsOf id actions) connection receipts ∧
      receipts.map Receipt.position = List.range' connection.joined (connection.next - connection.joined) := by
  obtain ⟨receipts, streams⟩ := (streaming_of_run run).streams id connection present
  exact ⟨receipts, streams, streams.positions live (missed_of_run held run connection (List.mem_of_getElem? present))⟩

theorem subscribing_complete : ∃ (final : WebSocketService) (connection : Connection),
    final.connections[0]? = some connection ∧ ∃ receipts,
      Streams plainCodec final.events (textsOf 0 subscribing) connection receipts ∧
        receipts.map Receipt.position = [0, 1] := by
  have ends : ((checkRun (step plainCodec 128) (fun state _ => state.KeepsUp) new subscribing).bind
      (·.connections[0]?)).map (fun connection => (connection.closed, connection.joined, connection.next)) =
        some (false, 0, 2) := by
    decide +kernel
  obtain ⟨connection, found, shape⟩ := Option.map_eq_some_iff.mp ends
  obtain ⟨final, checked, present⟩ := Option.bind_eq_some_iff.mp found
  simp only [Prod.mk.injEq] at shape
  obtain ⟨live, joined, next⟩ := shape
  obtain ⟨receipts, streams, positions⟩ := run_complete (by decide) (run_of_checkRun checked) present live
  rw [joined, next] at positions
  exact ⟨final, connection, present, receipts, streams, positions⟩

end WebSocketService

end EkaCI
