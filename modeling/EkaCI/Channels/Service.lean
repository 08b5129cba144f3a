import EkaCI.Channels.Promotions
import EkaCI.Channels.Snapshot
import EkaCI.Lib.Run

/-! The service that promotes release channels. It handles one task after the other,
each with a journal entry around it; between two accesses to the database anything
else may happen, and the process may end. -/

namespace EkaCI

open Lib

variable {DrvId : Type}

structure JobsetNotice where
  forge : ChannelForge
  owner : String
  repo : String
  sha : String
  deriving DecidableEq

inductive ChannelTask where
  | evaluatePush (channel : ChannelConfig) (sha : String)
  | jobsetComplete (notice : JobsetNotice)

/-- The owner is compared without regard to case. -/
def ChannelConfig.watches (channel : ChannelConfig) (notice : JobsetNotice) : Bool :=
  channel.forge = notice.forge ∧ channel.owner.toLower = notice.owner.toLower ∧ channel.repo = notice.repo

/-- Where the handling of a task is. The list of channels is what the loop over the
channels of a jobset has still to visit. -/
inductive HandlerPoint where
  | lookup (channel : ChannelConfig) (sha : String)
  | coalesce (channel : ChannelConfig) (sha : String)
  | skip (channel : ChannelConfig) (sha previous : String)
  | start (channel : ChannelConfig) (sha : String)
  | decide (channel : ChannelConfig) (sha : String) (rest : List ChannelConfig)
  | push (channel : ChannelConfig) (sha : String) (jobStates : JobStates) (results : RequiredResults)
      (rest : List ChannelConfig)
  | finalise (channel : ChannelConfig) (sha : String) (verdict : Verdict) (rest : List ChannelConfig)
  /-- The queue is full, and the drained commit cannot be sent. -/
  | resend (channel : ChannelConfig) (drained sha : String) (rest : List ChannelConfig)
  | visit (sha : String) (rest : List ChannelConfig)
  | failed

inductive TaskOrigin where
  | replay (id : Nat) (rest : List (Nat × ChannelTask))
  /-- Without an id if the task could not be written to the journal. -/
  | dispatch (id : Option Nat)

inductive ChannelHandler where
  | down
  | replaying (rest : List (Nat × ChannelTask))
  | idle
  | running (origin : TaskOrigin) (task : ChannelTask) (point : HandlerPoint)

inductive PushOutcome where
  | dryRun
  | accepted
  /-- Answered with an error status, which the client does not look at. -/
  | refused
  | failed
  deriving DecidableEq

/-- An attempt to move the target branch, with what was known at the time. -/
structure PushAttempt where
  channel : ChannelConfig
  sha : String
  outcome : PushOutcome
  jobStates : JobStates
  inFlight : Option String
  wasBlocked : Bool

structure ChannelService (DrvId : Type) where
  promotions : Promotions
  jobs : JobDatabase DrvId
  journal : List (Nat × ChannelTask)
  nextId : Nat
  queue : List ChannelTask
  pending : String → Option String
  handler : ChannelHandler
  /-- The pushes that entered the queue, those that were journaled, and the attempts. -/
  pushed : List (String × String)
  journaled : List (String × String)
  attempts : List PushAttempt

/-- How a call of the handler ends. -/
inductive CallAnswer where
  | succeeds
  /-- An error status of the forge. -/
  | refused
  | fails
  deriving DecidableEq

inductive ChannelAction (DrvId : Type) where
  | enqueue (task : ChannelTask)
  /-- Builds and evaluations go on, and the recorder announces concluded jobsets. -/
  | conclude (jobs : JobDatabase DrvId) (notices : List JobsetNotice)
  | crash
  | start (recovered : Bool)
  | next
  | receive (persisted : Bool)
  | advance (answer : CallAnswer)

def channelTaskBuffer : Nat := 1000

def ChannelTask.key? : ChannelTask → Option (String × String)
  | .evaluatePush channel sha => some (channel.channelId, sha)
  | .jobsetComplete _ => none

def PushOutcome.isOk : PushOutcome → Bool
  | .failed => false
  | _ => true

/-- The response to the call is an error for the client if there was none. -/
def performPromotion (hasOctocrab : Bool) (channel : ChannelConfig) (answer : CallAnswer) : PushOutcome :=
  if channel.dryRun then .dryRun
  else
    match channel.forge with
    | .gitHub =>
      if hasOctocrab then
        match answer with
        | .succeeds => .accepted
        | .refused => .refused
        | .fails => .failed
      else .failed
    | .gitLab _ | .gitea _ => .failed

namespace HandlerPoint

def callsDatabase : HandlerPoint → Bool
  | .push _ _ _ _ _ | .resend _ _ _ _ | .visit _ [] | .failed => false
  | _ => true

def isCompleted : HandlerPoint → Bool
  | .visit _ [] => true
  | _ => false

def isOver : HandlerPoint → Bool
  | .visit _ [] | .failed => true
  | _ => false

end HandlerPoint

namespace TaskOrigin

/-- The entry that is acknowledged: a replayed one in any case. -/
def ackId (completed : Bool) : TaskOrigin → Option Nat
  | .replay id _ => some id
  | .dispatch id => if completed then id else none

def after : TaskOrigin → ChannelHandler
  | .replay _ rest => .replaying rest
  | .dispatch _ => .idle

end TaskOrigin

namespace ChannelService

def start (jobs : JobDatabase DrvId) : ChannelService DrvId where
  promotions := .empty
  jobs := jobs
  journal := []
  nextId := 0
  queue := []
  pending := fun _ => none
  handler := .down
  pushed := []
  journaled := []
  attempts := []

def isUp (service : ChannelService DrvId) : Bool :=
  match service.handler with
  | .down => false
  | _ => true

def inFlightSha (service : ChannelService DrvId) (channel : ChannelConfig) : Option String :=
  (service.promotions.getInFlight channel.channelId).map ChannelPromotionRow.trackingSha

def setPending (service : ChannelService DrvId) (channel : ChannelConfig) (sha : Option String) : String → Option String :=
  Function.update service.pending channel.channelId sha

variable (hasOctocrab : Bool) (channels : List ChannelConfig)

/-- The first point of a task. -/
def enter : ChannelTask → HandlerPoint
  | .evaluatePush channel sha => .lookup channel sha
  | .jobsetComplete notice => .visit notice.sha (channels.filter fun channel => channel.watches notice)

def attempt (service : ChannelService DrvId) (channel : ChannelConfig) (sha : String) (jobStates : JobStates)
    (outcome : PushOutcome) : ChannelService DrvId :=
  { service with
    attempts := service.attempts ++
      [⟨channel, sha, outcome, jobStates, service.inFlightSha channel, service.promotions.rows.any fun row =>
        row.isFor channel.channelId sha ∧ row.status = .blocked⟩] }

/-- A commit that is neither in flight nor pending starts, or waits in the place of
the one that has waited so far. -/
def coalesced (service : ChannelService DrvId) (channel : ChannelConfig) (sha : String) :
    ChannelService DrvId × HandlerPoint :=
  match coalesce (service.inFlightSha channel) (service.pending channel.channelId) sha with
  | .alreadyInFlight => (service, .visit sha [])
  | .deferAsPending none => ({ service with pending := service.setPending channel (some sha) }, .visit sha [])
  | .deferAsPending (some previous) => (service, .skip channel sha previous)
  | .startFresh => (service, .start channel sha)

/-- The row is moved to its terminal status, and the pending commit is sent to the
service's own queue. -/
def conclude (service : ChannelService DrvId) (channel : ChannelConfig) (sha : String) (verdict : Verdict)
    (rest : List ChannelConfig) : ChannelService DrvId × HandlerPoint :=
  let concluded :=
    { service with
      promotions := service.promotions.finaliseEvaluation channel.channelId sha verdict
      pending := service.setPending channel none }
  match service.pending channel.channelId with
  | none => (concluded, .visit sha rest)
  | some drained =>
    if service.queue.length < channelTaskBuffer then
      ({ concluded with queue := service.queue ++ [.evaluatePush channel drained] }, .visit sha rest)
    else (concluded, .resend channel drained sha rest)

/-- The handler proceeds after a call that succeeded. -/
def proceed (service : ChannelService DrvId) : HandlerPoint → Option (ChannelService DrvId × HandlerPoint)
  | .lookup channel sha =>
    some (service,
      if service.promotions.alreadyDecided channel.channelId sha then .visit sha [] else .coalesce channel sha)
  | .coalesce channel sha =>
    some (service.coalesced channel sha)
  | .skip channel sha previous =>
    some
      ({ service with
        promotions := service.promotions.insertSkipped channel.channelId previous channel.targetBranch
        pending := service.setPending channel (some sha) }, .visit sha [])
  | .start channel sha =>
    some
      (match service.promotions.insertEvaluating channel.channelId sha channel.targetBranch with
      | some promotions => ({ service with promotions := promotions }, .decide channel sha [])
      | none => (service, .failed))
  | .decide channel sha rest =>
    let jobStates := service.jobs.snapshotJobStates channel sha
    some (service,
      match evaluatePromotion channel jobStates with
      | .ready results => .push channel sha jobStates results rest
      | .blocked failed results => .finalise channel sha (.blocked failed results) rest
      | .waiting _ _ => .visit sha rest)
  | .finalise channel sha verdict rest => some (service.conclude channel sha verdict rest)
  | .resend channel drained sha rest =>
    if service.queue.length < channelTaskBuffer then
      some ({ service with queue := service.queue ++ [.evaluatePush channel drained] }, .visit sha rest)
    else none
  | .visit sha (channel :: rest) =>
    some (service, if service.inFlightSha channel = some sha then .decide channel sha rest else .visit sha rest)
  | .push _ _ _ _ _ | .visit _ [] | .failed => none

def advance (service : ChannelService DrvId) (point : HandlerPoint) (answer : CallAnswer) :
    Option (ChannelService DrvId × HandlerPoint) :=
  match point with
  | .push channel sha jobStates results rest =>
    let outcome := performPromotion hasOctocrab channel answer
    some (service.attempt channel sha jobStates outcome,
      if outcome.isOk then .finalise channel sha (.promoted results) rest else .failed)
  | point =>
    match answer with
    | .succeeds => service.proceed point
    | .fails => if point.callsDatabase then some (service, .failed) else none
    | .refused => none

/-- A task that is over is acknowledged, if the call succeeds. -/
def finish (service : ChannelService DrvId) (origin : TaskOrigin) (completed : Bool) (answer : CallAnswer) :
    ChannelService DrvId :=
  { service with
    journal :=
      match origin.ackId completed with
      | some id => if answer = .succeeds then service.journal.filter fun entry => entry.1 ≠ id else service.journal
      | none => service.journal
    handler := origin.after }

/-- A task is taken from the queue, and into the journal if this succeeds. -/
def take (service : ChannelService DrvId) (task : ChannelTask) (rest : List ChannelTask) (persisted : Bool) :
    ChannelService DrvId :=
  if persisted then
    { service with
      queue := rest
      journal := service.journal ++ [(service.nextId, task)]
      nextId := service.nextId + 1
      journaled := service.journaled ++ task.key?.toList
      handler := .running (.dispatch (some service.nextId)) task (enter channels task) }
  else { service with queue := rest, handler := .running (.dispatch none) task (enter channels task) }

/-- One step of the service or of its surroundings. -/
def step (service : ChannelService DrvId) : ChannelAction DrvId → Option (ChannelService DrvId)
  | .enqueue task =>
    if service.isUp ∧ service.queue.length < channelTaskBuffer then
      some { service with queue := service.queue ++ [task], pushed := service.pushed ++ task.key?.toList }
    else none
  | .conclude jobs notices =>
    if (notices = [] ∨ service.isUp) ∧ service.queue.length + notices.length ≤ channelTaskBuffer then
      some { service with jobs := jobs, queue := service.queue ++ notices.map .jobsetComplete }
    else none
  | .crash =>
    if service.isUp then some { service with queue := [], pending := fun _ => none, handler := .down } else none
  | .start recovered =>
    match service.handler with
    | .down => some { service with handler := if recovered then .replaying service.journal else .idle }
    | _ => none
  | .next =>
    match service.handler with
    | .replaying [] => some { service with handler := .idle }
    | .replaying ((id, task) :: rest) =>
      some { service with handler := .running (.replay id rest) task (enter channels task) }
    | _ => none
  | .receive persisted =>
    match service.handler, service.queue with
    | .idle, task :: rest => some (service.take channels task rest persisted)
    | _, _ => none
  | .advance answer =>
    match service.handler with
    | .running origin task point =>
      if point.isOver then some (service.finish origin point.isCompleted answer)
      else
        (service.advance hasOctocrab point answer).map fun next =>
          { next.1 with handler := .running origin task next.2 }
    | _ => none

/-- The commit that is drained when the handler finalises. -/
def draining? (service : ChannelService DrvId) : Option (String × String) :=
  match service.handler with
  | .running _ _ (.finalise channel _ _ _) => (service.pending channel.channelId).map fun sha => (channel.channelId, sha)
  | _ => none

/-- What a call that succeeded leads to. -/
inductive Proceeds (service : ChannelService DrvId) : HandlerPoint → ChannelService DrvId → HandlerPoint → Prop where
  | decided {channel : ChannelConfig} {sha : String}
      (known : service.promotions.alreadyDecided channel.channelId sha = true) :
      Proceeds service (.lookup channel sha) service (.visit sha [])
  | undecided {channel : ChannelConfig} {sha : String}
      (unknown : service.promotions.alreadyDecided channel.channelId sha = false) :
      Proceeds service (.lookup channel sha) service (.coalesce channel sha)
  | duplicate {channel : ChannelConfig} {sha flying : String} (inFlight : service.inFlightSha channel = some flying)
      (same : flying = sha ∨ service.pending channel.channelId = some sha) :
      Proceeds service (.coalesce channel sha) service (.visit sha [])
  | deferred {channel : ChannelConfig} {sha flying : String} (inFlight : service.inFlightSha channel = some flying)
      (other : flying ≠ sha) (free : service.pending channel.channelId = none) :
      Proceeds service (.coalesce channel sha) { service with pending := service.setPending channel (some sha) }
        (.visit sha [])
  | superseding {channel : ChannelConfig} {sha flying previous : String}
      (inFlight : service.inFlightSha channel = some flying) (other : flying ≠ sha)
      (waits : service.pending channel.channelId = some previous) (unlike : previous ≠ sha) :
      Proceeds service (.coalesce channel sha) service (.skip channel sha previous)
  | fresh {channel : ChannelConfig} {sha : String} (none : service.inFlightSha channel = none) :
      Proceeds service (.coalesce channel sha) service (.start channel sha)
  | skipped {channel : ChannelConfig} {sha previous : String} :
      Proceeds service (.skip channel sha previous)
        { service with
          promotions := service.promotions.insertSkipped channel.channelId previous channel.targetBranch
          pending := service.setPending channel (some sha) } (.visit sha [])
  | opened {channel : ChannelConfig} {sha : String} {promotions : Promotions}
      (inserted : service.promotions.insertEvaluating channel.channelId sha channel.targetBranch = some promotions) :
      Proceeds service (.start channel sha) { service with promotions := promotions } (.decide channel sha [])
  | occupied {channel : ChannelConfig} {sha : String}
      (refused : service.promotions.insertEvaluating channel.channelId sha channel.targetBranch = none) :
      Proceeds service (.start channel sha) service .failed
  | ready {channel : ChannelConfig} {sha : String} {rest : List ChannelConfig} {results : RequiredResults}
      (decision : evaluatePromotion channel (service.jobs.snapshotJobStates channel sha) = .ready results) :
      Proceeds service (.decide channel sha rest) service
        (.push channel sha (service.jobs.snapshotJobStates channel sha) results rest)
  | blocked {channel : ChannelConfig} {sha : String} {rest : List ChannelConfig} {failed : List String}
      {results : RequiredResults}
      (decision : evaluatePromotion channel (service.jobs.snapshotJobStates channel sha) = .blocked failed results) :
      Proceeds service (.decide channel sha rest) service (.finalise channel sha (.blocked failed results) rest)
  | waiting {channel : ChannelConfig} {sha : String} {rest : List ChannelConfig} {required packages : List String}
      (decision : evaluatePromotion channel (service.jobs.snapshotJobStates channel sha) = .waiting required packages) :
      Proceeds service (.decide channel sha rest) service (.visit sha rest)
  | concluded {channel : ChannelConfig} {sha : String} {verdict : Verdict} {rest : List ChannelConfig}
      (none : service.pending channel.channelId = none) :
      Proceeds service (.finalise channel sha verdict rest)
        { service with
          promotions := service.promotions.finaliseEvaluation channel.channelId sha verdict
          pending := service.setPending channel Option.none } (.visit sha rest)
  | drained {channel : ChannelConfig} {sha drained : String} {verdict : Verdict} {rest : List ChannelConfig}
      (waits : service.pending channel.channelId = some drained) (room : service.queue.length < channelTaskBuffer) :
      Proceeds service (.finalise channel sha verdict rest)
        { service with
          promotions := service.promotions.finaliseEvaluation channel.channelId sha verdict
          pending := service.setPending channel none
          queue := service.queue ++ [.evaluatePush channel drained] } (.visit sha rest)
  | stuck {channel : ChannelConfig} {sha drained : String} {verdict : Verdict} {rest : List ChannelConfig}
      (waits : service.pending channel.channelId = some drained) (full : channelTaskBuffer ≤ service.queue.length) :
      Proceeds service (.finalise channel sha verdict rest)
        { service with
          promotions := service.promotions.finaliseEvaluation channel.channelId sha verdict
          pending := service.setPending channel none } (.resend channel drained sha rest)
  | resent {channel : ChannelConfig} {drained sha : String} {rest : List ChannelConfig}
      (room : service.queue.length < channelTaskBuffer) :
      Proceeds service (.resend channel drained sha rest)
        { service with queue := service.queue ++ [.evaluatePush channel drained] } (.visit sha rest)
  | revisited {channel : ChannelConfig} {sha : String} {rest : List ChannelConfig}
      (inFlight : service.inFlightSha channel = some sha) :
      Proceeds service (.visit sha (channel :: rest)) service (.decide channel sha rest)
  | passed {channel : ChannelConfig} {sha : String} {rest : List ChannelConfig}
      (other : service.inFlightSha channel ≠ some sha) :
      Proceeds service (.visit sha (channel :: rest)) service (.visit sha rest)

/-- What a call leads to. -/
inductive Advances (service : ChannelService DrvId) : HandlerPoint → CallAnswer → ChannelService DrvId → HandlerPoint → Prop where
  | proceeds {point point' : HandlerPoint} {next : ChannelService DrvId} (proceeds : Proceeds service point next point') :
      Advances service point .succeeds next point'
  | failed {point : HandlerPoint} (calls : point.callsDatabase = true) : Advances service point .fails service .failed
  | pushed {channel : ChannelConfig} {sha : String} {jobStates : JobStates} {results : RequiredResults}
      {rest : List ChannelConfig} {answer : CallAnswer} (ok : (performPromotion hasOctocrab channel answer).isOk = true) :
      Advances service (.push channel sha jobStates results rest) answer
        (service.attempt channel sha jobStates (performPromotion hasOctocrab channel answer))
        (.finalise channel sha (.promoted results) rest)
  | unpushed {channel : ChannelConfig} {sha : String} {jobStates : JobStates} {results : RequiredResults}
      {rest : List ChannelConfig} {answer : CallAnswer} (failed : performPromotion hasOctocrab channel answer = .failed) :
      Advances service (.push channel sha jobStates results rest) answer
        (service.attempt channel sha jobStates .failed) .failed

inductive Steps (service : ChannelService DrvId) : ChannelAction DrvId → ChannelService DrvId → Prop where
  | enqueued {task : ChannelTask} (up : service.isUp = true) (room : service.queue.length < channelTaskBuffer) :
      Steps service (.enqueue task)
        { service with queue := service.queue ++ [task], pushed := service.pushed ++ task.key?.toList }
  | concluded {jobs : JobDatabase DrvId} {notices : List JobsetNotice} (up : notices = [] ∨ service.isUp = true) :
      Steps service (.conclude jobs notices)
        { service with jobs := jobs, queue := service.queue ++ notices.map .jobsetComplete }
  | crashed (up : service.isUp = true) :
      Steps service .crash { service with queue := [], pending := fun _ => none, handler := .down }
  | started (down : service.handler = .down) :
      Steps service (.start true) { service with handler := .replaying service.journal }
  | unrecovered (down : service.handler = .down) : Steps service (.start false) { service with handler := .idle }
  | replayed (done : service.handler = .replaying []) : Steps service .next { service with handler := .idle }
  | replays {id : Nat} {task : ChannelTask} {rest : List (Nat × ChannelTask)}
      (head : service.handler = .replaying ((id, task) :: rest)) :
      Steps service .next { service with handler := .running (.replay id rest) task (enter channels task) }
  | received {task : ChannelTask} {rest : List ChannelTask} {persisted : Bool} (idle : service.handler = .idle)
      (head : service.queue = task :: rest) :
      Steps service (.receive persisted) (service.take channels task rest persisted)
  | finished {origin : TaskOrigin} {task : ChannelTask} {point : HandlerPoint} {answer : CallAnswer}
      (running : service.handler = .running origin task point) (ended : point.isOver = true) :
      Steps service (.advance answer) (service.finish origin point.isCompleted answer)
  | advanced {origin : TaskOrigin} {task : ChannelTask} {point point' : HandlerPoint} {answer : CallAnswer}
      {next : ChannelService DrvId} (running : service.handler = .running origin task point)
      (advances : Advances hasOctocrab service point answer next point') :
      Steps service (.advance answer) { next with handler := .running origin task point' }

variable {hasOctocrab channels} {service next : ChannelService DrvId}

theorem proceeds_coalesced {channel : ChannelConfig} {sha : String} :
    Proceeds service (.coalesce channel sha) (service.coalesced channel sha).1 (service.coalesced channel sha).2 := by
  unfold coalesced coalesce
  cases inFlight : service.inFlightSha channel with
  | none => exact .fresh inFlight
  | some flying =>
    dsimp only
    by_cases same : flying = sha
    · rw [if_pos same]
      exact .duplicate inFlight (.inl same)
    · rw [if_neg same]
      by_cases waits : service.pending channel.channelId = some sha
      · rw [if_pos waits]
        exact .duplicate inFlight (.inr waits)
      · rw [if_neg waits]
        cases pending : service.pending channel.channelId with
        | none => exact .deferred inFlight same pending
        | some previous =>
          refine .superseding inFlight same pending fun equal => waits ?_
          rw [pending, equal]

variable {point point' : HandlerPoint}

theorem proceeds_of (taken : service.proceed point = some (next, point')) : Proceeds service point next point' := by
  cases point with
  | lookup channel sha =>
    rw [proceed] at taken
    cases Option.some.inj taken
    split
    · rename_i known
      exact .decided known
    · rename_i unknown
      exact .undecided (Bool.not_eq_true _ |>.mp unknown)
  | coalesce channel sha =>
    have proceeds := @proceeds_coalesced _ service channel sha
    rw [Option.some.inj taken] at proceeds
    exact proceeds
  | skip channel sha previous =>
    cases Option.some.inj taken
    exact .skipped
  | start channel sha =>
    rw [proceed] at taken
    have same := Option.some.inj taken
    split at same
    · rename_i inserted
      cases same
      exact .opened inserted
    · rename_i refused
      cases same
      exact .occupied refused
  | decide channel sha rest =>
    rw [proceed] at taken
    cases Option.some.inj taken
    split
    · rename_i decision
      exact .ready decision
    · rename_i decision
      exact .blocked decision
    · rename_i decision
      exact .waiting decision
  | push channel sha jobStates results rest => cases taken
  | finalise channel sha verdict rest =>
    have same := Option.some.inj taken
    dsimp only [conclude] at same
    split at same
    · rename_i none
      cases same
      exact .concluded none
    · rename_i drained waits
      split at same
      · rename_i room
        cases same
        exact .drained waits room
      · rename_i full
        cases same
        exact .stuck waits (Nat.not_lt.mp full)
  | resend channel drained sha rest =>
    rw [proceed] at taken
    split at taken
    · rename_i room
      cases Option.some.inj taken
      exact .resent room
    · cases taken
  | visit sha rest =>
    cases rest with
    | nil => cases taken
    | cons channel rest =>
      rw [proceed] at taken
      cases Option.some.inj taken
      split
      · rename_i inFlight
        exact .revisited inFlight
      · rename_i other
        exact .passed other
  | failed => cases taken

/-- What the calls of the database do not touch. -/
structure Framed (service next : ChannelService DrvId) : Prop where
  jobs : next.jobs = service.jobs
  journal : next.journal = service.journal
  nextId : next.nextId = service.nextId
  pushed : next.pushed = service.pushed
  journaled : next.journaled = service.journaled
  attempts : next.attempts = service.attempts

theorem Proceeds.framed (proceeds : Proceeds service point next point') : Framed service next := by
  cases proceeds <;> exact ⟨rfl, rfl, rfl, rfl, rfl, rfl⟩

theorem Proceeds.queue_subset (proceeds : Proceeds service point next point') {task : ChannelTask}
    (member : task ∈ service.queue) : task ∈ next.queue := by
  cases proceeds with
  | drained waits room => exact List.mem_append_left _ member
  | resent room => exact List.mem_append_left _ member
  | _ => exact member

theorem eq_failed_of_not_isOk {outcome : PushOutcome} (bad : ¬ outcome.isOk = true) : outcome = .failed := by
  cases outcome with
  | failed => rfl
  | _ => exact absurd rfl bad

theorem advances_of {answer : CallAnswer} (taken : service.advance hasOctocrab point answer = some (next, point')) :
    Advances hasOctocrab service point answer next point' := by
  unfold advance at taken
  split at taken
  · cases Option.some.inj taken
    split
    · rename_i ok
      exact .pushed ok
    · rename_i bad
      have failed := eq_failed_of_not_isOk bad
      rw [failed]
      exact .unpushed failed
  · split at taken
    · exact .proceeds (proceeds_of taken)
    · split at taken
      · rename_i calls
        cases Option.some.inj taken
        exact .failed calls
      · cases taken
    · cases taken

theorem steps_of {action : ChannelAction DrvId} (taken : service.step hasOctocrab channels action = some next) :
    Steps hasOctocrab channels service action next := by
  cases action with
  | enqueue task =>
    rw [step, Option.ite_none_right_eq_some] at taken
    obtain ⟨⟨up, room⟩, ⟨⟩⟩ := taken
    exact .enqueued up room
  | conclude jobs notices =>
    rw [step, Option.ite_none_right_eq_some] at taken
    obtain ⟨⟨up, _⟩, ⟨⟩⟩ := taken
    exact .concluded up
  | crash =>
    rw [step, Option.ite_none_right_eq_some] at taken
    obtain ⟨up, ⟨⟩⟩ := taken
    exact .crashed up
  | start recovered =>
    rw [step] at taken
    split at taken
    · rename_i down
      cases Option.some.inj taken
      cases recovered with
      | true => exact .started down
      | false => exact .unrecovered down
    · cases taken
  | next =>
    rw [step] at taken
    split at taken
    · rename_i done
      cases Option.some.inj taken
      exact .replayed done
    · rename_i head
      cases Option.some.inj taken
      exact .replays head
    · cases taken
  | receive persisted =>
    rw [step] at taken
    split at taken
    · rename_i idle head
      cases Option.some.inj taken
      exact .received idle head
    · cases taken
  | advance answer =>
    rw [step] at taken
    split at taken
    · rename_i running
      split at taken
      · rename_i ended
        cases Option.some.inj taken
        exact .finished running ended
      · obtain ⟨⟨next, point'⟩, advanced, rfl⟩ := Option.map_eq_some_iff.mp taken
        exact .advanced running (advances_of advanced)
    · cases taken

end ChannelService

end EkaCI
