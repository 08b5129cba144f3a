import EkaCI.Channels.FailedPush
import EkaCI.Channels.Registry

/-! A concluded jobset, for all channels of its repository in one go. The channels are
handled one after the other, and an error leaves the loop with the channels that follow
undecided. -/

namespace EkaCI

variable {DrvId : Type}

/-- Which calls fail while a channel is handled, and how the forge answers. -/
structure ChannelFaults where
  getInFlight : Bool
  snapshot : Bool
  push : CallAnswer
  finalise : Bool

inductive LoopEnd where
  | finished
  | failed
  /-- The queue is full, and only the service itself would take something from it. -/
  | waiting
  deriving DecidableEq

/-- The channels of a registry, in the order in which they happen to be iterated. -/
structure ChannelOrder where
  channels : List ChannelConfig
  distinct : (channels.map ChannelConfig.channelId).Nodup

theorem nodup_of_validateChannels {first second : List (String × ChannelConfig)} {registry : ChannelRegistry}
    (validated : validateChannels first second = .ok registry) :
    ((registry.map (·.2)).map ChannelConfig.channelId).Nodup := by
  unfold validateChannels at validated
  cases scanned : ValidateChannels.firstPass first with
  | error error =>
    rw [scanned] at validated
    cases validated
  | ok allTracking =>
    cases registered : ValidateChannels.secondPass allTracking second {} with
    | error error =>
      rw [scanned, Except.bind, registered] at validated
      cases validated
    | ok final =>
      rw [scanned, Except.bind, registered] at validated
      cases validated
      obtain ⟨-, apart, rfl⟩ := ValidateChannels.secondPass_ok.mp registered
      rw [List.nil_append, List.map_map, List.map_map]
      exact List.pairwise_map.mpr (apart.imp fun differ => differ.2)

/-- Any order in which a validated registry is iterated. -/
def ChannelOrder.ofRegistry {first second : List (String × ChannelConfig)} {registry : ChannelRegistry}
    (validated : validateChannels first second = .ok registry) (order : List ChannelConfig)
    (iterates : order.Perm (registry.map (·.2))) : ChannelOrder where
  channels := order
  distinct := (iterates.map _).nodup_iff.mpr (nodup_of_validateChannels validated)

structure ChannelView where
  rows : List ChannelPromotionRow
  pending : Option String
  attempts : List PushAttempt
  resent : List ChannelTask

def ChannelTask.isFor (channelId : String) : ChannelTask → Bool
  | .evaluatePush channel _ => channel.channelId = channelId
  | .jobsetComplete _ => false

/-- Where the handler is when it has come to an end with these channels left. -/
def LoopEnd.Reached (sha : String) (rest : List ChannelConfig) (point : HandlerPoint) : LoopEnd → Prop
  | .finished => point = .visit sha rest
  | .failed => point = .failed
  | .waiting => ∃ channel drained rest, point = .resend channel drained sha rest

/-- How the loop goes on from where the handling of a channel has come to. -/
def HandlerPoint.loopEnd : HandlerPoint → LoopEnd
  | .resend _ _ _ _ => .waiting
  | .failed => .failed
  | _ => .finished

namespace ChannelService

def view (service : ChannelService DrvId) (channelId : String) : ChannelView where
  rows := service.promotions.rows.filter fun row => row.channelId = channelId
  pending := service.pending channelId
  attempts := service.attempts.filter fun attempt => attempt.channel.channelId = channelId
  resent := service.queue.filter (ChannelTask.isFor channelId)

def hasRoom (service : ChannelService DrvId) : Bool := service.queue.length < channelTaskBuffer

variable (hasOctocrab : Bool) (faults : ChannelConfig → ChannelFaults)

/-- The row is finalised and the pending commit drained. -/
def finaliseAndDrain (service : ChannelService DrvId) (channel : ChannelConfig) (sha : String) (verdict : Verdict) :
    ChannelService DrvId × LoopEnd :=
  if (faults channel).finalise then (service, .failed)
  else
    let concluded := service.conclude channel sha verdict []
    (concluded.1, concluded.2.loopEnd)

/-- The body of the loop. -/
def handleChannel (service : ChannelService DrvId) (sha : String) (channel : ChannelConfig) :
    ChannelService DrvId × LoopEnd :=
  if (faults channel).getInFlight then (service, .failed)
  else if service.inFlightSha channel ≠ some sha then (service, .finished)
  else if (faults channel).snapshot then (service, .failed)
  else
    let jobStates := service.jobs.snapshotJobStates channel sha
    match evaluatePromotion channel jobStates with
    | .ready results =>
      let outcome := performPromotion hasOctocrab channel (faults channel).push
      let attempted := service.attempt channel sha jobStates outcome
      if outcome.isOk then attempted.finaliseAndDrain faults channel sha (.promoted results) else (attempted, .failed)
    | .blocked failed results => service.finaliseAndDrain faults channel sha (.blocked failed results)
    | .waiting _ _ => (service, .finished)

def handleChannels (service : ChannelService DrvId) (sha : String) : List ChannelConfig → ChannelService DrvId × LoopEnd
  | [] => (service, .finished)
  | channel :: rest =>
    let handled := service.handleChannel hasOctocrab faults sha channel
    if handled.2 = .finished then handled.1.handleChannels sha rest else handled

def handleJobsetComplete (service : ChannelService DrvId) (channels : List ChannelConfig) (notice : JobsetNotice) :
    ChannelService DrvId × LoopEnd :=
  service.handleChannels hasOctocrab faults notice.sha (channels.filter fun channel => channel.watches notice)

/-- A call fails when the channel is handled. -/
def Fails (service : ChannelService DrvId) (sha : String) (channel : ChannelConfig) : Prop :=
  (faults channel).getInFlight = true ∨ service.inFlightSha channel = some sha ∧
    ((faults channel).snapshot = true ∨
      match evaluatePromotion channel (service.jobs.snapshotJobStates channel sha) with
      | .ready _ =>
        performPromotion hasOctocrab channel (faults channel).push = .failed ∨ (faults channel).finalise = true
      | .blocked _ _ => (faults channel).finalise = true
      | .waiting _ _ => False)

/-- The commit is in flight, and its jobs decide. -/
def isDue (service : ChannelService DrvId) (sha : String) (channel : ChannelConfig) : Bool :=
  service.inFlightSha channel = some sha && service.jobs.decides channel sha

/-- The decision sends a pending commit to the queue. -/
def drains (service : ChannelService DrvId) (sha : String) (channel : ChannelConfig) : Bool :=
  service.isDue sha channel && (service.pending channel.channelId).isSome

/-- No channel of these fails, and either none of them sends a commit or there is room for
all that are sent up to the channel. -/
def Spares (service : ChannelService DrvId) (sha : String) (before : List ChannelConfig) (channel : ChannelConfig) :
    Prop :=
  (∀ earlier ∈ before, ¬ service.Fails hasOctocrab faults sha earlier) ∧
    (before.countP (service.drains sha) = 0 ∨
      service.queue.length + (before ++ [channel]).countP (service.drains sha) ≤ channelTaskBuffer)

/-- Every channel of the repository that does not fail itself comes to what it would come to
as the only one. -/
def Isolated (service : ChannelService DrvId) (order : ChannelOrder) (notice : JobsetNotice) : Prop :=
  ∀ channel ∈ order.channels, channel.watches notice = true → ¬ service.Fails hasOctocrab faults notice.sha channel →
    (service.handleJobsetComplete hasOctocrab faults order.channels notice).1.view channel.channelId =
      (service.handleJobsetComplete hasOctocrab faults [channel] notice).1.view channel.channelId

variable {hasOctocrab faults} {service other : ChannelService DrvId} {channel : ChannelConfig} {sha : String}

theorem inFlightSha_eq_view : service.inFlightSha channel =
    ((service.view channel.channelId).rows.find? fun row => row.isInFlight channel.channelId).map
      ChannelPromotionRow.trackingSha := by
  rw [inFlightSha, Promotions.getInFlight, view, List.find?_filter]
  congr 2
  funext row
  by_cases own : row.channelId = channel.channelId <;> simp [own, ChannelPromotionRow.isInFlight]

/-- The two have the same jobs, and the same of the channel. -/
structure Agree (channel : ChannelConfig) (service other : ChannelService DrvId) : Prop where
  jobs : service.jobs = other.jobs
  view : service.view channel.channelId = other.view channel.channelId

namespace Agree

theorem inFlightSha (agree : Agree channel service other) : service.inFlightSha channel = other.inFlightSha channel := by
  rw [inFlightSha_eq_view, agree.view, ← inFlightSha_eq_view]

theorem pending (agree : Agree channel service other) :
    service.pending channel.channelId = other.pending channel.channelId := congrArg ChannelView.pending agree.view

theorem fails (agree : Agree channel service other) :
    service.Fails hasOctocrab faults sha channel ↔ other.Fails hasOctocrab faults sha channel := by
  rw [Fails, Fails, agree.inFlightSha, agree.jobs]

theorem isDue (agree : Agree channel service other) : service.isDue sha channel = other.isDue sha channel := by
  rw [ChannelService.isDue, ChannelService.isDue, agree.inFlightSha, agree.jobs]

theorem drains (agree : Agree channel service other) : service.drains sha channel = other.drains sha channel := by
  rw [ChannelService.drains, ChannelService.drains, agree.isDue, agree.pending]

end Agree

/-- Only what there is of one channel has changed. -/
structure Spared (channelId : String) (service next : ChannelService DrvId) : Prop where
  jobs : next.jobs = service.jobs
  view : ∀ other ≠ channelId, next.view other = service.view other

theorem Spared.trans {channelId : String} {next last : ChannelService DrvId} (spared : Spared channelId service next)
    (then_ : Spared channelId next last) : Spared channelId service last where
  jobs := then_.jobs.trans spared.jobs
  view other differ := (then_.view other differ).trans (spared.view other differ)

variable {jobStates : JobStates} {outcome : PushOutcome} {verdict : Verdict} {rest : List ChannelConfig}

theorem spared_attempt : Spared channel.channelId service (service.attempt channel sha jobStates outcome) where
  jobs := rfl
  view other differ := by
    simp [view, attempt, List.filter_append, Ne.symm differ]

theorem finaliseRow_filter {channelId other : String} (differ : other ≠ channelId) (rows : List ChannelPromotionRow) :
    ((rows.map (Promotions.finaliseRow channelId sha verdict)).filter fun row => row.channelId = other) =
      rows.filter fun row => row.channelId = other := by
  induction rows with
  | nil => rfl
  | cons row rows ih =>
    rw [List.map_cons, List.filter_cons, List.filter_cons, Promotions.finaliseRow_channelId, ih]
    by_cases own : row.channelId = other
    · have kept : Promotions.finaliseRow channelId sha verdict row = row :=
        if_neg fun matched => differ (own.symm.trans matched.1.1)
      rw [kept]
    · rw [if_neg (by simpa using own), if_neg (by simpa using own)]

theorem spared_conclude : Spared channel.channelId service (service.conclude channel sha verdict rest).1 where
  jobs := by
    unfold conclude
    split
    · rfl
    · split <;> rfl
  view other differ := by
    unfold conclude
    split
    next => simp [view, Promotions.finaliseEvaluation, finaliseRow_filter differ, setPending, differ]
    next drained waits =>
      split
      next =>
        simp [view, Promotions.finaliseEvaluation, finaliseRow_filter differ, setPending, differ, List.filter_append,
          ChannelTask.isFor, Ne.symm differ]
      next => simp [view, Promotions.finaliseEvaluation, finaliseRow_filter differ, setPending, differ]


theorem view_attempt : (service.attempt channel sha jobStates outcome).view channel.channelId =
    { service.view channel.channelId with
      attempts := (service.view channel.channelId).attempts ++
        [⟨channel, sha, outcome, jobStates, service.inFlightSha channel,
          (service.view channel.channelId).rows.any fun row =>
            row.isFor channel.channelId sha ∧ row.status = .blocked⟩] } := by
  simp only [view, attempt, List.filter_append, List.filter_singleton, decide_true, cond_true, List.any_filter]
  congr 5
  funext row
  by_cases own : row.channelId = channel.channelId <;> simp [own, ChannelPromotionRow.isFor]

theorem view_conclude : (service.conclude channel sha verdict rest).1.view channel.channelId =
    { service.view channel.channelId with
      rows := (service.view channel.channelId).rows.map (Promotions.finaliseRow channel.channelId sha verdict)
      pending := none
      resent := (service.view channel.channelId).resent ++
        if service.hasRoom then ((service.pending channel.channelId).map (.evaluatePush channel)).toList else [] } := by
  have rows : ((service.promotions.finaliseEvaluation channel.channelId sha verdict).rows.filter fun row =>
      row.channelId = channel.channelId) = (service.view channel.channelId).rows.map
        (Promotions.finaliseRow channel.channelId sha verdict) := by
    simp only [Promotions.finaliseEvaluation, List.filter_map, view, Function.comp_def, Promotions.finaliseRow_channelId]
  unfold conclude
  split
  next none => simp [view, rows, setPending, none, hasRoom]
  next drained waits =>
    split
    next room => simp [view, rows, setPending, waits, hasRoom, room, List.filter_append, ChannelTask.isFor]
    next full => simp [view, rows, setPending, waits, hasRoom, full]

theorem loopEnd_conclude : (service.conclude channel sha verdict rest).2.loopEnd =
    if (service.pending channel.channelId).isSome ∧ service.hasRoom = false then .waiting else .finished := by
  unfold conclude
  split
  next none => simp [none, HandlerPoint.loopEnd]
  next drained waits =>
    split
    next room => simp [waits, hasRoom, room, HandlerPoint.loopEnd]
    next full => simp [waits, hasRoom, full, HandlerPoint.loopEnd]

theorem queue_conclude : (service.conclude channel sha verdict rest).1.queue.length =
    service.queue.length + if (service.pending channel.channelId).isSome ∧ service.hasRoom = true then 1 else 0 := by
  unfold conclude
  split
  next none => simp [none]
  next drained waits =>
    split
    next room => simp [waits, hasRoom, room]
    next full => simp [waits, hasRoom, full]

namespace Agree

theorem attempt (agree : Agree channel service other) :
    Agree channel (service.attempt channel sha jobStates outcome) (other.attempt channel sha jobStates outcome) where
  jobs := agree.jobs
  view := by rw [view_attempt, view_attempt, agree.view, agree.inFlightSha]

theorem conclude (agree : Agree channel service other)
    (room : (service.pending channel.channelId).isSome = true → service.hasRoom = other.hasRoom) :
    Agree channel (service.conclude channel sha verdict rest).1 (other.conclude channel sha verdict rest).1 where
  jobs := by rw [spared_conclude.jobs, spared_conclude.jobs, agree.jobs]
  view := by
    rw [view_conclude, view_conclude, agree.view, ← agree.pending]
    cases waits : service.pending channel.channelId with
    | none => simp
    | some drained => rw [room (by rw [waits]; rfl)]

theorem finaliseAndDrain (agree : Agree channel service other)
    (room : (service.pending channel.channelId).isSome = true → service.hasRoom = other.hasRoom) :
    Agree channel (service.finaliseAndDrain faults channel sha verdict).1
      (other.finaliseAndDrain faults channel sha verdict).1 := by
  unfold ChannelService.finaliseAndDrain
  split
  · exact agree
  · exact agree.conclude room

/-- The handling of a channel sees of the service only what there is of the channel, its jobs
and, where a commit is pending, whether the queue is full. -/
theorem handleChannel (agree : Agree channel service other)
    (room : (service.pending channel.channelId).isSome = true → service.hasRoom = other.hasRoom) :
    Agree channel (service.handleChannel hasOctocrab faults sha channel).1
      (other.handleChannel hasOctocrab faults sha channel).1 := by
  unfold ChannelService.handleChannel
  rw [agree.inFlightSha, agree.jobs]
  split
  next => exact agree
  next =>
    split
    next => exact agree
    next =>
      split
      next => exact agree
      next =>
        dsimp only
        split
        next results decision =>
          split
          · exact agree.attempt.finaliseAndDrain room
          · exact agree.attempt
        next failed results decision => exact agree.finaliseAndDrain room
        next required packages decision => exact agree

end Agree

theorem spared_handleChannel :
    Spared channel.channelId service (service.handleChannel hasOctocrab faults sha channel).1 := by
  have refl : Spared channel.channelId service service := ⟨rfl, fun _ _ => rfl⟩
  have finalised (attempted : ChannelService DrvId) (verdict : Verdict) :
      Spared channel.channelId attempted (attempted.finaliseAndDrain faults channel sha verdict).1 := by
    unfold finaliseAndDrain
    split
    · exact ⟨rfl, fun _ _ => rfl⟩
    · exact spared_conclude
  unfold handleChannel
  split
  next => exact refl
  next =>
    split
    next => exact refl
    next =>
      split
      next => exact refl
      next =>
        dsimp only
        split
        next results decision =>
          split
          · exact spared_attempt.trans (finalised _ _)
          · exact spared_attempt
        next failed results decision => exact finalised _ _
        next required packages decision => exact refl

/-- How a channel is handled. -/
inductive Handles (hasOctocrab : Bool) (faults : ChannelConfig → ChannelFaults) (service : ChannelService DrvId)
    (sha : String) (channel : ChannelConfig) : ChannelService DrvId × LoopEnd → Prop where
  | failed {next : ChannelService DrvId} (fails : service.Fails hasOctocrab faults sha channel) :
      Handles hasOctocrab faults service sha channel (next, .failed)
  | passed (works : ¬ service.Fails hasOctocrab faults sha channel) (idle : service.isDue sha channel = false) :
      Handles hasOctocrab faults service sha channel (service, .finished)
  | concluded {attempted : ChannelService DrvId} {verdict : Verdict}
      (works : ¬ service.Fails hasOctocrab faults sha channel) (due : service.isDue sha channel = true)
      (pending : attempted.pending = service.pending) (queue : attempted.queue = service.queue) :
      Handles hasOctocrab faults service sha channel
        ((attempted.conclude channel sha verdict []).1, (attempted.conclude channel sha verdict []).2.loopEnd)

theorem handles_handleChannel :
    Handles hasOctocrab faults service sha channel (service.handleChannel hasOctocrab faults sha channel) := by
  unfold handleChannel
  split
  next broken => exact .failed (.inl broken)
  next working =>
    split
    next elsewhere => exact .passed (fun fails => fails.elim working fun fails => elsewhere fails.1) (by simp [isDue, elsewhere])
    next inFlight =>
      have inFlight := not_not.mp inFlight
      split
      next broken => exact .failed (.inr ⟨inFlight, .inl broken⟩)
      next known =>
        dsimp only
        split
        next results decision =>
          have due : service.isDue sha channel = true := by
            simp [isDue, inFlight, JobDatabase.decides, decision, PromotionDecision.isReady]
          split
          next ok =>
            unfold finaliseAndDrain
            split
            next broken => exact .failed (.inr ⟨inFlight, .inr (by rw [decision]; exact .inr broken)⟩)
            next written =>
              refine .concluded (fun fails => ?_) due rfl rfl
              rw [Fails, decision] at fails
              obtain broken | ⟨-, broken | failed | broken⟩ := fails
              · exact working broken
              · exact known broken
              · rw [failed] at ok
                cases ok
              · exact written broken
          next bad =>
            exact .failed (.inr ⟨inFlight, .inr (by rw [decision]; exact .inl (eq_failed_of_not_isOk bad))⟩)
        next failed results decision =>
          have due : service.isDue sha channel = true := by
            simp [isDue, inFlight, JobDatabase.decides, decision, PromotionDecision.isBlocked]
          unfold finaliseAndDrain
          split
          next broken => exact .failed (.inr ⟨inFlight, .inr (by rw [decision]; exact broken)⟩)
          next written =>
            refine .concluded (fun fails => ?_) due rfl rfl
            rw [Fails, decision] at fails
            obtain broken | ⟨-, broken | broken⟩ := fails
            · exact working broken
            · exact known broken
            · exact written broken
        next required packages decision =>
          refine .passed (fun fails => ?_) ?_
          · rw [Fails, decision] at fails
            obtain broken | ⟨-, broken | broken⟩ := fails
            · exact working broken
            · exact known broken
            · exact broken
          · simp [isDue, JobDatabase.decides, decision, PromotionDecision.isReady, PromotionDecision.isBlocked]

theorem drains_eq (due : service.isDue sha channel = true) :
    service.drains sha channel = (service.pending channel.channelId).isSome := by
  rw [drains, due, Bool.true_and]

theorem not_drains (idle : service.isDue sha channel = false) : service.drains sha channel = false := by
  rw [drains, idle, Bool.false_and]

namespace Handles

variable {handled : ChannelService DrvId × LoopEnd}

theorem finished_iff (handles : Handles hasOctocrab faults service sha channel handled) : handled.2 = .finished ↔
    ¬ service.Fails hasOctocrab faults sha channel ∧ (service.drains sha channel = true → service.hasRoom = true) := by
  cases handles with
  | failed fails => exact ⟨fun ended => (nomatch ended), fun works => absurd fails works.1⟩
  | passed works idle =>
    rw [not_drains idle]
    exact ⟨fun _ => ⟨works, fun drains => (nomatch drains)⟩, fun _ => rfl⟩
  | concluded works due pending queue =>
    rw [loopEnd_conclude, drains_eq due, pending, hasRoom, queue, ← hasRoom]
    split
    next full =>
      refine ⟨fun ended => (nomatch ended), fun ⟨_, room⟩ => ?_⟩
      rw [room full.1] at full
      cases full.2
    next free =>
      refine ⟨fun _ => ⟨works, fun waits => ?_⟩, fun _ => rfl⟩
      by_contra full
      exact free ⟨waits, Bool.not_eq_true _ |>.mp full⟩

theorem queue_length (handles : Handles hasOctocrab faults service sha channel handled) (ended : handled.2 = .finished) :
    handled.1.queue.length = service.queue.length + if service.drains sha channel then 1 else 0 := by
  have goesOn := handles.finished_iff.mp ended
  cases handles with
  | failed fails => cases ended
  | passed works idle => simp [not_drains idle]
  | concluded works due pending queue =>
    rw [drains_eq due] at goesOn ⊢
    rw [queue_conclude, pending, hasRoom, queue, ← hasRoom]
    by_cases waits : (service.pending channel.channelId).isSome = true
    · simp [waits, goesOn.2 waits]
    · simp [waits]

end Handles

theorem handleChannels_append (before after : List ChannelConfig) :
    service.handleChannels hasOctocrab faults sha (before ++ after) =
      if (service.handleChannels hasOctocrab faults sha before).2 = .finished then
        (service.handleChannels hasOctocrab faults sha before).1.handleChannels hasOctocrab faults sha after
      else service.handleChannels hasOctocrab faults sha before := by
  induction before generalizing service with
  | nil => rfl
  | cons channel before ih =>
    rw [List.cons_append, handleChannels, handleChannels, ih]
    split <;> rfl

variable {channels after before : List ChannelConfig} {handled : ChannelService DrvId × LoopEnd}

theorem agree_handleChannels (absent : channel.channelId ∉ channels.map ChannelConfig.channelId) :
    Agree channel (service.handleChannels hasOctocrab faults sha channels).1 service := by
  induction channels generalizing service with
  | nil => exact ⟨rfl, rfl⟩
  | cons first rest ih =>
    rw [List.map_cons, List.mem_cons, not_or] at absent
    have spared := @spared_handleChannel _ hasOctocrab faults service first sha
    have handled : Agree channel (service.handleChannel hasOctocrab faults sha first).1 service :=
      ⟨spared.jobs, spared.view _ absent.1⟩
    rw [handleChannels]
    split
    next => exact ⟨(ih absent.2).jobs.trans handled.jobs, (ih absent.2).view.trans handled.view⟩
    next => exact handled

theorem agree_handleChannel {first : ChannelConfig} (differ : channel.channelId ≠ first.channelId) :
    Agree channel (service.handleChannel hasOctocrab faults sha first).1 service :=
  ⟨spared_handleChannel.jobs, spared_handleChannel.view _ differ⟩

/-- The loop gets past channels exactly if none of them fails and the queue takes what they
send, which it then holds. -/
theorem handleChannels_finished (distinct : (channels.map ChannelConfig.channelId).Nodup) :
    ((service.handleChannels hasOctocrab faults sha channels).2 = .finished ↔
      (∀ channel ∈ channels, ¬ service.Fails hasOctocrab faults sha channel) ∧
        (channels.countP (service.drains sha) = 0 ∨
          service.queue.length + channels.countP (service.drains sha) ≤ channelTaskBuffer)) ∧
    ((service.handleChannels hasOctocrab faults sha channels).2 = .finished →
      (service.handleChannels hasOctocrab faults sha channels).1.queue.length =
        service.queue.length + channels.countP (service.drains sha)) := by
  induction channels generalizing service with
  | nil => simp [handleChannels]
  | cons first rest ih =>
    rw [List.map_cons, List.nodup_cons] at distinct
    have handles := @handles_handleChannel _ hasOctocrab faults service first sha
    have goesOn := handles.finished_iff
    rw [hasRoom, decide_eq_true_iff] at goesOn
    rw [handleChannels, List.forall_mem_cons, List.countP_cons]
    split
    next ended =>
      have agree : ∀ channel ∈ rest, Agree channel (service.handleChannel hasOctocrab faults sha first).1 service :=
        fun channel member => agree_handleChannel fun same => distinct.1 (same ▸ List.mem_map_of_mem member)
      have fails : (∀ channel ∈ rest,
          ¬ (service.handleChannel hasOctocrab faults sha first).1.Fails hasOctocrab faults sha channel) ↔
            ∀ channel ∈ rest, ¬ service.Fails hasOctocrab faults sha channel :=
        forall₂_congr fun channel member => not_congr (agree channel member).fails
      have drains : rest.countP ((service.handleChannel hasOctocrab faults sha first).1.drains sha) =
          rest.countP (service.drains sha) :=
        List.countP_congr fun channel member => by rw [(agree channel member).drains]
      have added := handles.queue_length ended
      obtain ⟨rest_iff, rest_length⟩ := @ih (service.handleChannel hasOctocrab faults sha first).1 distinct.2
      rw [fails, drains, added] at rest_iff
      rw [drains, added] at rest_length
      obtain ⟨works, room⟩ := goesOn.mp ended
      refine ⟨rest_iff.trans ?_, fun finished => by rw [rest_length finished]; omega⟩
      by_cases sends : service.drains sha first = true
      · have room := room sends
        simp only [works, sends, if_true, not_false_iff, true_and]
        refine and_congr_right fun _ => ?_
        omega
      · simp only [works, sends, if_false, not_false_iff, true_and, Nat.add_zero, Bool.false_eq_true]
    next stopped =>
      refine ⟨iff_of_false stopped fun ⟨⟨works, _⟩, room⟩ => stopped (goesOn.mpr ⟨works, fun sends => ?_⟩),
        fun finished => absurd finished stopped⟩
      rw [if_pos sends] at room
      omega

/-- Where the channels before it let the loop reach a channel, it is handled then, and
otherwise it stays as it was. -/
theorem agree_of_split (split : channels = before ++ channel :: after)
    (distinct : (channels.map ChannelConfig.channelId).Nodup) :
    let reached := service.handleChannels hasOctocrab faults sha before
    Agree channel (service.handleChannels hasOctocrab faults sha channels).1
      (if reached.2 = .finished then (reached.1.handleChannel hasOctocrab faults sha channel).1 else service) := by
  rw [split, List.map_append, List.map_cons, List.nodup_append, List.nodup_cons] at distinct
  obtain ⟨-, ⟨absent, -⟩, apart⟩ := distinct
  have agree : Agree channel (service.handleChannels hasOctocrab faults sha before).1 service :=
    agree_handleChannels fun member => apart _ member _ List.mem_cons_self rfl
  rw [split, handleChannels_append]
  dsimp only
  split
  next finished =>
    rw [handleChannels]
    split
    next => exact agree_handleChannels absent
    next => exact ⟨rfl, rfl⟩
  next stopped => exact agree

theorem promotions_conclude : (service.conclude channel sha verdict rest).1.promotions =
    service.promotions.finaliseEvaluation channel.channelId sha verdict := by
  unfold conclude
  split
  · rfl
  · split <;> rfl

theorem inFlightSha_conclude : (service.conclude channel sha verdict rest).1.inFlightSha channel ≠ some sha := by
  intro inFlight
  rw [inFlightSha_eq_some, promotions_conclude] at inFlight
  obtain ⟨row, member, isFor, evaluating⟩ := inFlight
  obtain ⟨stored, -, rfl⟩ := mem_finalise.mp member
  have kept := Promotions.finaliseRow_of_status channel.channelId sha rfl evaluating
  rw [kept] at isFor evaluating
  rw [Promotions.finaliseRow, if_pos ⟨isFor, evaluating⟩] at kept
  have undecided : verdict.status = .evaluating := (congrArg ChannelPromotionRow.status kept).trans evaluating
  have decided := verdict.isDecided_status
  rw [undecided] at decided
  cases decided

theorem Handles.decided (handles : Handles hasOctocrab faults service sha channel handled)
    (works : ¬ service.Fails hasOctocrab faults sha channel) (due : service.isDue sha channel = true) :
    handled.1.inFlightSha channel ≠ some sha := by
  cases handles with
  | failed fails => exact absurd fails works
  | passed _ idle =>
    rw [due] at idle
    cases idle
  | concluded _ _ pending queue => exact inFlightSha_conclude

theorem handleChannels_singleton : service.handleChannels hasOctocrab faults sha [channel] =
    service.handleChannel hasOctocrab faults sha channel := by
  rw [handleChannels]
  split
  next ended => exact Prod.ext rfl ended.symm
  next => rfl

theorem Handles.resent_length (handles : Handles hasOctocrab faults service sha channel handled)
    (works : ¬ service.Fails hasOctocrab faults sha channel) (due : service.isDue sha channel = true) :
    (handled.1.view channel.channelId).resent.length = (service.view channel.channelId).resent.length +
      if service.drains sha channel = true ∧ service.hasRoom = true then 1 else 0 := by
  cases handles with
  | failed fails => exact absurd fails works
  | passed _ idle =>
    rw [due] at idle
    cases idle
  | @concluded attempted verdict _ _ pending queue =>
    have room : attempted.hasRoom = service.hasRoom := by rw [hasRoom, queue, ← hasRoom]
    have resent : (attempted.view channel.channelId).resent = (service.view channel.channelId).resent := by
      rw [view, queue]
      rfl
    rw [view_conclude, drains_eq due, room, pending, resent, List.length_append]
    cases service.pending channel.channelId <;> cases service.hasRoom <;> rfl

theorem Handles.unchanged (handles : Handles hasOctocrab faults service sha channel handled)
    (works : ¬ service.Fails hasOctocrab faults sha channel) (idle : service.isDue sha channel = false) :
    handled.1 = service := by
  cases handles with
  | failed fails => exact absurd fails works
  | passed _ _ => rfl
  | concluded _ due _ _ =>
    rw [idle] at due
    cases due

theorem countP_snoc (before : List ChannelConfig) : (before ++ [channel]).countP (service.drains sha) =
    before.countP (service.drains sha) + if service.drains sha channel = true then 1 else 0 := by
  rw [List.countP_append, List.countP_singleton]

/-- A channel comes to the same in the loop as on its own exactly if it has nothing to
decide or the channels before it spare it. -/
theorem view_eq_iff (split : channels = before ++ channel :: after)
    (distinct : (channels.map ChannelConfig.channelId).Nodup) (works : ¬ service.Fails hasOctocrab faults sha channel) :
    (service.handleChannels hasOctocrab faults sha channels).1.view channel.channelId =
        (service.handleChannels hasOctocrab faults sha [channel]).1.view channel.channelId ↔
      (service.isDue sha channel = true → service.Spares hasOctocrab faults sha before channel) := by
  have reaches := @agree_of_split _ hasOctocrab faults service channel sha _ _ _ split distinct
  rw [split, List.map_append, List.map_cons, List.nodup_append] at distinct
  obtain ⟨distinct, -, apart⟩ := distinct
  have agree : Agree channel (service.handleChannels hasOctocrab faults sha before).1 service :=
    agree_handleChannels fun member => apart _ member _ List.mem_cons_self rfl
  obtain ⟨finished_iff, queue_length⟩ := @handleChannels_finished _ hasOctocrab faults service sha _ distinct
  have handles := @handles_handleChannel _ hasOctocrab faults service channel sha
  rw [reaches.view, handleChannels_singleton]
  cases due : service.isDue sha channel with
  | false =>
    refine iff_of_true ?_ fun holds => (nomatch holds)
    rw [handles.unchanged works due]
    split_ifs
    next =>
      have handles' := @handles_handleChannel _ hasOctocrab faults
        (service.handleChannels hasOctocrab faults sha before).1 channel sha
      rw [handles'.unchanged (agree.fails.not.mpr works) (agree.isDue.trans due), agree.view]
    next => rfl
  | true =>
    rw [Spares, countP_snoc, forall_prop_of_true rfl]
    by_cases finished : (service.handleChannels hasOctocrab faults sha before).2 = .finished
    · obtain ⟨working, room⟩ := finished_iff.mp finished
      have added := queue_length finished
      rw [if_pos finished]
      constructor
      · intro same
        have handles' := @handles_handleChannel _ hasOctocrab faults
          (service.handleChannels hasOctocrab faults sha before).1 channel sha
        have sent := handles'.resent_length (agree.fails.not.mpr works) (agree.isDue.trans due)
        rw [same, handles.resent_length works due, agree.view, agree.drains, hasRoom, hasRoom, added] at sent
        refine ⟨working, ?_⟩
        by_cases sends : service.drains sha channel = true
        · simp only [sends, true_and, decide_eq_true_eq, if_true] at sent ⊢
          split_ifs at sent <;> omega
        · simpa only [sends, if_false, Bool.false_eq_true, Nat.add_zero] using room
      · rintro ⟨-, room'⟩
        refine (agree.handleChannel fun waits => ?_).view
        rw [agree.pending, ← drains_eq due] at waits
        rw [waits, if_pos rfl] at room'
        rw [hasRoom, hasRoom, added, decide_eq_decide]
        omega
    · rw [if_neg finished]
      refine iff_of_false (fun same => ?_) fun ⟨working, room⟩ => finished (finished_iff.mpr ⟨working, by omega⟩)
      apply handles.decided works due
      rw [inFlightSha_eq_view, ← same, ← inFlightSha_eq_view]
      rw [isDue, Bool.and_eq_true] at due
      exact of_decide_eq_true due.1

/-- The service gets from one point to another by the calls of a task. -/
abbrev Leads (hasOctocrab : Bool) : ChannelService DrvId × HandlerPoint → ChannelService DrvId × HandlerPoint → Prop :=
  Relation.ReflTransGen fun first next => ∃ answer, first.1.advance hasOctocrab first.2 answer = some next

theorem leads_finaliseAndDrain (verdict : Verdict) (rest : List ChannelConfig) :
    ∃ point, Leads hasOctocrab (service, .finalise channel sha verdict rest)
        ((service.finaliseAndDrain faults channel sha verdict).1, point) ∧
      (service.finaliseAndDrain faults channel sha verdict).2.Reached sha rest point := by
  unfold finaliseAndDrain
  split
  next => exact ⟨.failed, .single ⟨.fails, rfl⟩, rfl⟩
  next =>
    refine ⟨(service.conclude channel sha verdict rest).2, .single ⟨.succeeds, ?_⟩, ?_⟩
    · simp only [advance, proceed, conclude]
      split
      · rfl
      · split <;> rfl
    · unfold conclude
      split
      · rfl
      · split
        · rfl
        · exact ⟨_, _, _, rfl⟩

theorem leads_handleChannel (rest : List ChannelConfig) :
    ∃ point, Leads hasOctocrab (service, .visit sha (channel :: rest))
        ((service.handleChannel hasOctocrab faults sha channel).1, point) ∧
      (service.handleChannel hasOctocrab faults sha channel).2.Reached sha rest point := by
  unfold handleChannel
  split
  next => exact ⟨.failed, .single ⟨.fails, rfl⟩, rfl⟩
  next =>
    split
    next elsewhere => exact ⟨.visit sha rest, .single ⟨.succeeds, by simp [advance, proceed, elsewhere]⟩, rfl⟩
    next inFlight =>
      have visited : Leads hasOctocrab (service, .visit sha (channel :: rest)) (service, .decide channel sha rest) :=
        .single ⟨.succeeds, by simp [advance, proceed, not_not.mp inFlight]⟩
      split
      next => exact ⟨.failed, visited.tail ⟨.fails, rfl⟩, rfl⟩
      next =>
        dsimp only
        split
        next results decision =>
          have decided := visited.tail
            (c := (service, .push channel sha (service.jobs.snapshotJobStates channel sha) results rest))
            ⟨.succeeds, by simp only [advance, proceed, decision]⟩
          split
          next ok =>
            obtain ⟨point, leads, reached⟩ := leads_finaliseAndDrain (.promoted results) rest
            exact ⟨point, (decided.tail ⟨(faults channel).push, by simp only [advance, ok, if_true]⟩).trans leads, reached⟩
          next bad => exact ⟨.failed, decided.tail ⟨(faults channel).push, by simp [advance, bad]⟩, rfl⟩
        next failed results decision =>
          have decided := visited.tail (c := (service, .finalise channel sha (.blocked failed results) rest))
            ⟨.succeeds, by simp only [advance, proceed, decision]⟩
          obtain ⟨point, leads, reached⟩ := leads_finaliseAndDrain (.blocked failed results) rest
          exact ⟨point, decided.trans leads, reached⟩
        next required packages decision =>
          exact ⟨.visit sha rest, visited.tail ⟨.succeeds, by simp only [advance, proceed, decision]⟩, rfl⟩

theorem leads_handleChannels (channels : List ChannelConfig) :
    ∃ point, Leads hasOctocrab (service, .visit sha channels)
        ((service.handleChannels hasOctocrab faults sha channels).1, point) ∧
      (service.handleChannels hasOctocrab faults sha channels).2.Reached sha [] point := by
  induction channels generalizing service with
  | nil => exact ⟨_, .refl, rfl⟩
  | cons channel rest ih =>
    obtain ⟨point, leads, reached⟩ := @leads_handleChannel _ hasOctocrab faults service channel sha rest
    rw [handleChannels]
    split
    next finished =>
      rw [finished] at reached
      obtain ⟨last, goesOn, ended⟩ := @ih (service.handleChannel hasOctocrab faults sha channel).1
      exact ⟨last, leads.trans (reached ▸ goesOn), ended⟩
    next stopped =>
      refine ⟨point, leads, ?_⟩
      cases ended : (service.handleChannel hasOctocrab faults sha channel).2 with
      | finished => exact absurd ended stopped
      | failed | waiting =>
        rw [ended] at reached
        exact reached

theorem leads_handleJobsetComplete (channels : List ChannelConfig) (notice : JobsetNotice) :
    ∃ point, Leads hasOctocrab (service, enter channels (.jobsetComplete notice))
        ((service.handleJobsetComplete hasOctocrab faults channels notice).1, point) ∧
      (service.handleJobsetComplete hasOctocrab faults channels notice).2.Reached notice.sha [] point :=
  leads_handleChannels _

/-- The channels of a repository are independent of each other exactly as far as none that
comes before fails, and the queue has room for all they send. -/
theorem isolated_iff (hasOctocrab : Bool) (faults : ChannelConfig → ChannelFaults) (service : ChannelService DrvId)
    (order : ChannelOrder) (notice : JobsetNotice) : service.Isolated hasOctocrab faults order notice ↔
      ∀ before channel after,
        (order.channels.filter fun channel => channel.watches notice) = before ++ channel :: after →
          ¬ service.Fails hasOctocrab faults notice.sha channel → service.isDue notice.sha channel = true →
            service.Spares hasOctocrab faults notice.sha before channel := by
  have distinct : ((order.channels.filter fun channel => channel.watches notice).map ChannelConfig.channelId).Nodup :=
    order.distinct.sublist (List.filter_sublist.map _)
  constructor
  · intro isolated before channel after split works
    have matched : channel ∈ order.channels.filter fun channel => channel.watches notice := by
      rw [split]
      exact List.mem_append_right _ List.mem_cons_self
    obtain ⟨member, watches⟩ := List.mem_filter.mp matched
    have same := isolated channel member watches works
    rw [handleJobsetComplete, handleJobsetComplete, List.filter_singleton, watches, cond_true] at same
    exact (view_eq_iff split distinct works).mp same
  · intro spares channel member watches works
    have matched : channel ∈ order.channels.filter fun channel => channel.watches notice :=
      List.mem_filter.mpr ⟨member, watches⟩
    obtain ⟨before, after, split⟩ := List.append_of_mem matched
    rw [handleJobsetComplete, handleJobsetComplete, List.filter_singleton, watches, cond_true]
    exact (view_eq_iff split distinct works).mpr (spares before channel after split works)

def nightly : ChannelConfig := ⟨.gitHub, "ekala", "corepkgs", "nightly", "master", "next", [], [], false⟩

/-- The commit of the branch that both track is in flight for both. -/
def bothInFlight : ChannelService Nat where
  promotions := ⟨[unstable, nightly].map fun channel =>
      ⟨channel.channelId, "c0ffee", channel.targetBranch, none, .evaluating, none, none⟩, by decide⟩
  jobs := .empty fun _ => .queued
  journal := []
  nextId := 0
  queue := []
  pending := fun _ => none
  handler := .idle
  pushed := []
  journaled := []
  attempts := []

def pushTimesOut (channel : ChannelConfig) : ChannelFaults where
  getInFlight := false
  snapshot := false
  push := if channel = unstable then .fails else .succeeds
  finalise := false

def unstableFirst : ChannelOrder := ⟨[unstable, nightly], by decide +kernel⟩

/-- The other one, which comes to its promotion on its own, stays as it is. -/
theorem pushTimesOut_not_isolated : ¬ ∀ (hasOctocrab : Bool) (faults : ChannelConfig → ChannelFaults)
    (service : ChannelService Nat) (order : ChannelOrder) (notice : JobsetNotice),
    service.Isolated hasOctocrab faults order notice := by
  intro always
  have works : ¬ bothInFlight.Fails true pushTimesOut "c0ffee" nightly :=
    (handles_handleChannel.finished_iff.mp (by decide)).1
  have same := always true pushTimesOut bothInFlight unstableFirst ⟨.gitHub, "ekala", "corepkgs", "c0ffee"⟩ nightly
    (by decide +kernel) (by decide +kernel) works
  have rows := congrArg (fun view => view.rows.map ChannelPromotionRow.status) same
  exact absurd rows (by decide +kernel)

end ChannelService

end EkaCI
