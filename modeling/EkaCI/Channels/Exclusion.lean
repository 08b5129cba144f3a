import EkaCI.Channels.Service

/-! What holds of the rows, of the pending commits and of the handler in every
state, whatever fails: a channel evaluates one commit at a time, and a commit that
is pending has not been looked at. From this, a commit is pushed at most once. -/

namespace EkaCI

open Lib

variable {DrvId : Type}

/-- The commit is the one that the channel evaluates. -/
def Promotions.Evaluates (promotions : Promotions) (channelId sha : String) : Prop :=
  ∃ row ∈ promotions.rows, row.isFor channelId sha ∧ row.status = .evaluating

/-- The commit has been skipped at most. -/
def Promotions.Untouched (promotions : Promotions) (channelId sha : String) : Prop :=
  ∀ row ∈ promotions.rows, row.isFor channelId sha → row.status = .skipped

namespace ChannelService

/-- The pending commit of a channel waits for another one, and is untouched. -/
structure Sound (promotions : Promotions) (pending : String → Option String) : Prop where
  settled : promotions.Settled
  awaits : ∀ channelId sha, pending channelId = some sha →
    ∃ row ∈ promotions.rows, row.isInFlight channelId ∧ row.trackingSha ≠ sha
  untouched : ∀ channelId sha, pending channelId = some sha → promotions.Untouched channelId sha

/-- What the handler has found out and nobody else can change. -/
def Fits (promotions : Promotions) (pending : String → Option String) : HandlerPoint → Prop
  | .coalesce channel sha =>
    ∀ row ∈ promotions.rows, row.isFor channel.channelId sha → row.status.isDecided = false
  | .skip channel sha previous =>
    pending channel.channelId = some previous ∧ previous ≠ sha ∧ promotions.Untouched channel.channelId sha ∧
      ∃ row ∈ promotions.rows, row.isInFlight channel.channelId ∧ row.trackingSha ≠ sha
  | .start channel sha =>
    (∀ row ∈ promotions.rows, ¬ row.isInFlight channel.channelId) ∧ promotions.Untouched channel.channelId sha
  | .decide channel sha _ => promotions.Evaluates channel.channelId sha
  | .push channel sha jobStates results _ =>
    promotions.Evaluates channel.channelId sha ∧ evaluatePromotion channel jobStates = .ready results
  | .finalise channel sha _ _ => promotions.Evaluates channel.channelId sha
  | _ => True

/-- The handler's point fits. -/
def Fitting (service : ChannelService DrvId) : Prop :=
  match service.handler with
  | .running _ _ point => Fits service.promotions service.pending point
  | _ => True

structure Consistent (service : ChannelService DrvId) : Prop where
  sound : Sound service.promotions service.pending
  fitting : service.Fitting

variable {service next : ChannelService DrvId}
variable {channel : ChannelConfig} {sha channelId : String} {pending : String → Option String}
  {promotions : Promotions} {row : ChannelPromotionRow} {verdict : Verdict} {point point' : HandlerPoint}
  {answer : CallAnswer} {origin : TaskOrigin} {task : ChannelTask} {action : ChannelAction DrvId}
  {results : RequiredResults}

theorem inFlightSha_eq_some :
    service.inFlightSha channel = some sha ↔ service.promotions.Evaluates channel.channelId sha := by
  rw [inFlightSha, Option.map_eq_some_iff]
  constructor
  · rintro ⟨row, found, rfl⟩
    obtain ⟨member, inFlight⟩ := Promotions.getInFlight_eq_some.mp found
    exact ⟨row, member, ⟨inFlight.1, rfl⟩, inFlight.2⟩
  · rintro ⟨row, member, isFor, evaluating⟩
    exact ⟨row, Promotions.getInFlight_eq_some.mpr ⟨member, isFor.1, evaluating⟩, isFor.2⟩

theorem inFlightSha_eq_none :
    service.inFlightSha channel = none ↔ ∀ row ∈ service.promotions.rows, ¬ row.isInFlight channel.channelId := by
  rw [inFlightSha, Option.map_eq_none_iff, Promotions.getInFlight_eq_none]

/-- A commit that is not decided, while another one or none is evaluated, has been
skipped at most. -/
theorem untouched_of_undecided
    (undecided : ∀ row ∈ service.promotions.rows, row.isFor channel.channelId sha → row.status.isDecided = false)
    (other : service.inFlightSha channel ≠ some sha) : service.promotions.Untouched channel.channelId sha := by
  intro row member isFor
  have undecided := undecided row member isFor
  cases status : row.status with
  | skipped => rfl
  | evaluating => exact absurd (inFlightSha_eq_some.mpr ⟨row, member, isFor, status⟩) other
  | _ =>
    rw [status] at undecided
    cases undecided

theorem Sound.append {promotions' : Promotions} (sound : Sound promotions pending)
    (added : promotions'.rows = promotions.rows ++ [row])
    (untouched : promotions.Untouched row.channelId row.trackingSha)
    (free : row.status ≠ .skipped → pending row.channelId = none) : Sound promotions' pending where
  settled := sound.settled.append untouched added
  awaits channelId sha waits := by
    obtain ⟨other, member, inFlight⟩ := sound.awaits channelId sha waits
    exact ⟨other, added ▸ List.mem_append_left _ member, inFlight⟩
  untouched channelId sha waits other member isFor := by
    rw [added] at member
    obtain stored | last := mem_snoc.mp member
    · exact sound.untouched channelId sha waits other stored isFor
    · rw [last] at isFor ⊢
      by_contra kept
      have none := free kept
      rw [isFor.1, waits] at none
      cases none

theorem Sound.defer (sound : Sound promotions pending) (untouched : promotions.Untouched channelId sha)
    (waits : ∃ row ∈ promotions.rows, row.isInFlight channelId ∧ row.trackingSha ≠ sha) :
    Sound promotions (Function.update pending channelId (some sha)) where
  settled := sound.settled
  awaits other found pendingOther := by
    by_cases same : other = channelId
    · subst same
      rw [Function.update_self] at pendingOther
      cases pendingOther
      exact waits
    · rw [Function.update_of_ne same] at pendingOther
      exact sound.awaits other found pendingOther
  untouched other found pendingOther := by
    by_cases same : other = channelId
    · subst same
      rw [Function.update_self] at pendingOther
      cases pendingOther
      exact untouched
    · rw [Function.update_of_ne same] at pendingOther
      exact sound.untouched other found pendingOther

theorem Sound.free (sound : Sound promotions pending) (none : ∀ row ∈ promotions.rows, ¬ row.isInFlight channelId) :
    pending channelId = Option.none := by
  cases waits : pending channelId with
  | none => rfl
  | some waiting =>
    obtain ⟨row, member, inFlight, -⟩ := sound.awaits _ _ waits
    exact absurd inFlight (none row member)

theorem mem_finalise :
    row ∈ (promotions.finaliseEvaluation channelId sha verdict).rows ↔
      ∃ stored ∈ promotions.rows, Promotions.finaliseRow channelId sha verdict stored = row := List.mem_map

theorem Sound.finalise (sound : Sound promotions pending) (verdict : Verdict) :
    Sound (promotions.finaliseEvaluation channelId sha verdict) (Function.update pending channelId none) where
  settled := sound.settled.finalise verdict
  awaits other found waits := by
    have differ : other ≠ channelId := by
      rintro rfl
      rw [Function.update_self] at waits
      cases waits
    rw [Function.update_of_ne differ] at waits
    obtain ⟨row, member, inFlight, unlike⟩ := sound.awaits other found waits
    refine ⟨row, mem_finalise.mpr ⟨row, member, ?_⟩, inFlight, unlike⟩
    rw [Promotions.finaliseRow, if_neg fun matched => differ (inFlight.1.symm.trans matched.1.1)]
  untouched other found waits row member isFor := by
    have differ : other ≠ channelId := by
      rintro rfl
      rw [Function.update_self] at waits
      cases waits
    rw [Function.update_of_ne differ] at waits
    obtain ⟨stored, old, rfl⟩ := mem_finalise.mp member
    have unchanged : Promotions.finaliseRow channelId sha verdict stored = stored := by
      rw [Promotions.finaliseRow, if_neg]
      rintro ⟨matched, -⟩
      rw [ChannelPromotionRow.isFor, Promotions.finaliseRow_channelId] at isFor
      exact differ (isFor.1.symm.trans matched.1)
    rw [unchanged] at isFor ⊢
    exact sound.untouched other found waits stored old isFor

theorem Proceeds.sound (proceeds : Proceeds service point next point')
    (sound : Sound service.promotions service.pending) (fits : Fits service.promotions service.pending point) :
    Sound next.promotions next.pending ∧ Fits next.promotions next.pending point' := by
  cases proceeds with
  | decided known => exact ⟨sound, trivial⟩
  | undecided unknown => exact ⟨sound, fun row => Promotions.undecided_of_latest sound.settled unknown⟩
  | duplicate inFlight same => exact ⟨sound, trivial⟩
  | @deferred channel sha flying inFlight other free =>
    have untouched := untouched_of_undecided fits (by rw [inFlight]; exact fun same => other (Option.some.inj same))
    obtain ⟨row, member, isFor, evaluating⟩ := inFlightSha_eq_some.mp inFlight
    exact ⟨sound.defer untouched ⟨row, member, ⟨isFor.1, evaluating⟩, isFor.2 ▸ other⟩, trivial⟩
  | @superseding channel sha flying previous inFlight other waits unlike =>
    have untouched := untouched_of_undecided fits (by rw [inFlight]; exact fun same => other (Option.some.inj same))
    obtain ⟨row, member, isFor, evaluating⟩ := inFlightSha_eq_some.mp inFlight
    exact ⟨sound, waits, unlike, untouched, row, member, ⟨isFor.1, evaluating⟩, isFor.2 ▸ other⟩
  | fresh none =>
    exact ⟨sound, inFlightSha_eq_none.mp none, untouched_of_undecided fits (by rw [none]; exact fun same => nomatch same)⟩
  | @skipped channel sha previous =>
    obtain ⟨waits, unlike, untouched, row, member, inFlight, other⟩ := fits
    have sound' : Sound (service.promotions.insertSkipped channel.channelId previous channel.targetBranch) service.pending :=
      sound.append rfl (sound.untouched _ _ waits) fun kept => absurd rfl kept
    refine ⟨sound'.defer (fun stored added isFor => ?_) ⟨row, List.mem_append_left _ member, inFlight, other⟩, trivial⟩
    obtain old | last := mem_snoc.mp added
    · exact untouched stored old isFor
    · rw [last]
  | @opened channel sha promotions inserted =>
    obtain ⟨free, untouched⟩ := fits
    have added := Promotions.rows_of_insertEvaluating inserted
    have member := added ▸ List.mem_append_right service.promotions.rows List.mem_cons_self
    exact ⟨sound.append added untouched fun _ => sound.free free, _, member, ⟨rfl, rfl⟩, rfl⟩
  | occupied refused => exact ⟨sound, trivial⟩
  | ready decision => exact ⟨sound, fits, decision⟩
  | blocked decision => exact ⟨sound, fits⟩
  | waiting decision => exact ⟨sound, trivial⟩
  | concluded none => exact ⟨sound.finalise _, trivial⟩
  | drained waits room => exact ⟨sound.finalise _, trivial⟩
  | stuck waits full => exact ⟨sound.finalise _, trivial⟩
  | resent room => exact ⟨sound, trivial⟩
  | revisited inFlight => exact ⟨sound, inFlightSha_eq_some.mp inFlight⟩
  | passed other => exact ⟨sound, trivial⟩

variable {hasOctocrab : Bool} {channels : List ChannelConfig}

theorem Advances.sound (advances : Advances hasOctocrab service point answer next point')
    (sound : Sound service.promotions service.pending) (fits : Fits service.promotions service.pending point) :
    Sound next.promotions next.pending ∧ Fits next.promotions next.pending point' := by
  cases advances with
  | proceeds proceeds => exact proceeds.sound sound fits
  | failed calls => exact ⟨sound, trivial⟩
  | pushed ok => exact ⟨sound, fits.1⟩
  | unpushed failed => exact ⟨sound, trivial⟩

theorem fits_enter (task : ChannelTask) : Fits promotions pending (enter channels task) := by
  cases task with
  | evaluatePush channel sha => trivial
  | jobsetComplete notice => trivial

theorem Fitting.of_running (fitting : service.Fitting) (running : service.handler = .running origin task point) :
    Fits service.promotions service.pending point := by
  rw [Fitting, running] at fitting
  exact fitting

theorem Fitting.of_frame (fitting : service.Fitting) (promotions : next.promotions = service.promotions)
    (pending : next.pending = service.pending) (handler : next.handler = service.handler) : next.Fitting := by
  rw [Fitting, promotions, pending, handler]
  exact fitting

theorem Steps.consistent (steps : Steps hasOctocrab channels service action next) (consistent : service.Consistent) :
    next.Consistent := by
  obtain ⟨sound, fitting⟩ := consistent
  cases steps with
  | enqueued up room => exact ⟨sound, fitting.of_frame rfl rfl rfl⟩
  | concluded up => exact ⟨sound, fitting.of_frame rfl rfl rfl⟩
  | crashed up => exact ⟨⟨sound.settled, fun _ _ none => (nomatch none), fun _ _ none => (nomatch none)⟩, trivial⟩
  | started down => exact ⟨sound, trivial⟩
  | unrecovered down => exact ⟨sound, trivial⟩
  | replayed done => exact ⟨sound, trivial⟩
  | @replays id task rest head => exact ⟨sound, fits_enter task⟩
  | @received task rest persisted idle head =>
    cases persisted with
    | true | false => exact ⟨sound, fits_enter task⟩
  | @finished origin task point answer running ended =>
    refine ⟨sound, ?_⟩
    cases origin with
    | replay id rest => trivial
    | dispatch id => trivial
  | advanced running advances =>
    obtain ⟨sound, fits⟩ := advances.sound sound (fitting.of_running running)
    exact ⟨sound, fits⟩

/-- A push that the forge has accepted is being recorded. -/
def recordsPush (service : ChannelService DrvId) : Bool :=
  match service.handler with
  | .running _ _ (.finalise _ _ (.promoted _) _) =>
    service.attempts.getLast?.any fun attempt => attempt.outcome = .accepted
  | _ => false

/-- The next call is that of the forge. -/
def pushes (service : ChannelService DrvId) : Bool :=
  match service.handler with
  | .running _ _ (.push _ _ _ _ _) => true
  | _ => false

/-- Calls of the database succeed, and the process does not end between a push and
the update of its row. -/
def Undisturbed (service : ChannelService DrvId) : ChannelAction DrvId → Prop
  | .start recovered => recovered = true
  | .receive persisted => persisted = true
  | .advance answer => answer = .fails → service.pushes = true
  | .crash => service.recordsPush = false
  | .enqueue _ | .conclude _ _ | .next => True

instance (service : ChannelService DrvId) : (action : ChannelAction DrvId) → Decidable (service.Undisturbed action)
  | .start _ => inferInstanceAs (Decidable (_ = _))
  | .receive _ => inferInstanceAs (Decidable (_ = _))
  | .advance _ => inferInstanceAs (Decidable (_ → _))
  | .crash => inferInstanceAs (Decidable (_ = _))
  | .enqueue _ | .conclude _ _ | .next => inferInstanceAs (Decidable True)

def PushAttempt.succeeded (channelId sha : String) (attempt : PushAttempt) : Bool :=
  attempt.outcome = .accepted ∧ attempt.channel.channelId = channelId ∧ attempt.sha = sha

/-- One evaluation for each channel, one push for each commit, which is the one in
flight, ready and not blocked; and a pending commit waits for another one. -/
structure Exclusive (service : ChannelService DrvId) : Prop where
  evaluations : ∀ channelId, (service.promotions.rows.filter fun row => row.isInFlight channelId).length ≤ 1
  pushes : ∀ channelId sha, (service.attempts.filter (PushAttempt.succeeded channelId sha)).length ≤ 1
  proper : ∀ attempt ∈ service.attempts, attempt.inFlight = some attempt.sha ∧
    (evaluatePromotion attempt.channel attempt.jobStates).isReady = true ∧ attempt.wasBlocked = false
  pending : ∀ channelId sha, service.pending channelId = some sha →
    ∃ row ∈ service.promotions.rows, row.isInFlight channelId ∧ row.trackingSha ≠ sha

/-- The handler is about to record that a commit was promoted. -/
def Recording (service : ChannelService DrvId) (channelId sha : String) : Prop :=
  ∃ origin task channel results rest, service.handler = .running origin task (.finalise channel sha (.promoted results) rest) ∧
    channel.channelId = channelId

theorem Proceeds.mem_rows (proceeds : Proceeds service point next point') (member : row ∈ service.promotions.rows)
    (done : row.status ≠ .evaluating) : row ∈ next.promotions.rows := by
  cases proceeds with
  | skipped => exact List.mem_append_left _ member
  | @opened channel sha promotions inserted =>
    have added := Promotions.rows_of_insertEvaluating inserted
    exact added ▸ List.mem_append_left _ member
  | concluded none => exact mem_finalise.mpr ⟨row, member, if_neg fun matched => done matched.2⟩
  | drained waits room => exact mem_finalise.mpr ⟨row, member, if_neg fun matched => done matched.2⟩
  | stuck waits full => exact mem_finalise.mpr ⟨row, member, if_neg fun matched => done matched.2⟩
  | _ => exact member

theorem exists_finalised (evaluates : promotions.Evaluates channelId sha) :
    ∃ row ∈ (promotions.finaliseEvaluation channelId sha verdict).rows,
      row.isFor channelId sha ∧ row.status = verdict.status := by
  obtain ⟨row, member, isFor, evaluating⟩ := evaluates
  refine ⟨_, mem_finalise.mpr ⟨row, member, rfl⟩, ?_, ?_⟩
  · rw [ChannelPromotionRow.isFor, Promotions.finaliseRow_channelId, Promotions.finaliseRow_trackingSha]
    exact isFor
  · rw [Promotions.finaliseRow, if_pos ⟨isFor, evaluating⟩]

theorem Proceeds.recorded {rest : List ChannelConfig}
    (proceeds : Proceeds service (.finalise channel sha (.promoted results) rest) next point')
    (evaluates : service.promotions.Evaluates channel.channelId sha) :
    ∃ row ∈ next.promotions.rows, row.isFor channel.channelId sha ∧ row.status = .promoted := by
  cases proceeds with
  | concluded none => exact exists_finalised evaluates
  | drained waits room => exact exists_finalised evaluates
  | stuck waits full => exact exists_finalised evaluates

structure PushedOnce (service : ChannelService DrvId) : Prop where
  recorded : ∀ attempt ∈ service.attempts, attempt.outcome = .accepted →
    (∃ row ∈ service.promotions.rows, row.isFor attempt.channel.channelId attempt.sha ∧ row.status = .promoted) ∨
      service.attempts.getLast? = some attempt ∧ service.Recording attempt.channel.channelId attempt.sha
  once : service.attempts.Pairwise fun first second => ∀ channelId sha,
    ¬ (PushAttempt.succeeded channelId sha first = true ∧ PushAttempt.succeeded channelId sha second = true)
  proper : ∀ attempt ∈ service.attempts, attempt.inFlight = some attempt.sha ∧
    (evaluatePromotion attempt.channel attempt.jobStates).isReady = true ∧ attempt.wasBlocked = false

theorem PushedOnce.promoted (pushed : service.PushedOnce)
    (elsewhere : ∀ channelId sha, ¬ service.Recording channelId sha) {attempt : PushAttempt}
    (member : attempt ∈ service.attempts) (accepted : attempt.outcome = .accepted) :
    ∃ row ∈ service.promotions.rows, row.isFor attempt.channel.channelId attempt.sha ∧ row.status = .promoted := by
  obtain promoted | ⟨-, recording⟩ := pushed.recorded attempt member accepted
  · exact promoted
  · exact absurd recording (elsewhere _ _)

theorem PushedOnce.of_frame (pushed : service.PushedOnce)
    (elsewhere : ∀ channelId sha, ¬ service.Recording channelId sha) (attempts : next.attempts = service.attempts)
    (kept : ∀ row ∈ service.promotions.rows, row.status ≠ .evaluating → row ∈ next.promotions.rows) : next.PushedOnce where
  recorded attempt member accepted := by
    rw [attempts] at member
    obtain ⟨row, stored, isFor, promoted⟩ := pushed.promoted elsewhere member accepted
    exact .inl ⟨row, kept row stored (by rw [promoted]; exact fun same => nomatch same), isFor, promoted⟩
  once := attempts ▸ pushed.once
  proper := attempts ▸ pushed.proper

theorem Recording.of_running (running : service.handler = .running origin task point)
    (recording : service.Recording channelId sha) :
    ∃ channel results rest, point = .finalise channel sha (.promoted results) rest ∧ channel.channelId = channelId := by
  obtain ⟨origin', task', channel, results, rest, running', same⟩ := recording
  rw [running] at running'
  cases running'
  exact ⟨channel, results, rest, rfl, same⟩

theorem Sound.not_evaluates (sound : Sound promotions pending) (member : row ∈ promotions.rows)
    (isFor : row.isFor channelId sha) (decided : row.status.isDecided = true) : ¬ promotions.Evaluates channelId sha := by
  rintro ⟨flying, member', isFor', evaluating⟩
  have kept : row.status ≠ .skipped := by
    intro skipped
    rw [skipped] at decided
    cases decided
  have same := sound.settled.unique member member' isFor isFor' kept (by rw [evaluating]; exact fun same => nomatch same)
  rw [same, evaluating] at decided
  cases decided

theorem PushedOnce.attempt (pushed : service.PushedOnce) (sound : Sound service.promotions service.pending)
    (elsewhere : ∀ channelId sha, ¬ service.Recording channelId sha) {jobStates : JobStates}
    (evaluates : service.promotions.Evaluates channel.channelId sha)
    (decision : evaluatePromotion channel jobStates = .ready results) {handler : ChannelHandler}
    {outcome : PushOutcome}
    (records : outcome = .accepted →
      ({ service.attempt channel sha jobStates outcome with handler := handler } : ChannelService DrvId).Recording
        channel.channelId sha) :
    PushedOnce { service.attempt channel sha jobStates outcome with handler := handler } where
  recorded attempt member accepted := by
    obtain earlier | rfl := mem_snoc.mp member
    · exact .inl (pushed.promoted elsewhere earlier accepted)
    · exact .inr ⟨List.getLast?_concat, records accepted⟩
  once := by
    refine List.pairwise_append.mpr ⟨pushed.once, List.pairwise_singleton _ _, ?_⟩
    rintro first member second last channelId commit ⟨succeeded, succeeded'⟩
    cases List.mem_singleton.mp last
    obtain ⟨accepted, rfl, rfl⟩ := of_decide_eq_true succeeded
    obtain ⟨-, sameChannel, sameSha⟩ := of_decide_eq_true succeeded'
    obtain ⟨row, stored, isFor, promoted⟩ := pushed.promoted elsewhere member accepted
    rw [← sameChannel, ← sameSha] at isFor
    exact sound.not_evaluates stored isFor (by rw [promoted]; rfl) evaluates
  proper attempt member := by
    obtain earlier | rfl := mem_snoc.mp member
    · exact pushed.proper attempt earlier
    · refine ⟨inFlightSha_eq_some.mpr evaluates, by rw [decision]; rfl, List.any_eq_false.mpr fun row stored blocked => ?_⟩
      obtain ⟨isFor, blocked⟩ := of_decide_eq_true blocked
      exact sound.not_evaluates stored isFor (by rw [blocked]; rfl) evaluates

theorem pushes_of_running (running : service.handler = .running origin task point) (pushes : service.pushes = true) :
    ∃ channel sha jobStates results rest, point = .push channel sha jobStates results rest := by
  rw [ChannelService.pushes, running] at pushes
  cases point with
  | push channel sha jobStates results rest => exact ⟨channel, sha, jobStates, results, rest, rfl⟩
  | _ => cases pushes

theorem PushedOnce.advanced (pushed : service.PushedOnce) (sound : Sound service.promotions service.pending)
    (running : service.handler = .running origin task point) (fits : Fits service.promotions service.pending point)
    (undisturbed : answer = .fails → service.pushes = true)
    (advances : Advances hasOctocrab service point answer next point') :
    PushedOnce { next with handler := .running origin task point' } := by
  cases advances with
  | proceeds proceeds =>
    by_cases records : ∃ channel sha results rest, point = .finalise channel sha (.promoted results) rest
    · obtain ⟨channel, sha, results, rest, rfl⟩ := records
      refine ⟨fun attempt member accepted => .inl ?_, ?_, ?_⟩
      · rw [proceeds.framed.attempts] at member
        obtain ⟨row, stored, isFor, promoted⟩ | ⟨-, recording⟩ := pushed.recorded attempt member accepted
        · exact ⟨row, proceeds.mem_rows stored (by rw [promoted]; exact fun same => nomatch same), isFor, promoted⟩
        · obtain ⟨channel', results', rest', same, sameId⟩ := recording.of_running running
          cases same
          rw [← sameId]
          exact proceeds.recorded fits
      · exact proceeds.framed.attempts ▸ pushed.once
      · exact proceeds.framed.attempts ▸ pushed.proper
    · refine pushed.of_frame (fun channelId sha recording => ?_) proceeds.framed.attempts fun row => proceeds.mem_rows
      obtain ⟨channel, results, rest, same, -⟩ := recording.of_running running
      exact records ⟨channel, sha, results, rest, same⟩
  | failed calls =>
    obtain ⟨channel, sha, jobStates, results, rest, rfl⟩ := pushes_of_running running (undisturbed rfl)
    cases calls
  | pushed ok =>
    refine pushed.attempt sound (fun channelId sha recording => ?_) fits.1 fits.2 fun accepted => ?_
    · obtain ⟨channel, results, rest, same, -⟩ := recording.of_running running
      cases same
    · exact ⟨_, _, _, _, _, rfl, rfl⟩
  | unpushed failed =>
    refine pushed.attempt sound (fun channelId sha recording => ?_) fits.1 fits.2 fun accepted => nomatch accepted
    obtain ⟨channel, results, rest, same, -⟩ := recording.of_running running
    cases same

theorem not_recording (idle : ∀ origin task point, service.handler ≠ .running origin task point) (channelId sha : String) :
    ¬ service.Recording channelId sha := by
  rintro ⟨origin, task, channel, results, rest, running, -⟩
  exact idle _ _ _ running

theorem Steps.recording_cases (steps : Steps hasOctocrab channels service action next) :
    (∃ origin task point point' answer next', action = .advance answer ∧ service.handler = .running origin task point ∧
      Advances hasOctocrab service point answer next' point' ∧ next = { next' with handler := .running origin task point' }) ∨
    next.attempts = service.attempts ∧ next.promotions = service.promotions ∧
      (next.handler = service.handler ∨ action = .crash ∨ ∀ channelId sha, ¬ service.Recording channelId sha) := by
  cases steps with
  | enqueued up room => exact .inr ⟨rfl, rfl, .inl rfl⟩
  | concluded up => exact .inr ⟨rfl, rfl, .inl rfl⟩
  | crashed up => exact .inr ⟨rfl, rfl, .inr (.inl rfl)⟩
  | started down =>
    exact .inr ⟨rfl, rfl, .inr (.inr (not_recording fun _ _ _ running => nomatch down.symm.trans running))⟩
  | unrecovered down =>
    exact .inr ⟨rfl, rfl, .inr (.inr (not_recording fun _ _ _ running => nomatch down.symm.trans running))⟩
  | replayed done =>
    exact .inr ⟨rfl, rfl, .inr (.inr (not_recording fun _ _ _ running => nomatch done.symm.trans running))⟩
  | replays head =>
    exact .inr ⟨rfl, rfl, .inr (.inr (not_recording fun _ _ _ running => nomatch head.symm.trans running))⟩
  | @received task rest persisted idle head =>
    have elsewhere := not_recording fun _ _ _ running => nomatch idle.symm.trans running
    cases persisted with
    | true | false => exact .inr ⟨rfl, rfl, .inr (.inr elsewhere)⟩
  | finished running ended =>
    refine .inr ⟨rfl, rfl, .inr (.inr fun channelId sha recording => ?_)⟩
    obtain ⟨channel, results, rest, rfl, -⟩ := recording.of_running running
    cases ended
  | advanced running advances => exact .inl ⟨_, _, _, _, _, _, rfl, running, advances, rfl⟩

theorem Steps.pushedOnce (steps : Steps hasOctocrab channels service action next) (consistent : service.Consistent)
    (pushed : service.PushedOnce) (undisturbed : service.Undisturbed action) : next.PushedOnce := by
  obtain ⟨origin, task, point, point', answer, next', rfl, running, advances, rfl⟩ |
    ⟨attempts, promotions, same | rfl | elsewhere⟩ := steps.recording_cases
  · exact pushed.advanced consistent.sound running (consistent.fitting.of_running running) undisturbed advances
  · refine ⟨?_, attempts ▸ pushed.once, attempts ▸ pushed.proper⟩
    simp only [Recording, attempts, promotions, same]
    exact pushed.recorded
  · refine ⟨fun attempt member accepted => .inl ?_, attempts ▸ pushed.once, attempts ▸ pushed.proper⟩
    rw [attempts] at member
    rw [promotions]
    obtain promoted | ⟨last, origin, task, channel, results, rest, running, -⟩ := pushed.recorded attempt member accepted
    · exact promoted
    · -- the process does not end here
      rw [Undisturbed, recordsPush, running] at undisturbed
      simp [last, accepted] at undisturbed
  · exact pushed.of_frame elsewhere attempts fun _ member _ => promotions ▸ member

theorem consistent_start (jobs : JobDatabase DrvId) : (start jobs).Consistent :=
  ⟨⟨.nil, fun _ _ none => (nomatch none), fun _ _ none => (nomatch none)⟩, trivial⟩

theorem run_consistent {good : ChannelService DrvId → ChannelAction DrvId → Prop} {jobs : JobDatabase DrvId}
    {actions : List (ChannelAction DrvId)} {final : ChannelService DrvId}
    (run : Run (step hasOctocrab channels) good (start jobs) actions final) : final.Consistent :=
  run.invariant (consistent_start jobs) fun _ _ _ consistent _ taken => (steps_of taken).consistent consistent

/-- In every undisturbed run, a channel evaluates one commit at a time and pushes
each one at most once, while its row is evaluated and it is ready. -/
theorem run_exclusive (hasOctocrab : Bool) (channels : List ChannelConfig) (jobs : JobDatabase DrvId)
    {actions : List (ChannelAction DrvId)} {final : ChannelService DrvId}
    (run : Run (step hasOctocrab channels) Undisturbed (start jobs) actions final) : final.Exclusive := by
  have kept : final.Consistent ∧ final.PushedOnce := by
    refine run.invariant (p := fun service => service.Consistent ∧ service.PushedOnce) ?_ ?_
    · refine ⟨consistent_start jobs, ?_, .nil, ?_⟩
      · exact List.forall_mem_nil _
      · exact List.forall_mem_nil _
    · intro service action next holds undisturbed taken
      have steps := steps_of taken
      exact ⟨steps.consistent holds.1, steps.pushedOnce holds.1 holds.2 undisturbed⟩
  refine ⟨fun channelId => ?_, fun channelId sha => ?_, kept.2.proper, kept.1.sound.awaits⟩
  · refine length_filter_le_one (final.promotions.single.imp fun unlike both => ?_)
    have first := of_decide_eq_true both.1
    have second := of_decide_eq_true both.2
    exact unlike first.2 second.2 (first.1.trans second.1.symm)
  · exact length_filter_le_one (kept.2.once.imp fun unlike => unlike channelId sha)

/-- A channel that nothing holds back. -/
def unstable : ChannelConfig := ⟨.gitHub, "ekala", "corepkgs", "unstable", "master", "release", [], [], false⟩

/-- A task is taken from the queue and handled with so many calls. -/
def handleTask (calls : Nat) : List (ChannelAction Nat) := .receive true :: List.replicate calls (.advance .succeeds)

/-- A commit is pushed and promoted, and its webhook comes again. -/
def promoteTwice : List (ChannelAction Nat) :=
  [.start true, .next, .enqueue (.evaluatePush unstable "c0ffee")] ++ handleTask 7 ++
    .enqueue (.evaluatePush unstable "c0ffee") :: handleTask 2

theorem promoteTwice_exclusive : ∃ final : ChannelService Nat,
    Run (step true [unstable]) Undisturbed (start (.empty fun _ => .queued)) promoteTwice final ∧
      final.attempts.length = 1 ∧ final.Exclusive :=
  exists_run_and_of_checkRun (by decide) fun _ run => run_exclusive _ _ _ run

end ChannelService

end EkaCI
