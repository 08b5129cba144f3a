import EkaCI.Channels.Exclusion

/-! What a push leaves behind. A push that is not accepted is never written down as
such: with an error status its commit counts as promoted, without an answer its
row stays open. Where every push is accepted, the rows tell the truth, and an open
row that can be decided has a task that will decide it. -/

namespace EkaCI

open Lib

variable {DrvId : Type}

def ChannelTask.channel? : ChannelTask → Option ChannelConfig
  | .evaluatePush channel _ => some channel
  | .jobsetComplete _ => none

/-- The task leads to another look at the commit. -/
def ChannelTask.wakes (channel : ChannelConfig) (sha : String) : ChannelTask → Bool
  | .evaluatePush _ _ => false
  | .jobsetComplete notice => channel.watches notice ∧ notice.sha = sha

def HandlerPoint.channels : HandlerPoint → List ChannelConfig
  | .lookup channel _ | .coalesce channel _ | .skip channel _ _ | .start channel _ => [channel]
  | .decide channel _ rest | .push channel _ _ _ rest | .finalise channel _ _ rest | .resend channel _ _ rest => channel :: rest
  | .visit _ rest => rest
  | .failed => []

/-- The handler will look at the commit, or has just decided it. -/
def HandlerPoint.LooksAt (channel : ChannelConfig) (sha : String) : HandlerPoint → Prop
  | .decide visited visitedSha rest | .push visited visitedSha _ _ rest | .finalise visited visitedSha _ rest =>
    sha = visitedSha ∧ (channel = visited ∨ channel ∈ rest)
  | .resend _ _ visitedSha rest | .visit visitedSha rest => sha = visitedSha ∧ channel ∈ rest
  | .lookup _ _ | .coalesce _ _ | .skip _ _ _ | .start _ _ | .failed => False

/-- The target branch is where the row says it is. -/
def PushOutcome.landed : PushOutcome → Bool
  | .dryRun | .accepted => true
  | .refused | .failed => false

/-- The builds of a commit decide about it. -/
def JobDatabase.decides (jobs : JobDatabase DrvId) (channel : ChannelConfig) (sha : String) : Bool :=
  let decision := evaluatePromotion channel (jobs.snapshotJobStates channel sha)
  decision.isReady || decision.isBlocked

namespace ChannelService

/-- The tasks of the journal that are still to be replayed. -/
def toReplay (service : ChannelService DrvId) : List ChannelTask :=
  match service.handler with
  | .down => service.journal.map Prod.snd
  | .replaying rest | .running (.replay _ rest) _ _ => rest.map Prod.snd
  | .idle | .running (.dispatch _) _ _ => []

/-- The tasks that are still to come. -/
def upcoming (service : ChannelService DrvId) : List ChannelTask := service.queue ++ service.toReplay

/-- What was pushed is promoted, what was not is marked and has made way, and the
handler may be writing it down. -/
structure Honest (service : ChannelService DrvId) : Prop where
  promoted : ∀ attempt ∈ service.attempts, ¬ service.Recording attempt.channel.channelId attempt.sha →
    ((service.promotions.getLatestForSha attempt.channel.channelId attempt.sha).map ChannelPromotionRow.status =
      some .promoted ↔ attempt.outcome.landed = true)
  failed : ∀ attempt ∈ service.attempts, ¬ service.Recording attempt.channel.channelId attempt.sha →
    attempt.outcome.landed = false →
    (service.promotions.getLatestForSha attempt.channel.channelId attempt.sha).map ChannelPromotionRow.status =
        some .pushFailed ∧
      ∀ waiting, service.pending attempt.channel.channelId = some waiting →
        ∃ row ∈ service.promotions.rows, row.isInFlight attempt.channel.channelId ∧ row.trackingSha ≠ attempt.sha

variable (hasOctocrab : Bool) (channels : List ChannelConfig)

/-- Without a task, no open row can be decided. -/
def Unwedged (service : ChannelService DrvId) : Prop :=
  service.handler = .idle → service.queue = [] →
    ∀ channel ∈ channels, ∀ sha ∈ service.inFlightSha channel, service.jobs.decides channel sha = false

/-- Every open row that can be decided has a task among these. -/
def Covered (service : ChannelService DrvId) (tasks : List ChannelTask) : Prop :=
  ∀ channel ∈ channels, ∀ sha ∈ service.inFlightSha channel, service.jobs.decides channel sha = true →
    ∃ task ∈ tasks, task.wakes channel sha = true

/-- The handler is about to record some push. -/
def isRecording (service : ChannelService DrvId) : Bool :=
  match service.handler with
  | .running _ _ (.finalise _ _ (.promoted _) _) => true
  | _ => false

def callsDatabase (service : ChannelService DrvId) : Bool :=
  match service.handler with
  | .running _ _ point => point.callsDatabase
  | _ => false

/-- How the push ends that is the next call. -/
def outcome? (service : ChannelService DrvId) (answer : CallAnswer) : Option PushOutcome :=
  match service.handler with
  | .running _ _ (.push channel _ _ _ _) => some (performPromotion hasOctocrab channel answer)
  | _ => none

/-- The forge accepts every push, the builds that decide an open row are announced,
and neither a crash nor an error of the database loses the last task for one. -/
def Smooth (service : ChannelService DrvId) : ChannelAction DrvId → Prop
  | .enqueue task => ∀ channel ∈ task.channel?, channel ∈ channels
  | .conclude jobs notices =>
    ∀ channel ∈ channels, ∀ sha ∈ service.inFlightSha channel, jobs.decides channel sha = true →
      service.jobs.decides channel sha = true ∨
        ∃ task ∈ notices.map ChannelTask.jobsetComplete, task.wakes channel sha = true
  | .crash => service.isRecording = false ∧ service.Covered channels (service.journal.map Prod.snd)
  | .start recovered => recovered = true ∨ service.Covered channels service.queue
  | .next | .receive _ => True
  | .advance answer =>
    (∀ outcome ∈ service.outcome? hasOctocrab answer, outcome.landed = true) ∧
      (answer = .fails → service.callsDatabase = true →
        service.isRecording = false ∧ service.Covered channels service.upcoming)

section Decidable

variable (service : ChannelService DrvId)

instance (tasks : List ChannelTask) : Decidable (service.Covered channels tasks) :=
  inferInstanceAs (Decidable (∀ channel ∈ channels, ∀ sha ∈ service.inFlightSha channel,
    service.jobs.decides channel sha = true → ∃ task ∈ tasks, task.wakes channel sha = true))

instance : (action : ChannelAction DrvId) → Decidable (service.Smooth hasOctocrab channels action)
  | .enqueue task => inferInstanceAs (Decidable (∀ channel ∈ task.channel?, channel ∈ channels))
  | .conclude jobs notices =>
    inferInstanceAs (Decidable (∀ channel ∈ channels, ∀ sha ∈ service.inFlightSha channel, jobs.decides channel sha = true →
      service.jobs.decides channel sha = true ∨
        ∃ task ∈ notices.map ChannelTask.jobsetComplete, task.wakes channel sha = true))
  | .crash => inferInstanceAs (Decidable (_ ∧ _))
  | .start _ => inferInstanceAs (Decidable (_ ∨ _))
  | .next | .receive _ => inferInstanceAs (Decidable True)
  | .advance answer =>
    inferInstanceAs (Decidable ((∀ outcome ∈ service.outcome? hasOctocrab answer, outcome.landed = true) ∧
      (answer = .fails → service.callsDatabase = true →
        service.isRecording = false ∧ service.Covered channels service.upcoming)))

end Decidable

variable {hasOctocrab channels} {service next : ChannelService DrvId}

/-- Every push has landed, and its row says so or is about to. -/
structure Landed (service : ChannelService DrvId) : Prop where
  landed : ∀ attempt ∈ service.attempts, attempt.outcome.landed = true
  recorded : ∀ attempt ∈ service.attempts,
    (∃ row ∈ service.promotions.rows, row.isFor attempt.channel.channelId attempt.sha ∧ row.status = .promoted) ∨
      service.Recording attempt.channel.channelId attempt.sha

theorem Landed.honest (landed : service.Landed) (settled : service.promotions.Settled) : service.Honest where
  promoted attempt member settles := by
    refine ⟨fun _ => landed.landed attempt member, fun _ => ?_⟩
    obtain ⟨row, stored, isFor, promoted⟩ := (landed.recorded attempt member).resolve_right settles
    rw [Promotions.getLatestForSha_eq settled stored isFor (by rw [promoted]; exact fun same => nomatch same)]
    exact congrArg some promoted
  failed attempt member _ failed := by
    rw [landed.landed attempt member] at failed
    cases failed

theorem Landed.of_frame (landed : service.Landed) (elsewhere : ∀ channelId sha, ¬ service.Recording channelId sha)
    (attempts : next.attempts = service.attempts)
    (kept : ∀ row ∈ service.promotions.rows, row.status ≠ .evaluating → row ∈ next.promotions.rows) : next.Landed where
  landed := attempts ▸ landed.landed
  recorded attempt member := by
    rw [attempts] at member
    obtain ⟨row, stored, isFor, promoted⟩ := (landed.recorded attempt member).resolve_right (elsewhere _ _)
    exact .inl ⟨row, kept row stored (by rw [promoted]; exact fun same => nomatch same), isFor, promoted⟩

theorem not_recording_of_isRecording (elsewhere : service.isRecording = false) (channelId sha : String) :
    ¬ service.Recording channelId sha := by
  rintro ⟨origin, task, channel, results, rest, running, -⟩
  rw [isRecording, running] at elsewhere
  cases elsewhere

variable {origin : TaskOrigin} {point point' : HandlerPoint} {task : ChannelTask} {answer : CallAnswer}
  {channel : ChannelConfig} {rest : List ChannelConfig} {sha : String} {action : ChannelAction DrvId}
  {promotions : Promotions} {verdict : Verdict}

theorem Smooth.of_fails (smooth : service.Smooth hasOctocrab channels (.advance .fails))
    (running : service.handler = .running origin task point) (calls : point.callsDatabase = true) :
    service.isRecording = false ∧ service.Covered channels service.upcoming := by
  apply smooth.2 rfl
  rw [callsDatabase, running]
  exact calls

theorem Smooth.of_push {jobStates : JobStates} {results : RequiredResults}
    (smooth : service.Smooth hasOctocrab channels (.advance answer))
    (running : service.handler = .running origin task (.push channel sha jobStates results rest)) :
    (performPromotion hasOctocrab channel answer).landed = true := by
  apply smooth.1 _
  rw [outcome?, running]
  rfl

theorem Landed.advance (landed : service.Landed) (running : service.handler = .running origin task point)
    (fits : Fits service.promotions service.pending point)
    (smooth : service.Smooth hasOctocrab channels (.advance answer))
    (advances : Advances hasOctocrab service point answer next point') :
    Landed { next with handler := .running origin task point' } := by
  cases advances with
  | proceeds proceeds =>
    refine ⟨proceeds.framed.attempts ▸ landed.landed, fun attempt member => .inl ?_⟩
    obtain ⟨row, stored, isFor, promoted⟩ | recording := landed.recorded attempt (proceeds.framed.attempts ▸ member)
    · exact ⟨row, proceeds.mem_rows stored (by rw [promoted]; exact fun same => nomatch same), isFor, promoted⟩
    · obtain ⟨channel, results, rest, rfl, same⟩ := recording.of_running running
      rw [← same]
      exact proceeds.recorded fits
  | failed calls =>
    have elsewhere := not_recording_of_isRecording (smooth.of_fails running calls).1
    exact landed.of_frame elsewhere rfl fun _ member _ => member
  | @pushed channel sha jobStates results rest answer ok =>
    refine ⟨fun attempt member => ?_, fun attempt member => ?_⟩
    · obtain earlier | rfl := mem_snoc.mp member
      · exact landed.landed attempt earlier
      · exact smooth.of_push running
    · obtain earlier | rfl := mem_snoc.mp member
      · refine .inl ((landed.recorded attempt earlier).resolve_right fun recording => ?_)
        obtain ⟨channel, results, rest, same, -⟩ := recording.of_running running
        cases same
      · exact .inr ⟨_, _, _, _, _, rfl, rfl⟩
  | unpushed failed =>
    have smooth := smooth.of_push running
    rw [failed] at smooth
    cases smooth

theorem Steps.landed (steps : Steps hasOctocrab channels service action next) (consistent : service.Consistent)
    (landed : service.Landed) (smooth : service.Smooth hasOctocrab channels action) : next.Landed := by
  obtain ⟨origin, task, point, point', answer, next', rfl, running, advances, rfl⟩ |
    ⟨attempts, promotions, same | rfl | elsewhere⟩ := steps.recording_cases
  · exact landed.advance running (consistent.fitting.of_running running) smooth advances
  · refine ⟨attempts ▸ landed.landed, ?_⟩
    simp only [Recording, attempts, promotions, same]
    exact landed.recorded
  · exact landed.of_frame (not_recording_of_isRecording smooth.1) attempts fun _ member _ => promotions ▸ member
  · exact landed.of_frame elsewhere attempts fun _ member _ => promotions ▸ member

def NeverMarked (promotions : Promotions) : Prop := ∀ row ∈ promotions.rows, row.status ≠ .pushFailed

theorem NeverMarked.finalise (never : NeverMarked promotions) (channelId sha : String) (verdict : Verdict) :
    NeverMarked (promotions.finaliseEvaluation channelId sha verdict) := by
  intro row member
  obtain ⟨stored, old, rfl⟩ := mem_finalise.mp member
  unfold Promotions.finaliseRow
  split
  · cases verdict with
    | promoted results => exact fun marked => nomatch marked
    | blocked failed results => exact fun marked => nomatch marked
  · exact never stored old

theorem NeverMarked.append {promotions' : Promotions} {row : ChannelPromotionRow} (never : NeverMarked promotions)
    (added : promotions'.rows = promotions.rows ++ [row]) (other : row.status ≠ .pushFailed) :
    NeverMarked promotions' := by
  intro stored member
  rw [added] at member
  obtain old | last := mem_snoc.mp member
  · exact never stored old
  · rw [last]
    exact other

theorem Proceeds.neverMarked (proceeds : Proceeds service point next point') (never : NeverMarked service.promotions) :
    NeverMarked next.promotions := by
  cases proceeds with
  | skipped => exact never.append rfl fun marked => nomatch marked
  | opened inserted => exact never.append (Promotions.rows_of_insertEvaluating inserted) fun marked => nomatch marked
  | concluded none => exact never.finalise _ _ _
  | drained waits room => exact never.finalise _ _ _
  | stuck waits full => exact never.finalise _ _ _
  | _ => exact never

theorem Steps.neverMarked (steps : Steps hasOctocrab channels service action next)
    (never : NeverMarked service.promotions) : NeverMarked next.promotions := by
  obtain ⟨origin, task, point, point', answer, next', rfl, running, advances, rfl⟩ | ⟨-, promotions, -⟩ := steps.recording_cases
  · cases advances with
    | proceeds proceeds => exact proceeds.neverMarked never
    | failed calls => exact never
    | pushed ok => exact never
    | unpushed failed => exact never
  · exact promotions ▸ never

theorem landed_of_honest {good : ChannelService DrvId → ChannelAction DrvId → Prop} {jobs : JobDatabase DrvId}
    {actions : List (ChannelAction DrvId)} {final : ChannelService DrvId}
    (run : Run (step hasOctocrab channels) good (start jobs) actions final) (honest : final.Honest)
    {attempt : PushAttempt} (member : attempt ∈ final.attempts)
    (settles : ¬ final.Recording attempt.channel.channelId attempt.sha) : attempt.outcome.landed = true := by
  have never : NeverMarked final.promotions := by
    refine run.invariant (p := fun service => NeverMarked service.promotions) ?_ ?_
    · exact List.forall_mem_nil _
    · exact fun service action next never _ taken => (steps_of taken).neverMarked never
  by_contra lost
  obtain ⟨marked, -⟩ := honest.failed attempt member settles (Bool.not_eq_true _ |>.mp lost)
  obtain ⟨row, latest, marked⟩ := Option.map_eq_some_iff.mp marked
  exact never row (List.mem_reverse.mp (List.mem_of_find?_eq_some latest)) marked

theorem Proceeds.channels_subset (proceeds : Proceeds service point next point') :
    ∀ channel ∈ point'.channels, channel ∈ point.channels := by
  cases proceeds with
  | passed other => exact fun channel member => List.mem_cons_of_mem _ member
  | waiting decision => exact fun channel member => List.mem_cons_of_mem _ member
  | concluded none => exact fun channel member => List.mem_cons_of_mem _ member
  | drained waits room => exact fun channel member => List.mem_cons_of_mem _ member
  | resent room => exact fun channel member => List.mem_cons_of_mem _ member
  | decided known => exact List.forall_mem_nil _
  | duplicate inFlight same => exact List.forall_mem_nil _
  | deferred inFlight other free => exact List.forall_mem_nil _
  | skipped => exact List.forall_mem_nil _
  | occupied refused => exact List.forall_mem_nil _
  | _ => exact fun channel member => member

theorem Proceeds.queue_eq (proceeds : Proceeds service point next point') :
    next.queue = service.queue ∨
      ∃ channel ∈ point.channels, ∃ sha, next.queue = service.queue ++ [.evaluatePush channel sha] := by
  cases proceeds with
  | drained waits room => exact .inr ⟨_, List.mem_cons_self, _, rfl⟩
  | resent room => exact .inr ⟨_, List.mem_cons_self, _, rfl⟩
  | _ => exact .inl rfl

theorem evaluates_of_finalise {channelId other otherSha : String}
    (evaluates : (promotions.finaliseEvaluation channelId sha verdict).Evaluates other otherSha) :
    promotions.Evaluates other otherSha ∧ (other = channelId → otherSha ≠ sha) := by
  obtain ⟨row, member, isFor, evaluating⟩ := evaluates
  obtain ⟨stored, old, rfl⟩ := mem_finalise.mp member
  have kept := Promotions.finaliseRow_of_status channelId sha rfl evaluating
  rw [kept] at isFor evaluating
  refine ⟨⟨stored, old, isFor, evaluating⟩, ?_⟩
  rintro rfl rfl
  rw [Promotions.finaliseRow, if_pos ⟨isFor, evaluating⟩] at kept
  have status : verdict.status = stored.status := congrArg ChannelPromotionRow.status kept
  have decided := verdict.isDecided_status
  rw [status, evaluating] at decided
  cases decided

theorem looksAt_of_finalise {visited : ChannelConfig} {visitedSha : String}
    (flying : (promotions.finaliseEvaluation visited.channelId visitedSha verdict).Evaluates channel.channelId sha) :
    promotions.Evaluates channel.channelId sha ∧
      ((HandlerPoint.finalise visited visitedSha verdict rest).LooksAt channel sha → sha = visitedSha ∧ channel ∈ rest) := by
  obtain ⟨evaluates, other⟩ := evaluates_of_finalise flying
  refine ⟨evaluates, ?_⟩
  rintro ⟨rfl, rfl | later⟩
  · exact absurd rfl (other rfl)
  · exact ⟨rfl, later⟩

/-- An open row that can be decided was open before, and the handler keeps its eye on
it, or the handler has just opened it. -/
theorem Proceeds.looksAt (proceeds : Proceeds service point next point')
    (distinct : ∀ first ∈ channels, ∀ second ∈ channels, first.channelId = second.channelId → first = second)
    (registered : ∀ channel ∈ point.channels, channel ∈ channels) (member : channel ∈ channels)
    (flying : next.promotions.Evaluates channel.channelId sha) (decides : service.jobs.decides channel sha = true) :
    service.promotions.Evaluates channel.channelId sha ∧ (point.LooksAt channel sha → point'.LooksAt channel sha) ∨
      point'.LooksAt channel sha := by
  cases proceeds with
  | skipped =>
    obtain ⟨row, stored, isFor, evaluating⟩ := flying
    obtain old | last := mem_snoc.mp stored
    · exact .inl ⟨⟨row, old, isFor, evaluating⟩, False.elim⟩
    · rw [last] at evaluating
      cases evaluating
  | @opened opened openedSha promotions inserted =>
    obtain ⟨row, stored, isFor, evaluating⟩ := flying
    rw [Promotions.rows_of_insertEvaluating inserted] at stored
    obtain old | last := mem_snoc.mp stored
    · exact .inl ⟨⟨row, old, isFor, evaluating⟩, False.elim⟩
    · rw [last] at isFor
      have same := distinct channel member opened (registered opened List.mem_cons_self) isFor.1.symm
      exact .inr ⟨isFor.2.symm, .inl same⟩
  | waiting decision =>
    refine .inl ⟨flying, ?_⟩
    rintro ⟨rfl, rfl | later⟩
    · rw [JobDatabase.decides, decision] at decides
      cases decides
    · exact ⟨rfl, later⟩
  | concluded none => exact .inl (looksAt_of_finalise flying)
  | drained waits room => exact .inl (looksAt_of_finalise flying)
  | stuck waits full => exact .inl (looksAt_of_finalise flying)
  | revisited inFlight =>
    refine .inl ⟨flying, ?_⟩
    rintro ⟨rfl, visited⟩
    exact ⟨rfl, List.mem_cons.mp visited⟩
  | passed other =>
    refine .inl ⟨flying, ?_⟩
    rintro ⟨rfl, visited⟩
    obtain rfl | later := List.mem_cons.mp visited
    · exact absurd (inFlightSha_eq_some.mpr flying) other
    · exact ⟨rfl, later⟩
  | ready decision => exact .inl ⟨flying, id⟩
  | blocked decision => exact .inl ⟨flying, id⟩
  | resent room => exact .inl ⟨flying, id⟩
  | _ => exact .inl ⟨flying, False.elim⟩

/-- The handler has the commit before it. -/
def LooksAt (service : ChannelService DrvId) (channel : ChannelConfig) (sha : String) : Prop :=
  ∃ origin task point, service.handler = .running origin task point ∧ point.LooksAt channel sha

/-- Something will look at the commit. -/
def Attends (service : ChannelService DrvId) (channel : ChannelConfig) (sha : String) : Prop :=
  (∃ task ∈ service.upcoming, task.wakes channel sha = true) ∨ service.LooksAt channel sha

/-- The tasks are about channels of the registry, and the open rows that can be
decided are attended to. -/
structure Attentive (channels : List ChannelConfig) (service : ChannelService DrvId) : Prop where
  upcoming : ∀ task ∈ service.upcoming, ∀ channel ∈ task.channel?, channel ∈ channels
  journal : ∀ entry ∈ service.journal, ∀ channel ∈ entry.2.channel?, channel ∈ channels
  point : ∀ origin task point, service.handler = .running origin task point → ∀ channel ∈ point.channels, channel ∈ channels
  attends : ∀ channel ∈ channels, ∀ sha, service.promotions.Evaluates channel.channelId sha →
    service.jobs.decides channel sha = true → service.Attends channel sha

theorem Attentive.unwedged (attentive : service.Attentive channels) : service.Unwedged channels := by
  intro idle empty channel member sha flying
  by_contra decides
  have decides := Bool.not_eq_false _ |>.mp decides
  obtain ⟨task, coming, -⟩ | ⟨origin, task, point, running, -⟩ :=
    attentive.attends channel member sha (inFlightSha_eq_some.mp flying) decides
  · rw [ChannelService.upcoming, toReplay, empty, idle] at coming
    exact absurd coming List.not_mem_nil
  · rw [idle] at running
    cases running

theorem mem_upcoming : task ∈ service.upcoming ↔ task ∈ service.queue ∨ task ∈ service.toReplay :=
  List.mem_append

theorem Attentive.append {added : List ChannelTask} (attentive : service.Attentive channels)
    (queue : next.queue = service.queue ++ added) (handler : next.handler = service.handler)
    (journal : next.journal = service.journal) (promotions : next.promotions = service.promotions)
    (registered : ∀ task ∈ added, ∀ channel ∈ task.channel?, channel ∈ channels)
    (announced : ∀ channel ∈ channels, ∀ sha ∈ service.inFlightSha channel, next.jobs.decides channel sha = true →
      service.jobs.decides channel sha = true ∨ ∃ task ∈ added, task.wakes channel sha = true) :
    next.Attentive channels := by
  have replays : next.toReplay = service.toReplay := by rw [toReplay, toReplay, handler, journal]
  have coming : ∀ task, task ∈ next.upcoming ↔ task ∈ service.upcoming ∨ task ∈ added := by
    intro task
    rw [mem_upcoming, mem_upcoming, queue, replays, List.mem_append, or_right_comm]
  refine ⟨fun task member => ?_, journal ▸ attentive.journal, handler ▸ attentive.point, fun channel member sha flying decides => ?_⟩
  · exact ((coming task).mp member).elim (attentive.upcoming task) (registered task)
  · rw [promotions] at flying
    obtain before | ⟨task, new, wakes⟩ := announced channel member sha (inFlightSha_eq_some.mpr flying) decides
    · obtain ⟨task, old, wakes⟩ | ⟨origin, task, point, running, looks⟩ := attentive.attends channel member sha flying before
      · exact .inl ⟨task, (coming task).mpr (.inl old), wakes⟩
      · exact .inr ⟨origin, task, point, handler.trans running, looks⟩
    · exact .inl ⟨task, (coming task).mpr (.inr new), wakes⟩

theorem Attentive.of_covered {tasks : List ChannelTask} (covered : service.Covered channels tasks)
    (promotions : next.promotions = service.promotions) (jobs : next.jobs = service.jobs)
    (coming : next.upcoming = tasks) (registered : ∀ task ∈ tasks, ∀ channel ∈ task.channel?, channel ∈ channels)
    (journal : ∀ entry ∈ next.journal, ∀ channel ∈ entry.2.channel?, channel ∈ channels)
    (point : ∀ origin task point, next.handler = .running origin task point → point.channels = []) :
    next.Attentive channels where
  upcoming := coming ▸ registered
  journal := journal
  point origin task at_ running channel member := by
    rw [point origin task at_ running] at member
    exact absurd member List.not_mem_nil
  attends channel member sha flying decides := by
    rw [promotions] at flying
    rw [jobs] at decides
    obtain ⟨task, member, wakes⟩ := covered channel member sha (inFlightSha_eq_some.mpr flying) decides
    exact .inl ⟨task, coming ▸ member, wakes⟩

theorem channels_enter (registered : ∀ channel ∈ task.channel?, channel ∈ channels) :
    ∀ channel ∈ (enter channels task).channels, channel ∈ channels := by
  cases task with
  | evaluatePush pushed sha =>
    intro channel member
    rw [List.mem_singleton.mp member]
    exact registered pushed rfl
  | jobsetComplete notice => exact fun channel member => (List.mem_filter.mp member).1

theorem looksAt_enter (member : channel ∈ channels) (wakes : task.wakes channel sha = true) :
    (enter channels task).LooksAt channel sha := by
  cases task with
  | evaluatePush pushed pushedSha => cases wakes
  | jobsetComplete notice =>
    obtain ⟨watches, same⟩ := of_decide_eq_true wakes
    exact ⟨same.symm, List.mem_filter.mpr ⟨member, watches⟩⟩

theorem Attentive.enter (attentive : service.Attentive channels)
    (resting : ∀ origin task point, service.handler ≠ .running origin task point)
    (running : next.handler = .running origin task (enter channels task))
    (promotions : next.promotions = service.promotions) (jobs : next.jobs = service.jobs)
    (coming : ∀ other, other ∈ service.upcoming ↔ other = task ∨ other ∈ next.upcoming)
    (journal : ∀ entry ∈ next.journal, entry ∈ service.journal ∨ entry.2 = task) : next.Attentive channels where
  upcoming other member := attentive.upcoming other ((coming other).mpr (.inr member))
  journal entry member := by
    obtain old | same := journal entry member
    · exact attentive.journal entry old
    · rw [same]
      exact attentive.upcoming task ((coming task).mpr (.inl rfl))
  point origin' task' point running' := by
    cases running.symm.trans running'
    exact channels_enter (attentive.upcoming task ((coming task).mpr (.inl rfl)))
  attends channel member sha flying decides := by
    rw [promotions] at flying
    rw [jobs] at decides
    obtain ⟨other, expected, wakes⟩ | ⟨origin', task', point, running', -⟩ := attentive.attends channel member sha flying decides
    · obtain rfl | later := (coming other).mp expected
      · exact .inr ⟨_, _, _, running, looksAt_enter member wakes⟩
      · exact .inl ⟨other, later, wakes⟩
    · exact absurd running' (resting _ _ _)

theorem toReplay_of_running {task' : ChannelTask} (running : service.handler = .running origin task point)
    (running' : next.handler = .running origin task' point') : next.toReplay = service.toReplay := by
  rw [toReplay, toReplay, running, running']
  cases origin with
  | replay id rest => rfl
  | dispatch id => rfl

theorem Attentive.proceed (attentive : service.Attentive channels)
    (distinct : ∀ first ∈ channels, ∀ second ∈ channels, first.channelId = second.channelId → first = second)
    (running : service.handler = .running origin task point) (proceeds : Proceeds service point next point') :
    Attentive channels { next with handler := .running origin task point' } := by
  have registered := attentive.point _ _ _ running
  have toReplay : toReplay { next with handler := .running origin task point' } = service.toReplay :=
    toReplay_of_running running rfl
  have grows : ∀ other ∈ service.upcoming, other ∈ ChannelService.upcoming { next with handler := .running origin task point' } := by
    intro other coming
    rw [ChannelService.upcoming, toReplay]
    obtain queued | replayed := List.mem_append.mp coming
    · exact List.mem_append_left _ (proceeds.queue_subset queued)
    · exact List.mem_append_right _ replayed
  refine ⟨fun other coming => ?_, ?_, ?_, fun channel member sha flying decides => ?_⟩
  · rw [ChannelService.upcoming, toReplay] at coming
    obtain queued | replayed := List.mem_append.mp coming
    · obtain same | ⟨channel, mine, sha, added⟩ := proceeds.queue_eq
      · exact attentive.upcoming other (List.mem_append_left _ (same ▸ queued))
      · obtain old | rfl := mem_snoc.mp (added ▸ queued)
        · exact attentive.upcoming other (List.mem_append_left _ old)
        · rintro _ ⟨⟩
          exact registered channel mine
    · exact attentive.upcoming other (List.mem_append_right _ replayed)
  · exact proceeds.framed.journal ▸ attentive.journal
  · rintro _ _ _ ⟨⟩ channel mine
    exact registered channel (proceeds.channels_subset channel mine)
  · rw [proceeds.framed.jobs] at decides
    obtain ⟨flying, keeps⟩ | looks := proceeds.looksAt distinct registered member flying decides
    · obtain ⟨other, coming, wakes⟩ | ⟨origin', task', point, running', looks⟩ :=
        attentive.attends channel member sha flying decides
      · exact .inl ⟨other, grows other coming, wakes⟩
      · cases running.symm.trans running'
        exact .inr ⟨_, _, _, rfl, keeps looks⟩
    · exact .inr ⟨_, _, _, rfl, looks⟩

theorem Attentive.advance (attentive : service.Attentive channels)
    (distinct : ∀ first ∈ channels, ∀ second ∈ channels, first.channelId = second.channelId → first = second)
    (running : service.handler = .running origin task point)
    (smooth : service.Smooth hasOctocrab channels (.advance answer))
    (advances : Advances hasOctocrab service point answer next point') :
    Attentive channels { next with handler := .running origin task point' } := by
  cases advances with
  | proceeds proceeds => exact attentive.proceed distinct running proceeds
  | failed calls =>
    have same : ChannelService.upcoming { service with handler := .running origin task .failed } = service.upcoming :=
      congrArg (service.queue ++ ·) (toReplay_of_running running rfl)
    refine .of_covered (smooth.of_fails running calls).2 rfl rfl same attentive.upcoming attentive.journal ?_
    rintro _ _ _ ⟨⟩
    rfl
  | @pushed channel sha jobStates results rest answer ok =>
    have same : ChannelService.upcoming
        { service.attempt channel sha jobStates (performPromotion hasOctocrab channel answer) with
          handler := .running origin task (.finalise channel sha (.promoted results) rest) } = service.upcoming :=
      congrArg (service.queue ++ ·) (toReplay_of_running running rfl)
    refine ⟨same ▸ attentive.upcoming, attentive.journal, ?_, fun channel member sha flying decides => ?_⟩
    · have registered := attentive.point _ _ _ running
      rintro _ _ _ ⟨⟩
      exact registered
    · obtain ⟨other, coming, wakes⟩ | ⟨origin', task', point, running', looks⟩ :=
        attentive.attends channel member sha flying decides
      · exact .inl ⟨other, same ▸ coming, wakes⟩
      · cases running.symm.trans running'
        exact .inr ⟨_, _, _, rfl, looks⟩
  | unpushed failed =>
    have smooth := smooth.of_push running
    rw [failed] at smooth
    cases smooth

theorem Attentive.toRest (attentive : service.Attentive channels) (promotions : next.promotions = service.promotions)
    (jobs : next.jobs = service.jobs) (same : next.upcoming = service.upcoming)
    (journal : ∀ entry ∈ next.journal, entry ∈ service.journal) (blind : ∀ channel sha, ¬ service.LooksAt channel sha)
    (resting : ∀ origin task point, next.handler ≠ .running origin task point) : next.Attentive channels where
  upcoming := same ▸ attentive.upcoming
  journal entry member := attentive.journal entry (journal entry member)
  point origin task point running := absurd running (resting _ _ _)
  attends channel member sha flying decides := by
    rw [promotions] at flying
    rw [jobs] at decides
    refine .inl ?_
    rw [same]
    exact (attentive.attends channel member sha flying decides).resolve_right (blind channel sha)

theorem not_looksAt (resting : ∀ origin task point, service.handler ≠ .running origin task point) (channel : ChannelConfig)
    (sha : String) : ¬ service.LooksAt channel sha := by
  rintro ⟨origin, task, point, running, -⟩
  exact resting _ _ _ running

theorem not_looksAt_of_isOver (running : service.handler = .running origin task point) (ended : point.isOver = true)
    (channel : ChannelConfig) (sha : String) : ¬ service.LooksAt channel sha := by
  rintro ⟨origin', task', point', running', looks⟩
  cases running.symm.trans running'
  cases point with
  | visit visited rest =>
    cases rest with
    | nil => exact absurd looks.2 List.not_mem_nil
    | cons first rest => cases ended
  | failed => exact looks
  | _ => cases ended

theorem Steps.attentive (steps : Steps hasOctocrab channels service action next)
    (distinct : ∀ first ∈ channels, ∀ second ∈ channels, first.channelId = second.channelId → first = second)
    (attentive : service.Attentive channels) (smooth : service.Smooth hasOctocrab channels action) :
    next.Attentive channels := by
  cases steps with
  | @enqueued task up room =>
    refine attentive.append rfl rfl rfl rfl (fun other last => ?_) fun _ _ _ _ decides => .inl decides
    rw [List.mem_singleton.mp last]
    exact smooth
  | @concluded jobs notices up =>
    refine attentive.append rfl rfl rfl rfl (fun other announced => ?_) smooth
    obtain ⟨notice, -, rfl⟩ := List.mem_map.mp announced
    exact fun channel none => nomatch none
  | crashed up =>
    refine .of_covered smooth.2 rfl rfl rfl (fun task coming => ?_) attentive.journal fun _ _ _ running => nomatch running
    obtain ⟨entry, member, rfl⟩ := List.mem_map.mp coming
    exact attentive.journal entry member
  | started down =>
    refine attentive.toRest rfl rfl ?_ (fun _ member => member)
      (not_looksAt fun _ _ _ running => nomatch down.symm.trans running) fun _ _ _ running => nomatch running
    rw [upcoming, upcoming, toReplay, toReplay, down]
  | unrecovered down =>
    have covered := smooth.resolve_left fun recovered => nomatch recovered
    refine .of_covered covered rfl rfl ?_ (fun task queued => ?_) attentive.journal fun _ _ _ running => nomatch running
    · rw [upcoming, toReplay, List.append_nil]
    · exact attentive.upcoming task (List.mem_append_left _ queued)
  | replayed done =>
    refine attentive.toRest rfl rfl ?_ (fun _ member => member)
      (not_looksAt fun _ _ _ running => nomatch done.symm.trans running) fun _ _ _ running => nomatch running
    rw [upcoming, upcoming, toReplay, toReplay, done]
    rfl
  | @replays id task rest head =>
    refine attentive.enter (fun _ _ _ running => nomatch head.symm.trans running) rfl rfl rfl (fun other => ?_) fun _ => .inl
    have before : service.toReplay = task :: rest.map Prod.snd := by
      rw [toReplay, head]
      rfl
    rw [mem_upcoming, mem_upcoming, before, List.mem_cons, or_left_comm]
    rfl
  | @received task rest persisted idle head =>
    have resting : ∀ origin task point, service.handler ≠ .running origin task point :=
      fun _ _ _ running => nomatch idle.symm.trans running
    have coming : ∀ {next : ChannelService DrvId} {id : Option Nat}, next.queue = rest →
        next.handler = .running (.dispatch id) task (ChannelService.enter channels task) →
        ∀ other, other ∈ service.upcoming ↔ other = task ∨ other ∈ next.upcoming := by
      intro next id queue running other
      rw [upcoming, upcoming, toReplay, toReplay, idle, running, head, queue, List.append_nil,
        List.append_nil, List.mem_cons]
    cases persisted with
    | true =>
      refine attentive.enter resting rfl rfl rfl (coming rfl rfl) fun entry member => ?_
      exact (List.mem_append.mp member).imp_right fun last => by rw [List.mem_singleton.mp last]
    | false => exact attentive.enter resting rfl rfl rfl (coming rfl rfl) fun entry => .inl
  | @finished origin task point answer running ended =>
    refine attentive.toRest rfl rfl ?_ (fun entry member => ?_) (not_looksAt_of_isOver running ended) ?_
    · rw [upcoming, upcoming, toReplay, toReplay, finish, running]
      cases origin with
      | replay id rest => rfl
      | dispatch id => rfl
    · dsimp only [finish] at member
      split at member
      · split at member
        · exact List.mem_of_mem_filter member
        · exact member
      · exact member
    · cases origin with
      | replay id rest => exact fun _ _ _ running => nomatch running
      | dispatch id => exact fun _ _ _ running => nomatch running
  | advanced running advances => exact attentive.advance distinct running smooth advances

/-- In every smooth run, the rows of the pushes tell the truth, and no open row that
can be decided is left without a task. The registry has one channel for each id. -/
theorem run_honest (hasOctocrab : Bool) (channels : List ChannelConfig)
    (distinct : ∀ first ∈ channels, ∀ second ∈ channels, first.channelId = second.channelId → first = second)
    (jobs : JobDatabase DrvId) {actions : List (ChannelAction DrvId)} {final : ChannelService DrvId}
    (run : Run (step hasOctocrab channels) (Smooth hasOctocrab channels) (start jobs) actions final) :
    final.Honest ∧ final.Unwedged channels := by
  have kept : final.Consistent ∧ final.Landed ∧ final.Attentive channels := by
    refine run.invariant (p := fun service => service.Consistent ∧ service.Landed ∧ service.Attentive channels) ?_ ?_
    · refine ⟨consistent_start jobs, ⟨?_, ?_⟩, ?_, ?_, ?_, ?_⟩
      · exact List.forall_mem_nil _
      · exact List.forall_mem_nil _
      · exact List.forall_mem_nil _
      · exact List.forall_mem_nil _
      · exact fun origin task point running => nomatch running
      · rintro channel - sha ⟨row, member, -⟩
        exact absurd member List.not_mem_nil
    · intro service action next holds smooth taken
      have steps := steps_of taken
      exact ⟨steps.consistent holds.1, steps.landed holds.1 holds.2.1 smooth, steps.attentive distinct holds.2.2 smooth⟩
  exact ⟨kept.2.1.honest kept.1.sound.settled, kept.2.2.unwedged⟩

open JobDatabase (helloChannel)

def helloBuilt : JobDatabase Nat where
  jobsets := [⟨1, "c0ffee", "stable", "ekala", "corepkgs"⟩]
  jobs := [⟨1, 10, "hello", .new⟩]
  buildState _ := .completed .success

/-- A commit waits for `hello`. The process ends while it handles the notice that
`hello` was built, and the journal brings the notice back. -/
def promoteAfterCrash : List (ChannelAction Nat) :=
  [.start true, .next, .enqueue (.evaluatePush helloChannel "c0ffee")] ++ handleTask 5 ++
    .conclude helloBuilt [⟨.gitHub, "ekala", "corepkgs", "c0ffee"⟩] :: handleTask 0 ++ [.crash, .start true, .next] ++
    List.replicate 5 (.advance .succeeds) ++ [.next]

theorem promoteAfterCrash_honest : ∃ final : ChannelService Nat,
    Run (step true [helloChannel]) (Smooth true [helloChannel]) (start (.empty fun _ => .queued)) promoteAfterCrash final ∧
      final.attempts.length = 1 ∧ final.Honest ∧ final.Unwedged [helloChannel] := by
  refine exists_run_and_of_checkRun (by decide +kernel) fun final run => run_honest _ _ ?_ _ run
  intro first member second member' _
  rw [List.mem_singleton.mp member, List.mem_singleton.mp member']

/-- The forge answers the push with an error status. -/
def pushRefused : List (ChannelAction Nat) :=
  [.start true, .next, .enqueue (.evaluatePush unstable "c0ffee")] ++ handleTask 4 ++
    [.advance .refused, .advance .succeeds, .advance .succeeds]

/-- The commit is promoted all the same. -/
theorem pushRefused_not_honest : ¬ ∀ (hasOctocrab : Bool) (channels : List ChannelConfig) (jobs : JobDatabase Nat)
    (actions : List (ChannelAction Nat)) (final : ChannelService Nat),
    (∀ first ∈ channels, ∀ second ∈ channels, first.channelId = second.channelId → first = second) →
    AnyRun (step hasOctocrab channels) (start jobs) actions final → final.Honest ∧ final.Unwedged channels := by
  intro always
  obtain ⟨final, run, elsewhere, attempt, member, refused, promoted⟩ : ∃ final : ChannelService Nat,
      AnyRun (step true [unstable]) (start (.empty fun _ => .queued)) pushRefused final ∧ final.isRecording = false ∧
        ∃ attempt ∈ final.attempts, attempt.outcome.landed = false ∧
          (final.promotions.getLatestForSha attempt.channel.channelId attempt.sha).map ChannelPromotionRow.status =
            some .promoted :=
    exists_run_of_exec (by decide)
  have honest := (always _ _ _ _ _ (fun first member second member' _ => ?_) run).1
  · have landed := (honest.promoted attempt member (not_recording_of_isRecording elsewhere _ _)).mp promoted
    rw [refused] at landed
    cases landed
  · rw [List.mem_singleton.mp member, List.mem_singleton.mp member']

end ChannelService

end EkaCI
