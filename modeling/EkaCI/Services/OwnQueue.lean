import EkaCI.Channels.Service
import EkaCI.Forge.GitHubTasks

/-! Services whose handlers send to the queue that only the service itself reads. The
handler waits if the queue is full, and then nothing takes a task from it any more. -/

namespace EkaCI

open Lib

variable {DrvId : Type}

def githubTaskBuffer : Nat := 1000

abbrev GitHubWorker (DrvId : Type) := Worker (GitHubCall DrvId) GitHubFailure (GitHubTask DrvId)

structure GitHubService (DrvId : Type) where
  queue : List (GitHubTask DrvId) := []
  worker : GitHubWorker DrvId := .down

inductive GitHubAction (DrvId : Type) where
  /-- By a producer, or by a timer of an earlier handler. -/
  | enqueue (task : GitHubTask DrvId)
  | start
  | receive
  /-- The handler goes on, with the answer to its call if it has made one. -/
  | advance (world : (R : Type) → GitHubCall DrvId R → Except GitHubFailure R)
  | crash

namespace GitHubService

/-- What the worker leaves in the queue and does next. -/
def goesOn (result : List (GitHubTask DrvId) × GitHubWorker DrvId) : GitHubService DrvId := ⟨result.1, result.2⟩

def step (service : GitHubService DrvId) : GitHubAction DrvId → Option (GitHubService DrvId)
  | .enqueue task =>
    if service.queue.length < githubTaskBuffer then some { service with queue := service.queue ++ [task] } else none
  | .start =>
    match service.worker with
    | .down => some (goesOn (Worker.enter githubTaskBuffer service.queue GitHubHandler.replayJournal))
    | _ => none
  | .receive =>
    match service.worker, service.queue with
    | .idle, task :: rest => some (goesOn (Worker.enter githubTaskBuffer rest (GitHubHandler.dispatchWithJournal task)))
    | _, _ => none
  | .advance world => (service.worker.advance githubTaskBuffer service.queue world).map goesOn
  | .crash => some {}

/-- Whatever the answer to its call, a running handler goes on. -/
def HandlerEnabled (service : GitHubService DrvId) : Prop :=
  service.worker.isRunning = true → ∀ world, (service.step (.advance world)).isSome = true

/-- The queue has room for what the handler sends to it next. -/
def hasRoom (service : GitHubService DrvId) : GitHubAction DrvId → Bool
  | .advance world => service.worker.fits githubTaskBuffer service.queue.length world
  | _ => true

variable {service next : GitHubService DrvId} {action : GitHubAction DrvId}

theorem step_unhindered (unhindered : service.worker.sends = false) (room : service.hasRoom action = true)
    (taken : service.step action = some next) : next.worker.sends = false := by
  cases action with
  | enqueue task =>
    simp only [step] at taken
    split at taken
    · cases taken
      exact unhindered
    · cases taken
  | start | receive =>
    simp only [step] at taken
    split at taken
    · cases taken
      exact Worker.sends_enter
    · cases taken
  | advance world =>
    obtain ⟨result, advanced, rfl⟩ := Option.map_eq_some_iff.mp taken
    exact Worker.advance_sends advanced room
  | crash =>
    cases taken
    rfl

theorem handlerEnabled_of_unhindered (unhindered : service.worker.sends = false) : service.HandlerEnabled := by
  intro running world
  rw [step, Option.isSome_map]
  exact Worker.isSome_advance running unhindered

theorem waiting_forever (waits : service.worker.sends = true) (full : githubTaskBuffer ≤ service.queue.length)
    (taken : service.step action = some next) : action = .crash := by
  cases action with
  | enqueue task =>
    rw [step, if_neg (Nat.not_lt.mpr full)] at taken
    cases taken
  | start =>
    simp only [step] at taken
    split at taken
    · rename_i down
      rw [down] at waits
      cases waits
    · cases taken
  | receive =>
    simp only [step] at taken
    split at taken
    · rename_i idle _
      rw [idle] at waits
      cases waits
    · cases taken
  | advance world =>
    rw [step, Worker.advance_of_sends waits full] at taken
    cases taken
  | crash => rfl

theorem exec_enqueue (task : GitHubTask DrvId) {count : Nat} (room : service.queue.length + count ≤ githubTaskBuffer) :
    exec step service (List.replicate count (.enqueue task)) =
      some { service with queue := service.queue ++ List.replicate count task } := by
  have grows : ∀ queue : List (GitHubTask DrvId), queue.length < githubTaskBuffer →
      step { service with queue := queue } (.enqueue task) = some { service with queue := queue ++ [task] } :=
    fun _ less => if_pos less
  exact exec_fill grows room

end GitHubService

/-- A drained commit waits to be sent. -/
def HandlerPoint.resends : HandlerPoint → Bool
  | .resend _ _ _ _ => true
  | _ => false

namespace ChannelService

variable (hasOctocrab : Bool) (channels : List ChannelConfig)

/-- There is an answer to its call with which a running handler goes on. -/
def HandlerEnabled (service : ChannelService DrvId) : Prop :=
  ∀ origin task point, service.handler = .running origin task point →
    ∃ answer, (service.step hasOctocrab channels (.advance answer)).isSome = true

/-- When a channel is finalised, the queue has room for its pending commit. -/
def HasRoom (service : ChannelService DrvId) : ChannelAction DrvId → Prop
  | .advance .succeeds => ∀ origin task channel sha verdict rest,
    service.handler = .running origin task (.finalise channel sha verdict rest) →
      (service.pending channel.channelId).isSome = true → service.queue.length < channelTaskBuffer
  | _ => True

/-- The handler is not at a commit that it could not send. -/
def Unhindered (service : ChannelService DrvId) : Prop :=
  ∀ origin task point, service.handler = .running origin task point → point.resends = false

variable {hasOctocrab channels} {service next : ChannelService DrvId}

theorem resends_enter (task : ChannelTask) : (enter channels task).resends = false := by
  cases task with
  | evaluatePush channel sha => rfl
  | jobsetComplete notice => rfl

theorem Proceeds.resends {point point' : HandlerPoint} (proceeds : Proceeds service point next point')
    (room : ∀ channel sha verdict rest, point = .finalise channel sha verdict rest →
      (service.pending channel.channelId).isSome = true → service.queue.length < channelTaskBuffer) :
    point'.resends = false := by
  cases proceeds with
  | stuck waits full =>
    exact absurd (room _ _ _ _ rfl (by rw [waits]; rfl)) (Nat.not_lt.mpr full)
  | _ => rfl

theorem Advances.resends {point point' : HandlerPoint} {answer : CallAnswer}
    (advances : Advances hasOctocrab service point answer next point')
    (room : answer = .succeeds → ∀ channel sha verdict rest, point = .finalise channel sha verdict rest →
      (service.pending channel.channelId).isSome = true → service.queue.length < channelTaskBuffer) :
    point'.resends = false := by
  cases advances with
  | proceeds proceeds => exact proceeds.resends (room rfl)
  | failed calls => rfl
  | pushed ok => rfl
  | unpushed failed => rfl

theorem step_unhindered {action : ChannelAction DrvId} (unhindered : service.Unhindered) (room : service.HasRoom action)
    (taken : service.step hasOctocrab channels action = some next) : next.Unhindered := by
  cases steps_of taken with
  | enqueued up room => exact unhindered
  | concluded up => exact unhindered
  | crashed up => exact fun _ _ _ same => nomatch same
  | started down => exact fun _ _ _ same => nomatch same
  | unrecovered down => exact fun _ _ _ same => nomatch same
  | replayed done => exact fun _ _ _ same => nomatch same
  | replays head =>
    rintro origin task point ⟨⟩
    exact resends_enter _
  | received idle head =>
    intro origin task point running
    unfold take at running
    split at running
    · cases running
      exact resends_enter _
    · cases running
      exact resends_enter _
  | @finished origin task point answer running ended =>
    intro origin' task' point' same
    cases origin with
    | replay id rest => cases same
    | dispatch id => cases same
  | advanced running advances =>
    rintro origin task point ⟨⟩
    apply advances.resends
    rintro rfl channel sha verdict rest rfl
    exact room _ _ channel sha verdict rest running

theorem Unhindered.enabled (unhindered : service.Unhindered) : service.HandlerEnabled hasOctocrab channels := by
  intro origin task point running
  refine ⟨.succeeds, ?_⟩
  simp only [step, running]
  split
  · rfl
  · rename_i goesOn
    rw [Option.isSome_map]
    cases point with
    | resend channel drained sha rest => cases unhindered _ _ _ running
    | visit sha rest =>
      cases rest with
      | nil => exact absurd rfl goesOn
      | cons channel rest => rfl
    | failed => exact absurd rfl goesOn
    | _ => rfl

end ChannelService

/-- A running handler can always go on, in every run in which there is room for each
task that a handler sends to its own service. -/
theorem run_handlerEnabled (hasOctocrab : Bool) (channels : List ChannelConfig) (jobs : JobDatabase DrvId) :
    (∀ actions final, Run (ChannelService.step hasOctocrab channels) ChannelService.HasRoom (ChannelService.start jobs)
        actions final → final.HandlerEnabled hasOctocrab channels) ∧
      ∀ actions final, Run GitHubService.step (fun service action => service.hasRoom action) ({} : GitHubService DrvId)
        actions final → final.HandlerEnabled := by
  constructor
  · intro actions final run
    have unhindered : final.Unhindered := by
      apply run.invariant (p := ChannelService.Unhindered) (fun _ _ _ same => nomatch same)
      intro service action next unhindered room taken
      exact ChannelService.step_unhindered unhindered room taken
    exact unhindered.enabled
  · intro actions final run
    have unhindered : final.worker.sends = false := by
      apply run.invariant (p := fun service => service.worker.sends = false) rfl
      intro service action next unhindered room taken
      exact GitHubService.step_unhindered unhindered room taken
    exact GitHubService.handlerEnabled_of_unhindered unhindered

namespace GitHubService

/-- A pull request whose base has been evaluated. -/
def onMaster : CICheckInfo where
  commit := "c1"
  baseCommit := some "c0"
  owner := "ekala"
  repoName := "corepkgs"

/-- The calls of `create_job_set` succeed, and the base has a jobset. -/
def baseKnown : (R : Type) → GitHubCall Nat R → Except GitHubFailure R
  | _, .recover => .ok []
  | _, .persist _ => .ok 0
  | _, .createGithubJobsetWithJobs _ _ _ _ => .ok 2
  | _, .createEagerCheckRunsAndDispatchBuilds _ _ _ => .ok ()
  | _, .jobsetIdOf _ _ => .ok (some 1)
  | _, _ => .error .other

/-- The service starts and takes the task up to its last call before it sends. -/
def untilBaseFound : List (GitHubAction Nat) :=
  [.start, .advance baseKnown, .advance baseKnown, .enqueue (.createJobSet onMaster "stable" [] none), .receive,
    .advance baseKnown, .advance baseKnown, .advance baseKnown]

/-- The task is sent if there is room for it. -/
theorem untilBaseFound_enabled : ∃ final,
    Run step (fun service action => service.hasRoom action) {} (untilBaseFound ++ [.advance baseKnown]) final ∧
      final.queue.length = 1 ∧ final.HandlerEnabled :=
  exists_run_and_of_checkRun (by decide) fun _ run => (run_handlerEnabled false [] (.empty fun _ => .queued)).2 _ _ run

/-- If the queue has filled up in the meantime, the handler waits for itself. -/
theorem untilBaseFound_not_enabled : ¬ ∀ (hasOctocrab : Bool) (channels : List ChannelConfig) (jobs : JobDatabase Nat),
    (∀ actions final, AnyRun (ChannelService.step hasOctocrab channels) (ChannelService.start jobs) actions final →
        final.HandlerEnabled hasOctocrab channels) ∧
      ∀ actions final, AnyRun step ({} : GitHubService Nat) actions final → final.HandlerEnabled := by
  intro always
  obtain ⟨service, performed, empty, R, question, next, running, gate, rest, sends⟩ : ∃ service : GitHubService Nat,
      exec step {} untilBaseFound = some service ∧ service.queue = [] ∧ ∃ (R : Type) (question : GitHubCall Nat R) (next : _),
        service.worker = .running (.call question next) ∧ ∃ gate rest, next (baseKnown R question) = .send gate rest :=
    ⟨_, rfl, rfl, _, _, _, rfl, _, _, rfl⟩
  have filled := @exec_enqueue _ service (.plain .checkComplete) githubTaskBuffer (by rw [empty]; decide)
  obtain ⟨full, same⟩ : ∃ full : GitHubService Nat, full =
      { service with queue := service.queue ++ List.replicate githubTaskBuffer (.plain .checkComplete) } := ⟨_, rfl⟩
  rw [← same] at filled
  have length : full.queue.length = githubTaskBuffer := by simp [same, empty]
  have last : full.step (.advance baseKnown) = some (goesOn (Worker.enter githubTaskBuffer full.queue (.send gate rest))) := by
    rw [← sends, same]
    simp only [step, running]
    rfl
  have run : AnyRun step {} (untilBaseFound ++ List.replicate githubTaskBuffer (.enqueue (.plain .checkComplete)) ++
      [.advance baseKnown]) (goesOn (Worker.enter githubTaskBuffer full.queue (.send gate rest))) := by
    apply run_of_exec
    rw [exec_append, exec_append, performed, Option.bind_some, filled, Option.bind_some, exec, last]
    rfl
  have waits : (Worker.enter githubTaskBuffer full.queue (.send gate rest)).2.sends = true := by
    rw [Worker.sends_enter, Handler.fits, length]
    simp
  have enabled := (always false [] (.empty fun _ => .queued)).2 _ _ run rfl baseKnown
  obtain ⟨next, taken⟩ := Option.isSome_iff_exists.mp enabled
  cases waiting_forever waits (Handler.deliver_full waits) taken

end GitHubService

end EkaCI
