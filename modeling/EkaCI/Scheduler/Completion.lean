import EkaCI.Channels.Service
import EkaCI.Forge.GitHubTasks
import EkaCI.Scheduler.Request

/-! What the recorder announces when the jobs of a jobset have concluded. It looks at
the jobsets of the drv that a task is about, and only there. -/

namespace EkaCI

open Lib

variable {DrvId : Type}

/-- The tables `GitHubJobSets` and `Job`. -/
structure JobTables (DrvId : Type) where
  jobsets : List JobSet
  jobs : List (Job DrvId)
  numbered : (jobsets.map JobSet.rowid).Nodup
  linked : ∀ job ∈ jobs, ∃ jobset ∈ jobsets, jobset.rowid = job.jobset

def JobTables.single (jobset : JobSet) (jobs : List (Job DrvId)) (own : ∀ job ∈ jobs, jobset.rowid = job.jobset) :
    JobTables DrvId where
  jobsets := [jobset]
  jobs := jobs
  numbered := List.nodup_singleton _
  linked job member := ⟨jobset, List.mem_cons_self, own job member⟩

/-- A row of `GitHubPullRequests`. -/
structure StoredRequest where
  owner : String
  repoName : String
  prNumber : Nat
  headSha : String
  state : String
  autoMergeEnabled : Bool
  commentMergeSha : Option String

/-- An open pull request that is to be merged without a click. -/
def StoredRequest.isEligible (request : StoredRequest) : Bool :=
  request.state = "open" && (request.autoMergeEnabled || request.commentMergeSha.isSome)

def StoredRequest.isHeadOf (request : StoredRequest) (jobset : JobSet) : Bool :=
  request.headSha = jobset.sha && request.owner = jobset.owner && request.repoName = jobset.repoName

def JobSet.notice (jobset : JobSet) : JobsetNotice where
  forge := .gitHub
  owner := jobset.owner
  repo := jobset.repoName
  sha := jobset.sha

structure RecorderState (DrvId : Type) where
  service : GraphService DrvId
  tables : JobTables DrvId
  requests : List StoredRequest

structure RecorderSenders where
  github : Bool
  channel : Bool

/-- The `JobsetComplete` and `CheckAutoMerge` tasks of a step, the former with the
jobsets that they are sent for. -/
structure Announcements where
  completed : List (Nat × JobsetNotice) := []
  merges : List PullRequestKey := []

namespace RecorderState

variable (state : RecorderState DrvId)

/-- The row of the job's drv is in none of the terminal states. -/
def isOpen (job : Job DrvId) : Bool :=
  (state.service.db.rowState job.drvId).any fun row => !row.isTerminal

def allJobsConcluded (jobsetId : Nat) : Bool :=
  !state.tables.jobs.any fun job => job.jobset = jobsetId && state.isOpen job

def jobsetHasNewOrChangedFailures (jobsetId : Nat) : Bool :=
  state.tables.jobs.any fun job =>
    job.jobset = jobsetId && (job.difference = .new || job.difference = .changed) &&
      (state.service.db.rowState job.drvId).any DrvBuildState.isFailure

def getJobsetInfo (jobsetId : Nat) : Option JobSet :=
  state.tables.jobsets.find? fun jobset => jobset.rowid = jobsetId

/-- A row that is found is read into a structure that has a field more. -/
def getPrByHeadSha (jobset : JobSet) : Except ServiceError (Option StoredRequest) := do
  ForgeDatabase.prepare .migrated ⟨[.gitHubPullRequests], [(none, .headSha), (none, .owner), (none, .repoName)]⟩
  match state.requests.find? fun request => request.isHeadOf jobset with
  | none => return none
  | some request =>
    match PullRequest.fields.find? (· ∉ Schema.migrated .gitHubPullRequests) with
    | some column => throw (.database (.columnNotFound column))
    | none => return some request

/-- A failed lookup counts as none. -/
def checkAutoMerge (jobset : JobSet) : Option PullRequestKey :=
  match state.getPrByHeadSha jobset with
  | .ok (some request) =>
    if request.isEligible then some ⟨jobset.owner, jobset.repoName, request.prNumber⟩ else none
  | _ => none

variable [DecidableEq DrvId]

def getJobInfoForDrv (drvId : DrvId) : List (Job DrvId) := state.tables.jobs.filter fun job => job.drvId = drvId

def concludedJobsets (drvId : DrvId) : List JobSet :=
  (state.getJobInfoForDrv drvId).filterMap fun job =>
    if state.allJobsConcluded job.jobset then state.getJobsetInfo job.jobset else none

def checkJobsetCompletion (senders : RecorderSenders) (drvId : DrvId) : Announcements where
  completed :=
    if senders.channel then (state.concludedJobsets drvId).map fun jobset => (jobset.rowid, jobset.notice) else []
  merges :=
    ((state.concludedJobsets drvId).filter fun jobset => !state.jobsetHasNewOrChangedFailures jobset.rowid).filterMap
      state.checkAutoMerge

/-- The handler fails if there is no row to decide on. -/
def isMissing (task : RecorderTask DrvId) : Bool :=
  match task.result with
  | .completed .failure | .interrupted _ => (state.service.db.rowState task.derivation).isNone
  | _ => false

def record (now : Instant) (room : Bool) (task : RecorderTask DrvId) : RecorderState DrvId :=
  { state with service := state.service.record now room task }

/-- What is announced after a task was recorded. -/
def notify (senders : RecorderSenders) (now : Instant) (room : Bool) (task : RecorderTask DrvId) : Announcements :=
  if senders.github && task.result.isTerminal && !state.isMissing task then
    (state.record now room task).checkJobsetCompletion senders task.derivation
  else {}

end RecorderState

structure RecordedStep (DrvId : Type) where
  before : RecorderState DrvId
  after : RecorderState DrvId
  sent : Announcements

structure RecorderRun (DrvId : Type) where
  state : RecorderState DrvId
  steps : List (RecordedStep DrvId)

inductive RecorderAction (DrvId : Type) where
  /-- Evaluations, builds, users and the forge change what the recorder reads. -/
  | outside (state : RecorderState DrvId)
  | record (task : RecorderTask DrvId) (now : Instant) (room : Bool)

/-- A jobset that a step has concluded is announced, together with a merge that waits
for it, and no jobset is announced before. -/
structure RecordedStep.Announced (step : RecordedStep DrvId) : Prop where
  completed : ∀ jobset ∈ step.after.tables.jobsets, step.before.allJobsConcluded jobset.rowid = false →
    step.after.allJobsConcluded jobset.rowid = true → (jobset.rowid, jobset.notice) ∈ step.sent.completed
  merges : ∀ jobset ∈ step.after.tables.jobsets, step.before.allJobsConcluded jobset.rowid = false →
    step.after.allJobsConcluded jobset.rowid = true → step.after.jobsetHasNewOrChangedFailures jobset.rowid = false →
      (∃ request ∈ step.after.requests, request.isHeadOf jobset = true ∧ request.isEligible = true) →
        ∃ request ∈ step.after.requests, request.isHeadOf jobset = true ∧ request.isEligible = true ∧
          ⟨request.owner, request.repoName, request.prNumber⟩ ∈ step.sent.merges
  concluded : ∀ entry ∈ step.sent.completed, step.after.allJobsConcluded entry.1 = true

namespace RecorderRun

variable [DecidableEq DrvId]

def step (senders : RecorderSenders) (run : RecorderRun DrvId) : RecorderAction DrvId → Option (RecorderRun DrvId)
  | .outside state => some { run with state := state }
  | .record task now room =>
    let after := run.state.record now room task
    some ⟨after, run.steps ++ [⟨run.state, after, run.state.notify senders now room task⟩]⟩

/-- What a task may meet. -/
structure Heeds (senders : RecorderSenders) (state : RecorderState DrvId) (task : RecorderTask DrvId) (now : Instant)
    (room : Bool) : Prop where
  configured : senders.github = true ∧ senders.channel = true
  /-- A jobset whose open jobs are all taken along has a job of the failed drv, too. -/
  shared : ∀ jobset ∈ state.tables.jobsets, state.allJobsConcluded jobset.rowid = false →
    (∀ job ∈ state.tables.jobs, job.jobset = jobset.rowid → state.isOpen job = true →
      job.drvId ∈ state.service.takenAlong now room task) →
        ∃ job ∈ state.tables.jobs, job.jobset = jobset.rowid ∧ job.drvId = task.derivation
  /-- No merge waits for a jobset that the task can conclude. -/
  unawaited : ∀ jobset ∈ state.tables.jobsets,
    (∃ job ∈ state.tables.jobs, job.jobset = jobset.rowid ∧ job.drvId = task.derivation) →
      (∀ job ∈ state.tables.jobs, job.jobset = jobset.rowid → state.isOpen job = true →
        job.drvId = task.derivation ∨ job.drvId ∈ state.service.takenAlong now room task) →
          ∀ request ∈ state.requests, request.isHeadOf jobset = true → request.isEligible = false

def heeds (senders : RecorderSenders) (run : RecorderRun DrvId) : RecorderAction DrvId → Prop
  | .outside _ => True
  | .record task now room => Heeds senders run.state task now room

end RecorderRun

namespace RecorderState

variable {state : RecorderState DrvId}

theorem allJobsConcluded_iff {jobsetId : Nat} : state.allJobsConcluded jobsetId = true ↔
    ∀ job ∈ state.tables.jobs, job.jobset = jobsetId → state.isOpen job = false := by
  rw [allJobsConcluded, Bool.not_eq_true', List.any_eq_false]
  refine forall₂_congr fun job _ => ?_
  rw [Bool.and_eq_true, decide_eq_true_eq, not_and, Bool.not_eq_true]

variable {jobset : JobSet} {drvId : DrvId} {job : Job DrvId}

theorem rowid_getJobsetInfo {jobsetId : Nat} (found : state.getJobsetInfo jobsetId = some jobset) :
    jobset.rowid = jobsetId := by
  rw [getJobsetInfo] at found
  simpa using List.find?_some found

theorem getJobsetInfo_of_mem (member : jobset ∈ state.tables.jobsets) :
    state.getJobsetInfo jobset.rowid = some jobset := by
  have found : (state.getJobsetInfo jobset.rowid).isSome = true :=
    List.find?_isSome.mpr ⟨jobset, member, decide_eq_true rfl⟩
  obtain ⟨other, same⟩ := Option.isSome_iff_exists.mp found
  have number : other.rowid = jobset.rowid := rowid_getJobsetInfo same
  rw [same, List.inj_on_of_nodup_map state.tables.numbered (List.mem_of_find?_eq_some same) member number]

variable [DecidableEq DrvId] {senders : RecorderSenders} {now : Instant} {room : Bool} {task : RecorderTask DrvId}

theorem mem_concludedJobsets (member : jobset ∈ state.tables.jobsets)
    (concluded : state.allJobsConcluded jobset.rowid = true)
    (own : ∃ job ∈ state.tables.jobs, job.jobset = jobset.rowid ∧ job.drvId = drvId) :
    jobset ∈ state.concludedJobsets drvId := by
  obtain ⟨job, listed, number, same⟩ := own
  refine List.mem_filterMap.mpr ⟨job, List.mem_filter.mpr ⟨listed, decide_eq_true same⟩, ?_⟩
  rw [number, if_pos concluded]
  exact getJobsetInfo_of_mem member

theorem concluded_of_mem (member : jobset ∈ state.concludedJobsets drvId) :
    state.allJobsConcluded jobset.rowid = true := by
  obtain ⟨job, -, found⟩ := List.mem_filterMap.mp member
  split at found
  · rename_i concluded
    rw [rowid_getJobsetInfo found]
    exact concluded
  · cases found

theorem isOpen_kept (opened : state.isOpen job = true) (other : job.drvId ≠ task.derivation)
    (spared : job.drvId ∉ state.service.takenAlong now room task) :
    (state.record now room task).isOpen job = true := by
  rw [isOpen, record, GraphService.record_rowState, if_neg spared]
  split
  · rw [if_neg other]
    exact opened
  · exact opened

/-- A jobset that is concluded by a task had only jobs open that the task is about or
takes along. -/
theorem open_touched {jobsetId : Nat} (concluded : (state.record now room task).allJobsConcluded jobsetId = true)
    (listed : job ∈ state.tables.jobs) (number : job.jobset = jobsetId) (opened : state.isOpen job = true) :
    job.drvId = task.derivation ∨ job.drvId ∈ state.service.takenAlong now room task := by
  by_cases other : job.drvId = task.derivation
  · exact .inl other
  · refine .inr ?_
    by_contra spared
    have kept := isOpen_kept opened other spared
    have closed := allJobsConcluded_iff.mp concluded job listed number
    rw [closed] at kept
    cases kept

theorem own_job (heeds : RecorderRun.Heeds senders state task now room) (member : jobset ∈ state.tables.jobsets)
    (opened : state.allJobsConcluded jobset.rowid = false)
    (concluded : (state.record now room task).allJobsConcluded jobset.rowid = true) :
    ∃ job ∈ state.tables.jobs, job.jobset = jobset.rowid ∧ job.drvId = task.derivation := by
  by_contra none
  refine none (heeds.shared jobset member opened fun job listed number opened => ?_)
  rcases open_touched concluded listed number opened with own | taken
  · exact absurd ⟨job, listed, number, own⟩ none
  · exact taken

theorem notifies_of_concluded {jobsetId : Nat} (opened : state.allJobsConcluded jobsetId = false)
    (concluded : (state.record now room task).allJobsConcluded jobsetId = true) :
    task.result.isTerminal = true ∧ state.isMissing task = false := by
  cases decision : recordDecision (state.service.db.rowState task.derivation) task.result with
  | none =>
    have same : state.record now room task = state := by rw [record, GraphService.record, decision]
    rw [same, opened] at concluded
    cases concluded
  | some decided =>
    refine ⟨GraphService.isTerminal_of_decision decision, ?_⟩
    unfold isMissing
    cases row : state.service.db.rowState task.derivation with
    | some found => split <;> rfl
    | none =>
      rw [row] at decision
      split
      · rename_i failure
        rw [failure] at decision
        cases decision
      · rename_i interrupted
        rw [interrupted] at decision
        cases decision
      · rfl

theorem announced (heeds : RecorderRun.Heeds senders state task now room) :
    RecordedStep.Announced ⟨state, state.record now room task, state.notify senders now room task⟩ where
  completed jobset member opened concluded := by
    obtain ⟨terminal, present⟩ := @notifies_of_concluded _ state _ _ _ _ _ opened concluded
    have own := @own_job _ state _ _ _ _ _ _ heeds member opened concluded
    have listed := @mem_concludedJobsets _ (state.record now room task) _ _ _ member concluded own
    simp only [notify, checkJobsetCompletion, heeds.configured, terminal, present, Bool.not_false, Bool.and_self, if_true]
    exact List.mem_map.mpr ⟨jobset, listed, rfl⟩
  merges jobset member opened concluded _ eligible := by
    obtain ⟨request, stored, head, wanted⟩ := eligible
    have own := @own_job _ state _ _ _ _ _ _ heeds member opened concluded
    have unwanted := heeds.unawaited jobset member own
      (fun job listed number opened => open_touched concluded listed number opened) request stored head
    rw [unwanted] at wanted
    cases wanted
  concluded entry member := by
    simp only [notify] at member
    split at member
    · simp only [checkJobsetCompletion, heeds.configured, if_true] at member
      obtain ⟨jobset, listed, rfl⟩ := List.mem_map.mp member
      exact concluded_of_mem listed
    · cases member

end RecorderState

/-- Every conclusion is announced, in every run whose tasks take no other jobset's last
open jobs along and conclude no jobset that a merge waits for. -/
theorem run_announced [DecidableEq DrvId] (senders : RecorderSenders) (state : RecorderState DrvId)
    {actions : List (RecorderAction DrvId)} {final : RecorderRun DrvId}
    (run : Run (RecorderRun.step senders) (RecorderRun.heeds senders) ⟨state, []⟩ actions final) :
    ∀ step ∈ final.steps, step.Announced := by
  apply run.invariant (p := fun run => ∀ step ∈ run.steps, step.Announced) (fun _ member => nomatch member)
  intro run action next earlier heeds taken
  cases action with
  | outside state =>
    cases taken
    exact earlier
  | record task now room =>
    cases taken
    intro step member
    rcases mem_snoc.mp member with old | rfl
    · exact earlier step old
    · exact RecorderState.announced heeds

namespace RecorderRun

/-- A library that has failed once and a program that needs it, in a jobset with a job
of one of them. -/
def programNeedsLibrary (job : Nat) : RecorderState Nat where
  service := .started (Database.empty.insertDrvsAndReferences [.plain 1 .failedRetry, .plain 2 .queued] [(2, 1)]) 3
  tables := .single ⟨7, "c0", "stable", "ekala", "corepkgs"⟩ [⟨7, job, "hello", .new⟩] (by simp)
  requests := []

/-- The failure of the library concludes its own jobset. -/
theorem programNeedsLibrary_announced : ∃ final,
    Run (step ⟨true, true⟩) (heeds ⟨true, true⟩) ⟨programNeedsLibrary 1, []⟩ [.record ⟨1, .completed .failure⟩ 0 true] final ∧
      (∃ step ∈ final.steps, step.sent.completed.length = 1) ∧ ∀ step ∈ final.steps, step.Announced := by
  have meets : Heeds ⟨true, true⟩ (programNeedsLibrary 1) ⟨1, .completed .failure⟩ 0 true := by
    refine ⟨⟨rfl, rfl⟩, ?_, fun _ _ _ _ _ stored => nomatch stored⟩
    intro jobset member _ _
    cases List.mem_singleton.mp member
    exact ⟨_, List.mem_cons_self, rfl, rfl⟩
  have run : Run (step ⟨true, true⟩) (heeds ⟨true, true⟩) ⟨programNeedsLibrary 1, []⟩
      [.record ⟨1, .completed .failure⟩ 0 true] _ := .cons meets rfl .start
  exact ⟨_, run, ⟨_, List.mem_cons_self, by decide⟩, run_announced _ _ run⟩

/-- The jobset of the program is concluded, too, and nobody hears of it. -/
theorem programNeedsLibrary_not_announced : ¬ ∀ (state : RecorderState Nat) (actions : List (RecorderAction Nat))
    (final : RecorderRun Nat), AnyRun (step ⟨true, true⟩) ⟨state, []⟩ actions final →
      ∀ step ∈ final.steps, step.Announced := by
  intro always
  have run : AnyRun (step ⟨true, true⟩) ⟨programNeedsLibrary 2, []⟩ [.record ⟨1, .completed .failure⟩ 0 true] _ :=
    run_of_exec rfl
  have announced := always _ _ _ run _ List.mem_cons_self
  have sent := announced.completed ⟨7, "c0", "stable", "ekala", "corepkgs"⟩ List.mem_cons_self (by decide) (by decide)
  exact absurd sent (by decide)

end RecorderRun

end EkaCI
