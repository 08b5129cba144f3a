import EkaCI.Forge.CommentMerge
import EkaCI.Forge.GitHubTasks
import EkaCI.Forge.WebhookGates

/-! What becomes of a requested merge when its pull request is closed. The webhooks of
all pull requests and the tasks of the service interleave at every access to the database;
closing writes the column `state` and leaves the request where it is. -/

namespace EkaCI

open Lib

variable {DrvId : Type}

def PullRequestPayload.key (pr : PullRequestPayload) : Option PullRequestKey := do
  let repo ← pr.base.repo
  let owner ← repo.owner
  return ⟨owner, repo.name, pr.number⟩

/-- A task of the service with its pull request. -/
structure MergeTask where
  key : PullRequestKey
  run : TaskRun
  /-- No close was handled since the command came, or since the command came whose
  request was read from the row. -/
  uninterrupted : Bool

inductive WebhookPoint where
  | call (call : WebhookCall)
  | clear (key : PullRequestKey)

structure PerformedMerge where
  key : PullRequestKey
  pending : Option CommentMergeRequest
  uninterrupted : Bool
  deriving DecidableEq

structure RequestSystem (DrvId : Type) where
  db : ForgeDatabase DrvId
  /-- The column `state` of the rows. -/
  state : PullRequestKey → String
  /-- The heads on the forge. -/
  head : PullRequestKey → String
  webhooks : List (List WebhookPoint)
  tasks : List MergeTask
  merged : List PerformedMerge
  /-- No close was handled since the command came whose request is recorded. -/
  uninterrupted : PullRequestKey → Bool

inductive RequestAction (DrvId : Type) where
  | push (key : PullRequestKey) (head : String)
  | webhook (settings : WebhookSettings) (approvedUsers : Option (List ApprovedUser)) (event : PullRequestEvent)
  /-- The next call of a webhook. -/
  | handle (index : Nat)
  | command (key : PullRequestKey) (command : MergeCommand)
  | cancelCommand (key : PullRequestKey) (requesterId : Nat)
  | checkAutoMerge (key : PullRequestKey)
  | task (index : Nat) (answers : TaskAnswers)
  /-- Evaluations and builds write their tables, users their settings. -/
  | write (jobsets : List ForgeJobSet) (jobs : Forge → List (Job DrvId)) (buildState : DrvId → DrvBuildState)
      (differences : List AttrDifference) (isMaintainer : Nat → String → Bool)
  | setAutoMerge (key : PullRequestKey) (enabled : Bool) (method : Option String)

/-- A merge is requested for the pull request. -/
def ForgeDatabase.HasPending (db : ForgeDatabase DrvId) (key : PullRequestKey) : Prop :=
  ∃ row request, db.findRequest key.repository key.prNumber = some row ∧ row.pendingCommentMerge = some request

/-- The rows that there are, with their column `state`: requests are for open ones. -/
structure StoredRequests (DrvId : Type) where
  db : ForgeDatabase DrvId
  state : PullRequestKey → String
  pendingOpen : ∀ key, db.HasPending key → state key = "open"

namespace RequestSystem

def start (stored : StoredRequests DrvId) (head : PullRequestKey → String) : RequestSystem DrvId :=
  ⟨stored.db, stored.state, head, [], [], [], fun _ => true⟩

variable (schema : Schema) (system : RequestSystem DrvId)

def setState (key : PullRequestKey) (state : String) : RequestSystem DrvId :=
  { system with state := Function.update system.state key state }

/-- A close has been handled. -/
def interrupt (key : PullRequestKey) : RequestSystem DrvId :=
  { system with
    uninterrupted := Function.update system.uninterrupted key false
    tasks := system.tasks.map fun task => { task with uninterrupted := task.uninterrupted && decide (task.key ≠ key) } }

/-- Nothing is stored for a payload without an author or without the owner of the base. -/
def storePrMetadata (pr : PullRequestPayload) (state : String) : RequestSystem DrvId :=
  match pr.key with
  | none => system
  | some key =>
    let noted := if state = "open" then system else system.interrupt key
    if pr.user.isSome then
      { noted.setState key state with db := system.db.upsertPullRequest key.repository key.prNumber pr.head.sha }
    else noted

/-- Whether the pending request is to be cleared. -/
def checkCommentMergeDrift (pr : PullRequestPayload) : List WebhookPoint :=
  match pr.key with
  | none => []
  | some key =>
    match system.db.getPullRequestRow schema key.repository key.prNumber with
    | .error _ => []
    | .ok row =>
      match row.bind PullRequest.pendingCommentMerge with
      | none => []
      | some pending => if pending.sha = pr.head.sha then [] else [.clear key]

def clearRequest (key : PullRequestKey) : RequestSystem DrvId :=
  { system with db := system.db.clearCommentMergeRequest key.repository key.prNumber }

/-- A call of a webhook, and what is to be done next because of it. -/
def handlePoint : WebhookPoint → RequestSystem DrvId × List WebhookPoint
  | .call (.storePrMetadata pr state) => (system.storePrMetadata pr state, [])
  | .call (.checkCommentMergeDrift pr) => (system, system.checkCommentMergeDrift schema pr)
  | .call _ => (system, [])
  | .clear key => (system.clearRequest key, [])

/-- A task goes on; a merged pull request is marked, and a request keeps when its command
came. -/
def advanceTask (index : Nat) (task : MergeTask) (answers : TaskAnswers) : RequestSystem DrvId :=
  let result := task.run.advance schema task.key.repository task.key.prNumber system.db (system.head task.key) answers
  let uninterrupted := if task.run = .readRow then system.uninterrupted task.key else task.uninterrupted
  { system with
    db := result.db
    state := if task.run = .markMerged then Function.update system.state task.key "merged" else system.state
    tasks := system.tasks.eraseIdx index ++ result.next.map (⟨task.key, ·, uninterrupted⟩)
    merged := system.merged ++ result.landed.map (⟨task.key, ·.pending, uninterrupted⟩)
    uninterrupted :=
      match task.run with
      | .record _ _ _ => Function.update system.uninterrupted task.key task.uninterrupted
      | _ => system.uninterrupted }

def addTask (key : PullRequestKey) (run : TaskRun) : RequestSystem DrvId :=
  { system with tasks := system.tasks ++ [⟨key, run, true⟩] }

def step : RequestAction DrvId → Option (RequestSystem DrvId)
  | .push key head => some { system with head := Function.update system.head key head }
  | .webhook settings approvedUsers event =>
    some { system with
      webhooks := system.webhooks ++ [(settings.handleGithubPr approvedUsers event).map WebhookPoint.call] }
  | .handle index =>
    match system.webhooks[index]? with
    | some (point :: rest) =>
      let result := system.handlePoint schema point
      some { result.1 with webhooks := system.webhooks.set index (result.2 ++ rest) }
    | _ => none
  | .command key command => some (system.addTask key (.authorize command))
  | .cancelCommand key requesterId => some (system.addTask key (.cancel requesterId))
  | .checkAutoMerge key => some (system.addTask key .checkAutoMerge)
  | .task index answers => system.tasks[index]?.map fun task => system.advanceTask schema index task answers
  | .write jobsets jobs buildState differences isMaintainer =>
    some { system with db := ⟨system.db.requests, jobsets, jobs, buildState, differences, isMaintainer⟩ }
  | .setAutoMerge key enabled method =>
    some { system with
      db := system.db.modifyRequest key.repository key.prNumber fun request =>
        { request with autoMergeEnabled := enabled, mergeMethod := method } }

/-- A requested merge belongs to an open pull request that was not closed since the
command, and so does every merge that a comment has brought about. -/
structure PendingOpen (system : RequestSystem DrvId) : Prop where
  pending : ∀ key, system.db.HasPending key → system.state key = "open" ∧ system.uninterrupted key = true
  merged : ∀ merge ∈ system.merged, merge.pending ≠ none → merge.uninterrupted = true

end RequestSystem

/-- The task is on its way to record a request, or to merge because of one. -/
def TaskRun.carries : TaskRun → Bool
  | .authorize _ | .checkMaintainer _ _ | .pin _ _ | .record _ _ _ => true
  | .readChanged _ pending | .merge _ pending => pending.isSome
  | _ => false

/-- A pull request is closed only while no merge is requested for it and none is on its
way, and a merge is recorded only for an open one. -/
def RequestSystem.Withdraws (system : RequestSystem DrvId) : RequestAction DrvId → Prop
  | .handle index => ∀ pr state rest key,
    system.webhooks[index]? = some (.call (.storePrMetadata pr state) :: rest) → state ≠ "open" → pr.key = some key →
      ¬system.db.HasPending key ∧ ∀ task ∈ system.tasks, task.key = key → task.run.carries = false
  | .task index _ => ∀ task command hasWrite sha, system.tasks[index]? = some task →
    task.run = .record command hasWrite sha → system.state task.key = "open"
  | _ => True

section Rows

variable {db : ForgeDatabase DrvId} {key changed : PullRequestKey} {modify : PullRequest → PullRequest}

theorem PullRequestKey.same_iff :
    key.repository = changed.repository ∧ key.prNumber = changed.prNumber ↔ key = changed := by
  obtain ⟨owner, repoName, number⟩ := key
  obtain ⟨owner', repoName', number'⟩ := changed
  simp [PullRequestKey.repository, and_assoc]

theorem hasPending_modifyRequest
    (keeps : ∀ request, (modify request).repository = request.repository ∧ (modify request).number = request.number) :
    (db.modifyRequest changed.repository changed.prNumber modify).HasPending key ↔
      ∃ row request, db.findRequest key.repository key.prNumber = some row ∧
        (if key = changed then modify row else row).pendingCommentMerge = some request := by
  rw [ForgeDatabase.HasPending, findRequest_modifyRequest keeps]
  simp only [PullRequestKey.same_iff]
  constructor
  · rintro ⟨row, request, found, pending⟩
    obtain ⟨before, earlier, rfl⟩ := Option.map_eq_some_iff.mp found
    exact ⟨before, request, earlier, pending⟩
  · rintro ⟨row, request, found, pending⟩
    exact ⟨_, request, Option.map_eq_some_iff.mpr ⟨row, found, rfl⟩, pending⟩

theorem hasPending_of_modifyRequest
    (keeps : ∀ request, (modify request).repository = request.repository ∧ (modify request).number = request.number)
    (same : ∀ request, (modify request).pendingCommentMerge = request.pendingCommentMerge)
    (pending : (db.modifyRequest changed.repository changed.prNumber modify).HasPending key) : db.HasPending key := by
  obtain ⟨row, request, found, pending⟩ := (hasPending_modifyRequest keeps).mp pending
  refine ⟨row, request, found, ?_⟩
  split at pending
  · exact same row ▸ pending
  · exact pending

theorem hasPending_of_clear
    (pending : (db.clearCommentMergeRequest changed.repository changed.prNumber).HasPending key) :
    key ≠ changed ∧ db.HasPending key := by
  obtain ⟨row, request, found, pending⟩ := (hasPending_modifyRequest (by exact fun _ => ⟨rfl, rfl⟩)).mp pending
  split at pending
  · cases pending
  · rename_i different
    exact ⟨different, row, request, found, pending⟩

theorem hasPending_of_set {sha : String} {command : MergeCommand}
    (pending : (db.setCommentMergeRequest changed.repository changed.prNumber sha command).HasPending key) :
    key = changed ∨ db.HasPending key := by
  obtain ⟨row, request, found, pending⟩ := (hasPending_modifyRequest (by exact fun _ => ⟨rfl, rfl⟩)).mp pending
  split at pending
  · rename_i same
    exact Or.inl same
  · exact Or.inr ⟨row, request, found, pending⟩

theorem hasPending_of_upsert {head : String}
    (pending : (db.upsertPullRequest changed.repository changed.prNumber head).HasPending key) : db.HasPending key := by
  rw [ForgeDatabase.upsertPullRequest] at pending
  split at pending
  · exact hasPending_of_modifyRequest (by exact fun _ => ⟨rfl, rfl⟩) (by exact fun _ => rfl) pending
  · obtain ⟨row, request, found, pending⟩ := pending
    rw [ForgeDatabase.findRequest, List.find?_append] at found
    rcases Option.or_eq_some_iff.mp found with found | ⟨-, added⟩
    · exact ⟨row, request, found, pending⟩
    · rw [List.mem_singleton.mp (List.mem_of_find?_eq_some added)] at pending
      cases pending

end Rows

/-! What a step of a task does to the requests and with the one that it carries. -/

section Tasks

variable {schema : Schema} {db : ForgeDatabase DrvId} {key : PullRequestKey} {head : String} {answers : TaskAnswers}
  {run next : TaskRun}

/-- Only a task that is to record makes a request where there was none, and none is left by
one that clears. -/
theorem hasPending_of_advance {other : PullRequestKey}
    (pending : (run.advance schema key.repository key.prNumber db head answers).db.HasPending other) :
    db.HasPending other ∨ other = key ∧ ∃ command hasWrite sha, run = .record command hasWrite sha := by
  obtain same | same | ⟨command, hasWrite, sha, rfl, same⟩ :=
    advance_db schema key.repository key.prNumber db head answers run
  · rw [same] at pending
    exact Or.inl pending
  · rw [same] at pending
    exact Or.inl (hasPending_of_clear pending).2
  · rw [same] at pending
    rcases hasPending_of_set pending with own | before
    · exact Or.inr ⟨own, command, hasWrite, sha, rfl⟩
    · exact Or.inl before

theorem carries_of_next (member : next ∈ (run.advance schema key.repository key.prNumber db head answers).next)
    (carries : next.carries = true) : run.carries = true ∨ run = .readRow ∧ db.HasPending key := by
  cases leads_of_mem_next member with
  | mayWrite | asks | maintains | pins => exact Or.inl rfl
  | active request pending found active =>
    obtain ⟨pending, rfl⟩ := Option.isSome_iff_exists.mp carries
    exact Or.inr ⟨rfl, request, pending, found, (MergeSystem.sha_of_activePath active).1⟩
  | decided request method pending => exact Or.inl carries
  | _ => cases carries

theorem carries_of_landed {landing : Landing}
    (member : landing ∈ (run.advance schema key.repository key.prNumber db head answers).landed)
    (requested : landing.pending ≠ none) : run.carries = true := by
  obtain ⟨method, pending, rfl, rfl⟩ :=
    (advance_outcomes schema key.repository key.prNumber db head answers run).2 landing member
  exact Option.isSome_iff_ne_none.mpr requested

end Tasks

namespace RequestSystem

variable {schema : Schema} {system next : RequestSystem DrvId} {action : RequestAction DrvId}

/-- What holds while pull requests are closed only when nothing is requested. -/
structure Undisturbed (system : RequestSystem DrvId) : Prop extends PendingOpen system where
  tasks : ∀ task ∈ system.tasks, task.run.carries = true → task.uninterrupted = true

theorem undisturbed_start (stored : StoredRequests DrvId) (head : PullRequestKey → String) :
    Undisturbed (start stored head) where
  pending key pending := ⟨stored.pendingOpen key pending, rfl⟩
  merged _ member := absurd member List.not_mem_nil
  tasks _ member := absurd member List.not_mem_nil

namespace Undisturbed

theorem withDb (undisturbed : Undisturbed system) {db : ForgeDatabase DrvId}
    (fewer : ∀ key, db.HasPending key → system.db.HasPending key) : Undisturbed { system with db := db } where
  pending key pending := undisturbed.pending key (fewer key pending)
  merged := undisturbed.merged
  tasks := undisturbed.tasks

theorem withWebhooks (undisturbed : Undisturbed system) (webhooks : List (List WebhookPoint)) :
    Undisturbed { system with webhooks := webhooks } :=
  ⟨⟨undisturbed.pending, undisturbed.merged⟩, undisturbed.tasks⟩

theorem addTask (undisturbed : Undisturbed system) (key : PullRequestKey) (run : TaskRun) :
    Undisturbed (system.addTask key run) where
  pending := undisturbed.pending
  merged := undisturbed.merged
  tasks task member carries := by
    rcases mem_snoc.mp member with earlier | rfl
    · exact undisturbed.tasks task earlier carries
    · rfl

theorem interrupt (undisturbed : Undisturbed system) {key : PullRequestKey} (free : ¬system.db.HasPending key)
    (idle : ∀ task ∈ system.tasks, task.key = key → task.run.carries = false) : Undisturbed (system.interrupt key) where
  pending other pending := by
    have different : other ≠ key := fun same => free (same ▸ pending)
    obtain ⟨isOpen, uninterrupted⟩ := undisturbed.pending other pending
    refine ⟨isOpen, ?_⟩
    rw [RequestSystem.interrupt]
    exact (Function.update_of_ne different _ _).trans uninterrupted
  merged := undisturbed.merged
  tasks task member carries := by
    obtain ⟨before, earlier, rfl⟩ := List.mem_map.mp member
    have different : before.key ≠ key := by
      intro same
      rw [idle before earlier same] at carries
      cases carries
    simp [different, undisturbed.tasks before earlier carries]

theorem setState (undisturbed : Undisturbed system) {key : PullRequestKey} {state : String}
    (free : state ≠ "open" → ¬system.db.HasPending key) : Undisturbed (system.setState key state) where
  pending other pending := by
    obtain ⟨isOpen, uninterrupted⟩ := undisturbed.pending other pending
    refine ⟨?_, uninterrupted⟩
    by_cases same : other = key
    · subst other
      have still : state = "open" := by
        by_contra closed
        exact free closed pending
      exact (Function.update_self _ _ _).trans still
    · exact (Function.update_of_ne same _ _).trans isOpen
  merged := undisturbed.merged
  tasks := undisturbed.tasks

theorem storePrMetadata (undisturbed : Undisturbed system) {pr : PullRequestPayload} {state : String}
    (free : state ≠ "open" → ∀ key, pr.key = some key →
      ¬system.db.HasPending key ∧ ∀ task ∈ system.tasks, task.key = key → task.run.carries = false) :
    Undisturbed (system.storePrMetadata pr state) := by
  rw [RequestSystem.storePrMetadata]
  cases found : pr.key with
  | none => exact undisturbed
  | some key =>
    dsimp only
    have noted : Undisturbed (if state = "open" then system else system.interrupt key) := by
      split
      · exact undisturbed
      · rename_i closed
        exact undisturbed.interrupt (free closed key found).1 (free closed key found).2
    have same : (if state = "open" then system else system.interrupt key).db = system.db := by
      split <;> rfl
    split
    · refine (noted.setState fun closed => same ▸ (free closed key found).1).withDb fun other pending => ?_
      exact same.symm ▸ hasPending_of_upsert pending
    · exact noted

theorem handlePoint (undisturbed : Undisturbed system) {point : WebhookPoint}
    (free : ∀ pr state, point = .call (.storePrMetadata pr state) → state ≠ "open" → ∀ key, pr.key = some key →
      ¬system.db.HasPending key ∧ ∀ task ∈ system.tasks, task.key = key → task.run.carries = false) :
    Undisturbed (system.handlePoint schema point).1 := by
  cases point with
  | clear key => exact undisturbed.withDb fun other pending => (hasPending_of_clear pending).2
  | call call =>
    cases call with
    | storePrMetadata pr state => exact undisturbed.storePrMetadata (free pr state rfl)
    | _ => exact undisturbed

theorem uninterrupted_advanceTask {index : Nat} {task : MergeTask} {answers : TaskAnswers} {other : PullRequestKey}
    (carried : task.run.carries = true → task.uninterrupted = true)
    (kept : system.uninterrupted other = true ∨
      other = task.key ∧ ∃ command hasWrite sha, task.run = .record command hasWrite sha) :
    (system.advanceTask schema index task answers).uninterrupted other = true := by
  rw [RequestSystem.advanceTask]
  dsimp only
  cases recording : task.run with
  | record command hasWrite sha =>
    dsimp only
    by_cases own : other = task.key
    · rw [own, Function.update_self]
      exact carried (recording ▸ rfl)
    · rw [Function.update_of_ne own]
      exact kept.resolve_right fun recorded => own recorded.1
  | _ =>
    apply kept.resolve_right
    rintro ⟨-, command, hasWrite, sha, same⟩
    rw [recording] at same
    cases same

theorem state_advanceTask {index : Nat} {task : MergeTask} {answers : TaskAnswers} {other : PullRequestKey}
    (pending : (system.advanceTask schema index task answers).db.HasPending other) :
    (system.advanceTask schema index task answers).state other = system.state other := by
  rw [RequestSystem.advanceTask] at pending ⊢
  dsimp only at pending ⊢
  split
  · rename_i marking
    rw [marking] at pending
    exact Function.update_of_ne (hasPending_of_clear pending).1 _ _
  · rfl

/-- A task that records does so for an open pull request, and has been on its way without a
close. -/
theorem advanceTask (undisturbed : Undisturbed system) {index : Nat} {task : MergeTask} (answers : TaskAnswers)
    (member : task ∈ system.tasks)
    (isOpen : ∀ command hasWrite sha, task.run = .record command hasWrite sha → system.state task.key = "open") :
    Undisturbed (system.advanceTask schema index task answers) := by
  have carried : task.run.carries = true → task.uninterrupted = true := undisturbed.tasks task member
  have goesOn : task.run.carries = true ∨ task.run = .readRow ∧ system.db.HasPending task.key →
      (if task.run = .readRow then system.uninterrupted task.key else task.uninterrupted) = true := by
    rintro (carries | ⟨reading, pending⟩)
    · split
      · rename_i reading
        rw [reading] at carries
        cases carries
      · exact carried carries
    · rw [if_pos reading]
      exact (undisturbed.pending _ pending).2
  refine ⟨⟨fun other pending => ?_, fun merge landed requested => ?_⟩, fun later queued carries => ?_⟩
  · rw [state_advanceTask pending]
    rcases hasPending_of_advance pending with before | ⟨rfl, recording⟩
    · obtain ⟨stillOpen, uninterrupted⟩ := undisturbed.pending other before
      exact ⟨stillOpen, uninterrupted_advanceTask carried (Or.inl uninterrupted)⟩
    · obtain ⟨command, hasWrite, sha, recorded⟩ := recording
      exact ⟨isOpen _ _ _ recorded, uninterrupted_advanceTask carried (Or.inr ⟨rfl, _, _, _, recorded⟩)⟩
  · rcases List.mem_append.mp landed with earlier | now
    · exact undisturbed.merged merge earlier requested
    · obtain ⟨landing, done, rfl⟩ := List.mem_map.mp now
      exact goesOn (Or.inl (carries_of_landed done requested))
  · rcases List.mem_append.mp queued with earlier | now
    · exact undisturbed.tasks later (List.mem_of_mem_eraseIdx earlier) carries
    · obtain ⟨run, follows, rfl⟩ := List.mem_map.mp now
      exact goesOn (carries_of_next follows carries)

theorem step (undisturbed : Undisturbed system) (meets : system.Withdraws action)
    (taken : system.step schema action = some next) : Undisturbed next := by
  cases action with
  | push key head =>
    cases Option.some.inj taken
    exact ⟨⟨undisturbed.pending, undisturbed.merged⟩, undisturbed.tasks⟩
  | webhook settings approvedUsers event =>
    cases Option.some.inj taken
    exact undisturbed.withWebhooks _
  | handle index =>
    rw [RequestSystem.step] at taken
    split at taken
    · rename_i point rest found
      cases Option.some.inj taken
      refine Undisturbed.withWebhooks (undisturbed.handlePoint ?_) _
      rintro pr state rfl closed key same
      exact meets pr state rest key found closed same
    · cases taken
  | command key command | cancelCommand key requesterId | checkAutoMerge key =>
    cases Option.some.inj taken
    exact undisturbed.addTask key _
  | task index answers =>
    obtain ⟨task, found, rfl⟩ := Option.map_eq_some_iff.mp taken
    exact undisturbed.advanceTask answers (List.mem_of_getElem? found) fun command hasWrite sha => meets task command hasWrite sha found
  | write jobsets jobs buildState differences isMaintainer =>
    cases Option.some.inj taken
    exact undisturbed.withDb fun key pending => pending
  | setAutoMerge key enabled method =>
    cases Option.some.inj taken
    exact undisturbed.withDb fun other pending =>
      hasPending_of_modifyRequest (by exact fun _ => ⟨rfl, rfl⟩) (by exact fun _ => rfl) pending

end Undisturbed

/-- While pull requests are closed only when nothing is requested for them, what is requested
is for open ones. -/
theorem run_pendingOpen (schema : Schema) (stored : StoredRequests DrvId) (head : PullRequestKey → String)
    {actions : List (RequestAction DrvId)} {final : RequestSystem DrvId}
    (run : Run (step schema) Withdraws (start stored head) actions final) : final.PendingOpen := by
  have undisturbed : final.Undisturbed := run.invariant (undisturbed_start stored head) fun _ _ _ before meets taken =>
    before.step meets taken
  exact undisturbed.toPendingOpen

def seven : PullRequestKey := ⟨"ekala", "corepkgs", 7⟩

def built : PullRequest :=
  ⟨.gitHub "ekala" "corepkgs", 7, "c0ffee", some 1, false, none, none, none, none, none, none, none⟩

def requested : PullRequest :=
  { built with
    commentMergeSha := some "c0ffee"
    commentMergeRequesterId := some 5
    commentMergeRequesterLogin := some "ada"
    commentMergeCommentId := some 71
    commentMergeRequestedAt := some "CURRENT_TIMESTAMP" }

/-- The tables with the one row. -/
def only (request : PullRequest) : StoredRequests Nat where
  db := { MergeSystem.built with requests := [request] }
  state _ := "open"
  pendingOpen _ _ := rfl

def service : WebhookSettings := ⟨true, false, false, [⟨"ci", true, [], []⟩]⟩

def payload : PullRequestPayload :=
  let repo : RepositoryPayload := ⟨"corepkgs", some "ekala"⟩
  ⟨7, some ⟨"ada", 5⟩, none, ⟨"feature", "c0ffee", some repo⟩, ⟨"main", "deadbeef", some repo⟩, none, none, none⟩

def heads : PullRequestKey → String := fun _ => "c0ffee"

def writer : TaskAnswers := ⟨some true, true, ⟨true, none, some true⟩, true⟩

def requestMerge : List (RequestAction Nat) :=
  [.command seven ⟨5, "ada", 71, none⟩, .task 0 writer, .task 0 writer, .task 0 writer]

theorem run_pendingOpen_requestMerge : ∃ final,
    Run (step .completed) Withdraws (start (only built) heads) requestMerge final ∧ final.db.HasPending seven ∧
      final.PendingOpen := by
  have run : ∃ final, Run (step .completed) Withdraws (start (only built) heads) requestMerge final ∧
      (final.db.findRequest seven.repository seven.prNumber).any (·.pendingCommentMerge.isSome) = true := by
    refine ⟨_, .cons trivial rfl (.cons ?_ rfl (.cons ?_ rfl (.cons ?_ rfl .start))), by decide⟩
    all_goals exact fun _ _ _ _ _ _ => rfl
  obtain ⟨final, run, pending⟩ := run
  obtain ⟨row, found, some⟩ := (Option.any_eq_true _ _).mp pending
  obtain ⟨request, pending⟩ := Option.isSome_iff_exists.mp some
  exact ⟨final, run, ⟨row, request, found, pending⟩, run_pendingOpen .completed (only built) heads run⟩

/-- A pull request that was closed and opened again is merged because of the command from before. -/
theorem reopened_not_pendingOpen : ∃ final,
    AnyRun (step .completed) (start (only built) heads)
      (requestMerge ++ [.webhook service (some []) ⟨.closed, payload⟩, .handle 0,
        .webhook service (some []) ⟨.reopened, payload⟩, .handle 1, .checkAutoMerge seven, .task 1 writer, .task 1 writer,
        .task 1 writer, .task 1 writer]) final ∧ ¬final.PendingOpen := by
  refine exists_run_of_exec_imp (p := fun final => final.merged = [⟨seven, some ⟨"c0ffee", none, 5, "ada"⟩, false⟩])
    (by decide) fun final run merged holds => ?_
  have uninterrupted := holds.merged ⟨seven, some ⟨"c0ffee", none, 5, "ada"⟩, false⟩
    (by rw [merged]; exact List.mem_singleton_self _) (Option.some_ne_none _)
  cases uninterrupted

end RequestSystem

end EkaCI
