import EkaCI.Forge.AutoMerge
import EkaCI.Lib.Run

/-! Merges that are requested in a comment. Pushes, their webhooks and the tasks of
the service interleave at every access to the database: a request is pinned to the
head that the stored row has when it is recorded, and the merge call is made later,
without a commit. -/

namespace EkaCI

open Lib

variable {DrvId : Type}

structure MergeCommand where
  requesterId : Nat
  requesterLogin : String
  commentId : Nat
  method : Option String
  deriving DecidableEq, Repr

/-- A webhook of the pull request, up to where it has been handled. -/
inductive WebhookRun where
  /-- The head of the payload is to be stored; only `Synchronize` goes on. -/
  | store (head : String) (synchronize : Bool)
  | checkDrift (head : String)
  | clear

/-- A task of the service, up to where it has been handled. -/
inductive TaskRun where
  | authorize (command : MergeCommand)
  | checkMaintainer (command : MergeCommand) (changed : List String)
  | pin (command : MergeCommand) (hasWrite : Bool)
  | record (command : MergeCommand) (hasWrite : Bool) (sha : String)
  | cancel (requesterId : Nat)
  | cancelAuthorize (requesterId : Nat)
  | cancelCheckMaintainer (requesterId : Nat) (changed : List String)
  | cancelClear
  | checkAutoMerge
  | readRow
  | readChanged (request : PullRequest) (pending : Option CommentMergeRequest)
  | cancelDrifted
  | merge (method : String) (pending : Option CommentMergeRequest)
  | markMerged
  deriving DecidableEq, Repr

/-- A pending merge was recorded; the packages are those of the jobsets of the
commit that it is pinned to. -/
structure Recording where
  sha : String
  requesterId : Nat
  hasWrite : Bool
  packages : List String
  maintained : List String
  deriving DecidableEq, Repr

/-- A merge that the forge has performed, with the head that it merged. -/
structure Landing where
  pending : Option CommentMergeRequest
  head : String
  deriving DecidableEq, Repr

structure MergeSystem (DrvId : Type) where
  db : ForgeDatabase DrvId
  /-- The head of the pull request on the forge. -/
  head : String
  webhooks : List WebhookRun
  tasks : List TaskRun
  recorded : List Recording
  landed : List Landing

structure TaskAnswers where
  /-- Whether the user may write; `none` if the lookup fails. -/
  permission : Option Bool
  /-- No newer push is seen when a request is pinned. -/
  timely : Bool
  forge : ForgeAnswers
  mergeAccepted : Bool

inductive MergeAction (DrvId : Type) where
  | push (head : String)
  /-- A webhook that stores the pull request and does not check for drift. -/
  | storeMetadata (head : String)
  | webhook (index : Nat)
  | command (command : MergeCommand)
  | cancelCommand (requesterId : Nat)
  | checkAutoMerge
  | task (index : Nat) (answers : TaskAnswers)
  /-- Evaluations and builds write their tables, users their settings. -/
  | write (jobsets : List ForgeJobSet) (jobs : Forge → List (Job DrvId)) (buildState : DrvId → DrvBuildState)
      (differences : List AttrDifference) (isMaintainer : Nat → String → Bool)
  | setAutoMerge (enabled : Bool) (method : Option String)

namespace ForgeDatabase

variable (schema : Schema) (db : ForgeDatabase DrvId) (repository : Repository) (number : Nat)

def modifyRequest (modify : PullRequest → PullRequest) : ForgeDatabase DrvId :=
  { db with
    requests := db.requests.map fun request =>
      if request.repository = repository ∧ request.number = number then modify request else request }

def upsertPullRequest (head : String) : ForgeDatabase DrvId :=
  match db.findRequest repository number with
  | some _ => db.modifyRequest repository number fun request => { request with headSha := head }
  | none =>
    { db with
      requests := db.requests ++
        [⟨repository, number, head, none, false, none, none, none, none, none, none, none⟩] }

def setCommentMergeRequest (sha : String) (command : MergeCommand) : ForgeDatabase DrvId :=
  db.modifyRequest repository number fun request =>
    { request with
      commentMergeSha := some sha
      commentMergeMethod := command.method
      commentMergeRequesterId := some command.requesterId
      commentMergeRequesterLogin := some command.requesterLogin
      commentMergeCommentId := some command.commentId
      commentMergeRequestedAt := some "CURRENT_TIMESTAMP" }

def clearCommentMergeRequest : ForgeDatabase DrvId :=
  db.modifyRequest repository number fun request =>
    { request with
      commentMergeSha := none
      commentMergeMethod := none
      commentMergeRequesterId := none
      commentMergeRequesterLogin := none
      commentMergeCommentId := none
      commentMergeRequestedAt := none }

def newOrChangedPackages (sha : String) : List String :=
  ((db.jobs repository.forge).filter fun row =>
    (row.difference = .new ∨ row.difference = .changed) ∧
      db.jobsets.any fun jobset => jobset.rowid = row.jobset ∧ jobset.sha = sha ∧ jobset.repository = repository).map
    Job.name

def isMaintainerOfAllPackages (requesterId : Nat) (packages : List String) : Bool :=
  packages ≠ [] ∧ packages.all (db.isMaintainer requesterId)

end ForgeDatabase

/-- What a step of a task leaves: the database, what is still to be done and what
was recorded or merged. -/
structure TaskResult (DrvId : Type) where
  db : ForgeDatabase DrvId
  next : List TaskRun
  recorded : List Recording
  landed : List Landing

namespace TaskRun

variable (schema : Schema) (repository : Repository) (number : Nat)

/-- Nothing is written. -/
def goesOn (db : ForgeDatabase DrvId) (next : List TaskRun) : TaskResult DrvId := ⟨db, next, [], []⟩

/-- A read that fails ends the task. -/
def afterRead {A : Type} (db : ForgeDatabase DrvId) (read : Except ServiceError A) (next : A → List TaskRun) :
    TaskResult DrvId :=
  match read with
  | .error _ => goesOn db []
  | .ok value => goesOn db (next value)

/-- A failed read of the changed packages counts as none. -/
def changedOrNone (db : ForgeDatabase DrvId) : List String :=
  match db.getPrChangedPackages schema repository number with
  | .error _ => []
  | .ok changed => changed

/-- The changed packages of the row that was read decide about the merge. -/
def afterChanged (request : PullRequest) (pending : Option CommentMergeRequest) (answers : TaskAnswers)
    (changed : List String) : List TaskRun :=
  match request.decideMerge pending changed answers.forge with
  | .ok (.merge method pending) => [.merge method pending]
  | _ => []

/-- A task up to its next access to the database, or up to the merge call. -/
def advance (db : ForgeDatabase DrvId) (head : String) (answers : TaskAnswers) : TaskRun → TaskResult DrvId
  | .authorize command =>
    match answers.permission with
    | none => goesOn db []
    | some true => goesOn db [.pin command true]
    | some false => goesOn db [.checkMaintainer command (changedOrNone schema repository number db)]
  | .checkMaintainer command changed =>
    goesOn db (if db.isMaintainerOfAllPackages command.requesterId changed then [.pin command false] else [])
  | .pin command hasWrite =>
    afterRead db (db.getPullRequestRow schema repository number) fun row =>
      match row with
      | some request => if answers.timely then [.record command hasWrite request.headSha] else []
      | none => []
  | .record command hasWrite sha =>
    if (db.findRequest repository number).isSome then
      { db := db.setCommentMergeRequest repository number sha command
        next := [.checkAutoMerge]
        recorded := [⟨sha, command.requesterId, hasWrite, db.newOrChangedPackages repository sha,
          (db.newOrChangedPackages repository sha).filter (db.isMaintainer command.requesterId)⟩]
        landed := [] }
    else goesOn db []
  | .cancel requesterId =>
    afterRead db (db.getPullRequestRow schema repository number) fun row =>
      match row.bind PullRequest.pendingCommentMerge with
      | none => []
      | some pending => if requesterId = pending.requesterId then [.cancelClear] else [.cancelAuthorize requesterId]
  | .cancelAuthorize requesterId =>
    match answers.permission with
    | none => goesOn db []
    | some true => goesOn db [.cancelClear]
    | some false => goesOn db [.cancelCheckMaintainer requesterId (changedOrNone schema repository number db)]
  | .cancelCheckMaintainer requesterId changed =>
    goesOn db (if db.isMaintainerOfAllPackages requesterId changed then [.cancelClear] else [])
  | .cancelClear => goesOn (db.clearCommentMergeRequest repository number) []
  | .checkAutoMerge =>
    if answers.forge.hasInstallation then
      afterRead db (db.prHeadBuildSucceeded schema repository number) fun succeeded =>
        if succeeded then [.readRow] else []
    else goesOn db []
  | .readRow =>
    afterRead db (db.getPullRequestRow schema repository number) fun row =>
      match row with
      | none => []
      | some request =>
        match request.activePath with
        | .error (.drifted _) => [.cancelDrifted]
        | .error _ => []
        | .ok pending => [.readChanged request pending]
  | .readChanged request pending =>
    afterRead db (db.getPrChangedPackages schema repository number) (afterChanged request pending answers)
  | .cancelDrifted => goesOn (db.clearCommentMergeRequest repository number) []
  | .merge _ pending =>
    -- the call names no commit, so the forge merges the head that it has
    if answers.mergeAccepted then ⟨db, [.markMerged], [], [⟨pending, head⟩]⟩ else goesOn db []
  | .markMerged => goesOn (db.clearCommentMergeRequest repository number) []

end TaskRun

namespace WebhookRun

def advance (schema : Schema) (repository : Repository) (number : Nat) (db : ForgeDatabase DrvId) :
    WebhookRun → ForgeDatabase DrvId × List WebhookRun
  | .store head synchronize =>
    (db.upsertPullRequest repository number head, if synchronize then [.checkDrift head] else [])
  | .checkDrift head =>
    match db.getPullRequestRow schema repository number with
    | .error _ => (db, [])
    | .ok row =>
      match row.bind PullRequest.pendingCommentMerge with
      | none => (db, [])
      | some pending => (db, if pending.sha = head then [] else [.clear])
  | .clear => (db.clearCommentMergeRequest repository number, [])

end WebhookRun

namespace MergeSystem

variable (schema : Schema) (repository : Repository) (number : Nat)

def start (db : ForgeDatabase DrvId) (head : String) : MergeSystem DrvId := ⟨db, head, [], [], [], []⟩

/-- One step of the forge, of a webhook or of a task. -/
def step (system : MergeSystem DrvId) : MergeAction DrvId → Option (MergeSystem DrvId)
  | .push head => some { system with head := head, webhooks := system.webhooks ++ [.store head true] }
  | .storeMetadata head => some { system with webhooks := system.webhooks ++ [.store head false] }
  | .webhook index =>
    system.webhooks[index]?.map fun webhook =>
      let result := webhook.advance schema repository number system.db
      { system with db := result.1, webhooks := system.webhooks.eraseIdx index ++ result.2 }
  | .command command => some { system with tasks := system.tasks ++ [.authorize command] }
  | .cancelCommand requesterId => some { system with tasks := system.tasks ++ [.cancel requesterId] }
  | .checkAutoMerge => some { system with tasks := system.tasks ++ [.checkAutoMerge] }
  | .task index answers =>
    system.tasks[index]?.map fun task =>
      let result := task.advance schema repository number system.db system.head answers
      { system with
        db := result.db
        tasks := system.tasks.eraseIdx index ++ result.next
        recorded := system.recorded ++ result.recorded
        landed := system.landed ++ result.landed }
  | .write jobsets jobs buildState differences isMaintainer =>
    some { system with db := ⟨system.db.requests, jobsets, jobs, buildState, differences, isMaintainer⟩ }
  | .setAutoMerge enabled method =>
    some { system with
      db := system.db.modifyRequest repository number fun request =>
        { request with autoMergeEnabled := enabled, mergeMethod := method } }

/-- A merge that a comment has requested lands the commit it is pinned to. -/
def LandsPinned (system : MergeSystem DrvId) : Prop :=
  ∀ landing ∈ system.landed, ∀ pending ∈ landing.pending, landing.head = pending.sha

/-- Who cannot write has pinned only what he maintains. -/
def PinsMaintained (system : MergeSystem DrvId) : Prop :=
  ∀ recording ∈ system.recorded, recording.hasWrite = false → ∀ package ∈ recording.packages,
    package ∈ recording.maintained

end MergeSystem

section Rows

variable {db : ForgeDatabase DrvId} {repository changed : Repository} {number changedNumber : Nat}
  {modify : PullRequest → PullRequest}

theorem findRequest_modifyRequest
    (keeps : ∀ request, (modify request).repository = request.repository ∧ (modify request).number = request.number) :
    (db.modifyRequest changed changedNumber modify).findRequest repository number =
      (db.findRequest repository number).map fun row =>
        if repository = changed ∧ number = changedNumber then modify row else row := by
  rw [ForgeDatabase.findRequest, ForgeDatabase.modifyRequest, List.find?_map]
  have same : ((fun request : PullRequest => decide (request.repository = repository ∧ request.number = number)) ∘
      fun request => if request.repository = changed ∧ request.number = changedNumber then modify request
        else request) = fun request => decide (request.repository = repository ∧ request.number = number) := by
    funext request
    dsimp only [Function.comp_apply]
    split
    · rw [(keeps request).1, (keeps request).2]
    · rfl
  rw [same]
  refine Option.map_congr fun row found => ?_
  have found : row.repository = repository ∧ row.number = number := by simpa using List.find?_some found
  simp only [found.1, found.2]

def ForgeDatabase.storedHead (db : ForgeDatabase DrvId) (repository : Repository) (number : Nat) : Option String :=
  (db.findRequest repository number).map PullRequest.headSha

theorem storedHead_modifyRequest
    (keeps : ∀ request, (modify request).repository = request.repository ∧ (modify request).number = request.number)
    (same : ∀ request, (modify request).headSha = request.headSha) :
    (db.modifyRequest changed changedNumber modify).storedHead repository number = db.storedHead repository number := by
  rw [ForgeDatabase.storedHead, findRequest_modifyRequest keeps, Option.map_map]
  refine Option.map_congr fun row _ => ?_
  rw [Function.comp_apply, apply_ite PullRequest.headSha, same, ite_self]

theorem storedHead_upsertPullRequest (head : String) :
    (db.upsertPullRequest repository number head).storedHead repository number = some head := by
  rw [ForgeDatabase.upsertPullRequest]
  split
  next request found =>
    rw [ForgeDatabase.storedHead, findRequest_modifyRequest (by exact fun _ => ⟨rfl, rfl⟩), found, Option.map_some,
      if_pos ⟨rfl, rfl⟩]
    rfl
  next none =>
    rw [ForgeDatabase.storedHead, ForgeDatabase.findRequest, List.find?_append]
    rw [ForgeDatabase.findRequest] at none
    rw [none, Option.none_or, List.find?_cons_of_pos (by simp)]
    rfl

end Rows

section Advance

variable {schema : Schema} {repository : Repository} {number : Nat} {db : ForgeDatabase DrvId} {head : String}
  {answers : TaskAnswers} {task next : TaskRun}

variable (schema repository number db answers) in
inductive TaskRun.Leads : TaskRun → TaskRun → Prop where
  | mayWrite (command : MergeCommand) (permitted : answers.permission = some true) :
    Leads (.authorize command) (.pin command true)
  | asks (command : MergeCommand) (readOnly : answers.permission = some false) :
    Leads (.authorize command) (.checkMaintainer command (changedOrNone schema repository number db))
  | maintains (command : MergeCommand) (changed : List String)
    (all : db.isMaintainerOfAllPackages command.requesterId changed = true) :
    Leads (.checkMaintainer command changed) (.pin command false)
  | pins (command : MergeCommand) (hasWrite : Bool) (request : PullRequest)
    (found : db.findRequest repository number = some request) :
    Leads (.pin command hasWrite) (.record command hasWrite request.headSha)
  | recorded (command : MergeCommand) (hasWrite : Bool) (sha : String) : Leads (.record command hasWrite sha) .checkAutoMerge
  | cancelsOwn (requesterId : Nat) : Leads (.cancel requesterId) .cancelClear
  | cancelsOther (requesterId : Nat) : Leads (.cancel requesterId) (.cancelAuthorize requesterId)
  | mayCancel (requesterId : Nat) : Leads (.cancelAuthorize requesterId) .cancelClear
  | asksToCancel (requesterId : Nat) : Leads (.cancelAuthorize requesterId)
      (.cancelCheckMaintainer requesterId (changedOrNone schema repository number db))
  | cancelsAsMaintainer (requesterId : Nat) (changed : List String)
    (all : db.isMaintainerOfAllPackages requesterId changed = true) :
    Leads (.cancelCheckMaintainer requesterId changed) .cancelClear
  | succeeded : Leads .checkAutoMerge .readRow
  | drifted : Leads .readRow .cancelDrifted
  | active (request : PullRequest) (pending : Option CommentMergeRequest)
    (found : db.findRequest repository number = some request) (path : request.activePath = .ok pending) :
    Leads .readRow (.readChanged request pending)
  | decided (request : PullRequest) (method : String) (pending : Option CommentMergeRequest) :
    Leads (.readChanged request pending) (.merge method pending)
  | landed (method : String) (pending : Option CommentMergeRequest) : Leads (.merge method pending) .markMerged

theorem mem_afterRead_next {A : Type} {read : Except ServiceError A} {followUp : A → List TaskRun}
    (member : next ∈ (TaskRun.afterRead db read followUp).next) : ∃ value, read = .ok value ∧ next ∈ followUp value := by
  cases read with
  | error error => cases member
  | ok value => exact ⟨value, rfl, member⟩

theorem afterRead_writes {A : Type} (read : Except ServiceError A) (followUp : A → List TaskRun) :
    (TaskRun.afterRead db read followUp).db = db ∧ (TaskRun.afterRead db read followUp).recorded = [] ∧
      (TaskRun.afterRead db read followUp).landed = [] := by
  cases read <;> exact ⟨rfl, rfl, rfl⟩

theorem leads_of_mem_next (member : next ∈ (task.advance schema repository number db head answers).next) :
    task.Leads schema repository number db answers next := by
  cases task with
  | authorize command =>
    rw [TaskRun.advance] at member
    split at member
    next => cases member
    next permitted =>
      cases List.mem_singleton.mp member
      exact .mayWrite command permitted
    next readOnly =>
      cases List.mem_singleton.mp member
      exact .asks command readOnly
  | checkMaintainer command changed =>
    obtain ⟨all, rfl⟩ := mem_ite_singleton.mp member
    exact .maintains command changed all
  | pin command hasWrite =>
    obtain ⟨row, read, member⟩ := mem_afterRead_next member
    cases row with
    | none => cases member
    | some request =>
      obtain ⟨-, rfl⟩ := mem_ite_singleton.mp member
      exact .pins command hasWrite request (getPullRequestRow_eq read)
  | record command hasWrite sha =>
    rw [TaskRun.advance] at member
    split at member
    next =>
      cases List.mem_singleton.mp member
      exact .recorded command hasWrite sha
    next => cases member
  | cancel requesterId =>
    obtain ⟨row, -, member⟩ := mem_afterRead_next member
    split at member
    next => cases member
    next =>
      split at member <;> cases List.mem_singleton.mp member
      exacts [.cancelsOwn requesterId, .cancelsOther requesterId]
  | cancelAuthorize requesterId =>
    rw [TaskRun.advance] at member
    split at member
    next => cases member
    all_goals cases List.mem_singleton.mp member
    exacts [.mayCancel requesterId, .asksToCancel requesterId]
  | cancelCheckMaintainer requesterId changed =>
    obtain ⟨all, rfl⟩ := mem_ite_singleton.mp member
    exact .cancelsAsMaintainer requesterId changed all
  | cancelClear | cancelDrifted | markMerged => cases member
  | checkAutoMerge =>
    rw [TaskRun.advance] at member
    split at member
    next =>
      obtain ⟨succeeded, -, member⟩ := mem_afterRead_next member
      obtain ⟨-, rfl⟩ := mem_ite_singleton.mp member
      exact .succeeded
    next => cases member
  | readRow =>
    obtain ⟨row, read, member⟩ := mem_afterRead_next member
    cases row with
    | none => cases member
    | some request =>
      dsimp only at member
      split at member
      next =>
        cases List.mem_singleton.mp member
        exact .drifted
      next => cases member
      next pending active =>
        cases List.mem_singleton.mp member
        exact .active request pending (getPullRequestRow_eq read) active
  | readChanged request pending =>
    obtain ⟨changed, -, member⟩ := mem_afterRead_next member
    rw [TaskRun.afterChanged] at member
    split at member
    next method kept decided =>
      cases List.mem_singleton.mp member
      obtain ⟨-, -, -, rfl, -⟩ := decideMerge_eq_merge_iff.mp decided
      exact .decided request method pending
    next => cases member
  | merge method pending =>
    rw [TaskRun.advance] at member
    split at member
    next =>
      cases List.mem_singleton.mp member
      exact .landed method pending
    next => cases member

theorem advance_db (schema : Schema) (repository : Repository) (number : Nat) (db : ForgeDatabase DrvId) (head : String)
    (answers : TaskAnswers) (task : TaskRun) :
    (task.advance schema repository number db head answers).db = db ∨
      (task.advance schema repository number db head answers).db = db.clearCommentMergeRequest repository number ∨
      ∃ command hasWrite sha, task = .record command hasWrite sha ∧
        (task.advance schema repository number db head answers).db =
          db.setCommentMergeRequest repository number sha command := by
  cases task with
  | authorize command | cancelAuthorize requesterId =>
    rw [TaskRun.advance]
    split <;> exact .inl rfl
  | checkMaintainer command changed | cancelCheckMaintainer requesterId changed => exact .inl rfl
  | pin command hasWrite | cancel requesterId | readRow | readChanged request pending => exact .inl (afterRead_writes _ _).1
  | record command hasWrite sha =>
    rw [TaskRun.advance]
    split
    · exact .inr (.inr ⟨command, hasWrite, sha, rfl, rfl⟩)
    · exact .inl rfl
  | cancelClear | cancelDrifted | markMerged => exact .inr (.inl rfl)
  | checkAutoMerge =>
    rw [TaskRun.advance]
    split
    · exact .inl (afterRead_writes _ _).1
    · exact .inl rfl
  | merge method pending =>
    rw [TaskRun.advance]
    split <;> exact .inl rfl

theorem advance_outcomes (schema : Schema) (repository : Repository) (number : Nat) (db : ForgeDatabase DrvId)
    (head : String) (answers : TaskAnswers) (task : TaskRun) :
    (∀ recording ∈ (task.advance schema repository number db head answers).recorded, ∃ command hasWrite sha,
      task = .record command hasWrite sha ∧
        recording = ⟨sha, command.requesterId, hasWrite, db.newOrChangedPackages repository sha,
          (db.newOrChangedPackages repository sha).filter (db.isMaintainer command.requesterId)⟩) ∧
    ∀ landing ∈ (task.advance schema repository number db head answers).landed, ∃ method pending,
      task = .merge method pending ∧ landing = ⟨pending, head⟩ := by
  have nothing {result : TaskResult DrvId} (recorded : result.recorded = []) (landed : result.landed = []) :
      (∀ recording ∈ result.recorded, ∃ command hasWrite sha, task = .record command hasWrite sha ∧
        recording = ⟨sha, command.requesterId, hasWrite, db.newOrChangedPackages repository sha,
          (db.newOrChangedPackages repository sha).filter (db.isMaintainer command.requesterId)⟩) ∧
      ∀ landing ∈ result.landed, ∃ method pending, task = .merge method pending ∧ landing = ⟨pending, head⟩ := by
    rw [recorded, landed]
    exact ⟨List.forall_mem_nil _, List.forall_mem_nil _⟩
  cases task with
  | authorize command | cancelAuthorize requesterId =>
    rw [TaskRun.advance]
    split <;> exact nothing rfl rfl
  | checkMaintainer command changed | cancelCheckMaintainer requesterId changed | cancelClear | cancelDrifted | markMerged =>
    exact nothing rfl rfl
  | pin command hasWrite | cancel requesterId | readRow | readChanged request pending =>
    exact nothing (afterRead_writes _ _).2.1 (afterRead_writes _ _).2.2
  | record command hasWrite sha =>
    rw [TaskRun.advance]
    split
    · exact ⟨fun recording member => ⟨command, hasWrite, sha, rfl, List.mem_singleton.mp member⟩,
        List.forall_mem_nil _⟩
    · exact nothing rfl rfl
  | checkAutoMerge =>
    rw [TaskRun.advance]
    split
    · exact nothing (afterRead_writes _ _).2.1 (afterRead_writes _ _).2.2
    · exact nothing rfl rfl
  | merge method pending =>
    rw [TaskRun.advance]
    split
    · exact ⟨List.forall_mem_nil _,
        fun landing member => ⟨method, pending, rfl, List.mem_singleton.mp member⟩⟩
    · exact nothing rfl rfl

end Advance

/-- The request that a task is on its way to merge because of. -/
def TaskRun.pinned : TaskRun → Option CommentMergeRequest
  | .readChanged _ pending | .merge _ pending => pending
  | _ => none

namespace MergeSystem

variable {schema : Schema} {repository : Repository} {number : Nat} {system next : MergeSystem DrvId}
  {action : MergeAction DrvId}

/-- A row with a request is read only while the stored head is that of the forge, and no other
head is pushed from there on to the merge call. -/
def HeadStays (repository : Repository) (number : Nat) (system : MergeSystem DrvId) : MergeAction DrvId → Prop
  | .push head => ∀ task ∈ system.tasks, ∀ pending ∈ task.pinned, pending.sha = head
  | .task index _ => system.tasks[index]? = some .readRow → ∀ request ∈ system.db.findRequest repository number,
    ∀ pending ∈ request.pendingCommentMerge, pending.sha = request.headSha → system.head = request.headSha
  | _ => True

instance (repository : Repository) (number : Nat) (system : MergeSystem DrvId) :
    (action : MergeAction DrvId) → Decidable (HeadStays repository number system action)
  | .push head => inferInstanceAs (Decidable (∀ task ∈ system.tasks, ∀ pending ∈ task.pinned, pending.sha = head))
  | .task index _ =>
    inferInstanceAs (Decidable (system.tasks[index]? = some .readRow → ∀ request ∈ system.db.findRequest repository number,
      ∀ pending ∈ request.pendingCommentMerge, pending.sha = request.headSha → system.head = request.headSha))
  | .storeMetadata _ | .webhook _ | .command _ | .cancelCommand _ | .checkAutoMerge | .write _ _ _ _ _ | .setAutoMerge _ _ =>
    inferInstanceAs (Decidable True)

/-- What is on its way to be merged is pinned to the head of the forge. -/
structure PinnedToHead (system : MergeSystem DrvId) : Prop where
  tasks : ∀ task ∈ system.tasks, ∀ pending ∈ task.pinned, pending.sha = system.head
  landed : system.LandsPinned

theorem sha_of_activePath {request : PullRequest} {pending : CommentMergeRequest}
    (active : request.activePath = .ok (some pending)) :
    request.pendingCommentMerge = some pending ∧ pending.sha = request.headSha := by
  rw [PullRequest.activePath] at active
  split at active
  next found here =>
    split at active
    next => cases active
    next same =>
      cases active
      exact ⟨here, not_not.mp same⟩
  next =>
    split at active
    next => cases active
    next => cases active

theorem pinned_of_leads {db : ForgeDatabase DrvId} {answers : TaskAnswers} {task later : TaskRun} {pending : CommentMergeRequest}
    (leads : task.Leads schema repository number db answers later) (pinned : pending ∈ later.pinned) :
    pending ∈ task.pinned ∨ task = .readRow ∧ ∃ request ∈ db.findRequest repository number,
      request.pendingCommentMerge = some pending ∧ pending.sha = request.headSha := by
  cases leads with
  | active request path found active =>
    cases pinned
    exact .inr ⟨rfl, request, found, sha_of_activePath active⟩
  | decided request method path => exact .inl pinned
  | _ => cases pinned

theorem PinnedToHead.queue (holds : system.PinnedToHead) {task : TaskRun} (fresh : task.pinned = none) :
    PinnedToHead { system with tasks := system.tasks ++ [task] } where
  tasks other member pending pinned := by
    obtain earlier | now := mem_snoc.mp member
    · exact holds.tasks other earlier pending pinned
    · rw [now, fresh] at pinned
      cases pinned
  landed := holds.landed

theorem PinnedToHead.step (holds : system.PinnedToHead) (meets : HeadStays repository number system action)
    (taken : step schema repository number system action = some next) : next.PinnedToHead := by
  cases action with
  | push head =>
    cases Option.some.inj taken
    exact ⟨meets, holds.landed⟩
  | storeMetadata head | setAutoMerge enabled method =>
    cases Option.some.inj taken
    exact ⟨holds.tasks, holds.landed⟩
  | write jobsets jobs buildState differences isMaintainer =>
    cases Option.some.inj taken
    exact ⟨holds.tasks, holds.landed⟩
  | webhook index =>
    obtain ⟨webhook, -, rfl⟩ := Option.map_eq_some_iff.mp taken
    exact ⟨holds.tasks, holds.landed⟩
  | command command | cancelCommand requesterId | checkAutoMerge =>
    cases Option.some.inj taken
    exact holds.queue rfl
  | task index answers =>
    obtain ⟨task, found, rfl⟩ := Option.map_eq_some_iff.mp taken
    have waiting := List.mem_of_getElem? found
    obtain ⟨-, landed⟩ := advance_outcomes schema repository number system.db system.head answers task
    constructor
    · intro later member pending pinned
      obtain earlier | now := List.mem_append.mp member
      · exact holds.tasks later (List.mem_of_mem_eraseIdx earlier) pending pinned
      · obtain before | ⟨rfl, request, stored, requested, sha⟩ := pinned_of_leads (leads_of_mem_next now) pinned
        · exact holds.tasks task waiting pending before
        · exact sha.trans (meets found request stored pending requested sha).symm
    · intro landing member pending requested
      obtain earlier | now := List.mem_append.mp member
      · exact holds.landed landing earlier pending requested
      · obtain ⟨method, path, rfl, rfl⟩ := landed landing now
        exact (holds.tasks _ waiting pending requested).symm

/-- While the head stays where a request was read, a merge that a comment has requested lands the
commit it is pinned to. -/
theorem run_landsPinned (schema : Schema) (repository : Repository) (number : Nat) (db : ForgeDatabase DrvId)
    (head : String) {actions : List (MergeAction DrvId)} {final : MergeSystem DrvId}
    (run : Run (step schema repository number) (HeadStays repository number) (start db head) actions final) :
    final.LandsPinned := by
  have holds : final.PinnedToHead := by
    refine run.invariant ⟨List.forall_mem_nil _, List.forall_mem_nil _⟩ ?_
    exact fun system action next holds meets taken => holds.step meets taken
  exact holds.landed

/-- A built pull request, with a maintainer of what it changes. -/
def built : ForgeDatabase Nat where
  requests := [⟨.gitHub "ekala" "corepkgs", 7, "c0ffee", some 1, false, none, none, none, none, none, none, none⟩]
  jobsets := [⟨1, "c0ffee", "stable", .gitHub "ekala" "corepkgs"⟩]
  jobs
    | .gitHub => [⟨1, 10, "hello", .changed⟩]
    | _ => []
  buildState _ := .completed .success
  differences := [⟨1, "hello", .changed⟩]
  isMaintainer requester package := requester = 5 ∧ package = "hello"

def answersTo (hasWrite : Bool) : TaskAnswers := ⟨some hasWrite, true, ⟨true, none, some true⟩, true⟩

/-- A command, up to where the task that it starts waits for the merge call. -/
def upToMergeCall : List (MergeAction Nat) :=
  .command ⟨9, "grace", 70, none⟩ :: List.replicate 6 (.task 0 (answersTo true))

theorem landsPinned_upToMergeCall : ∃ final,
    Run (step .completed (.gitHub "ekala" "corepkgs") 7) (HeadStays (.gitHub "ekala" "corepkgs") 7) (start built "c0ffee")
      (upToMergeCall ++ [.task 0 (answersTo true), .push "deadbeef"]) final ∧
      final.landed = [⟨some ⟨"c0ffee", none, 9, "grace"⟩, "c0ffee"⟩] ∧ final.LandsPinned :=
  exists_run_and_of_checkRun (by decide) fun _ run => run_landsPinned _ _ _ _ _ run

/-- A push before the merge call is merged in the place of the pin. -/
theorem pushed_not_landsPinned : ∃ final,
    AnyRun (step .completed (.gitHub "ekala" "corepkgs") 7) (start built "c0ffee")
      (upToMergeCall ++ [.push "deadbeef", .task 0 (answersTo true)]) final ∧ ¬final.LandsPinned := by
  refine exists_run_of_exec_imp (p := fun final => final.landed = [⟨some ⟨"c0ffee", none, 9, "grace"⟩, "deadbeef"⟩])
    (by decide) fun final run landed holds => ?_
  have same := holds ⟨some ⟨"c0ffee", none, 9, "grace"⟩, "deadbeef"⟩ (by rw [landed]; exact List.mem_singleton_self _) _ rfl
  exact absurd same (by decide)

end MergeSystem

def TaskRun.isAuthorize : TaskRun → Bool
  | .authorize _ => true
  | _ => false

def WebhookRun.stores : WebhookRun → Option String
  | .store head _ => some head
  | _ => none

/-- The account and the commit that a command of one who cannot write is about: until a request is
recorded, the stored head. -/
def TaskRun.about (stored : Option String) : TaskRun → Option (Nat × String)
  | .checkMaintainer command _ => stored.map (command.requesterId, ·)
  | .pin command hasWrite => if hasWrite then none else stored.map (command.requesterId, ·)
  | .record command hasWrite sha => if hasWrite then none else some (command.requesterId, sha)
  | _ => none

namespace MergeSystem

variable {owner repoName : String} {repository : Repository} {number : Nat} {system next : MergeSystem DrvId}
  {action : MergeAction DrvId}

/-- If the stored jobset of the pull request has a package that is new or changed, it has all that
are so at the stored head. -/
def ListsAll (db : ForgeDatabase DrvId) (repository : Repository) (number : Nat) : Prop :=
  ∀ request ∈ db.findRequest repository number, ∀ listed ∈ db.differences, request.jobsetId = some listed.jobset →
    listed.status = .changed ∨ listed.status = .new → ∀ package ∈ db.newOrChangedPackages repository request.headSha,
      ∃ row ∈ db.differences, row.jobset = listed.jobset ∧ (row.status = .changed ∨ row.status = .new) ∧
        row.attrPath = package

/-- Whoever cannot write is asked about all packages of the head, and until his request is recorded
the commit stays the one that it is about, gets no new or changed packages and keeps its maintainers. -/
def KeepsAuthorized (repository : Repository) (number : Nat) (system : MergeSystem DrvId) : MergeAction DrvId → Prop
  | .task index answers => ∀ task ∈ system.tasks[index]?, task.isAuthorize = true → answers.permission = some false →
    ListsAll system.db repository number
  | .webhook index => ∀ webhook ∈ system.webhooks[index]?, ∀ head ∈ webhook.stores, ∀ task ∈ system.tasks,
    task.about (some head) = task.about (system.db.storedHead repository number)
  | .write jobsets jobs buildState differences isMaintainer =>
    let written : ForgeDatabase DrvId := ⟨system.db.requests, jobsets, jobs, buildState, differences, isMaintainer⟩
    ∀ task ∈ system.tasks, ∀ about ∈ task.about (system.db.storedHead repository number),
      ∀ package ∈ written.newOrChangedPackages repository about.2,
        package ∈ system.db.newOrChangedPackages repository about.2 ∧
          (system.db.isMaintainer about.1 package = true → isMaintainer about.1 package = true)
  | _ => True

instance (db : ForgeDatabase DrvId) (repository : Repository) (number : Nat) : Decidable (ListsAll db repository number) :=
  inferInstanceAs (Decidable (∀ request ∈ db.findRequest repository number, ∀ listed ∈ db.differences,
    request.jobsetId = some listed.jobset → listed.status = .changed ∨ listed.status = .new →
      ∀ package ∈ db.newOrChangedPackages repository request.headSha, ∃ row ∈ db.differences, _))

instance (repository : Repository) (number : Nat) (system : MergeSystem DrvId) :
    (action : MergeAction DrvId) → Decidable (KeepsAuthorized repository number system action)
  | .task index answers =>
    inferInstanceAs (Decidable (∀ task ∈ system.tasks[index]?, task.isAuthorize = true → answers.permission = some false →
      ListsAll system.db repository number))
  | .webhook index =>
    inferInstanceAs (Decidable (∀ webhook ∈ system.webhooks[index]?, ∀ head ∈ webhook.stores, ∀ task ∈ system.tasks,
      task.about (some head) = task.about (system.db.storedHead repository number)))
  | .write jobsets jobs buildState differences isMaintainer =>
    inferInstanceAs (Decidable (∀ task ∈ system.tasks, ∀ about ∈ task.about (system.db.storedHead repository number),
      ∀ package ∈ ForgeDatabase.newOrChangedPackages ⟨system.db.requests, jobsets, jobs, buildState, differences, isMaintainer⟩
        repository about.2, _ ∧ _))
  | .push _ | .storeMetadata _ | .command _ | .cancelCommand _ | .checkAutoMerge | .setAutoMerge _ _ =>
    inferInstanceAs (Decidable True)

/-- What a task of one who cannot write has made sure of: the package will be asked for, if any is,
or he maintains it. -/
def TaskVouches (db : ForgeDatabase DrvId) (requesterId : Nat) (package : String) : TaskRun → Prop
  | .checkMaintainer _ changed => changed ≠ [] → package ∈ changed
  | _ => db.isMaintainer requesterId package = true

/-- The tasks vouch for the packages of the commit that they are about. -/
def TasksVouch (repository : Repository) (number : Nat) (db : ForgeDatabase DrvId) (tasks : List TaskRun) : Prop :=
  ∀ task ∈ tasks, ∀ about ∈ task.about (db.storedHead repository number),
    ∀ package ∈ db.newOrChangedPackages repository about.2, TaskVouches db about.1 package task

structure Authorized (repository : Repository) (number : Nat) (system : MergeSystem DrvId) : Prop where
  tasks : TasksVouch repository number system.db system.tasks
  recorded : system.PinsMaintained

variable {db : ForgeDatabase DrvId} {tasks : List TaskRun} {package : String}

theorem TasksVouch.write (vouch : TasksVouch repository number db tasks) {written : ForgeDatabase DrvId}
    (kept : ∀ task ∈ tasks, ∀ about ∈ task.about (written.storedHead repository number),
      about ∈ task.about (db.storedHead repository number) ∧
        ∀ package ∈ written.newOrChangedPackages repository about.2,
          package ∈ db.newOrChangedPackages repository about.2 ∧
            (db.isMaintainer about.1 package = true → written.isMaintainer about.1 package = true)) :
    TasksVouch repository number written tasks := by
  intro task member about of package listed
  obtain ⟨before, packages⟩ := kept task member about of
  obtain ⟨known, maintained⟩ := packages package listed
  have vouches := vouch task member about before package known
  cases task with
  | checkMaintainer command changed => exact vouches
  | _ => exact maintained vouches

theorem TasksVouch.withRequests (vouch : TasksVouch repository number db tasks) (requests : List PullRequest)
    (same : ∀ task ∈ tasks, task.about (ForgeDatabase.storedHead { db with requests := requests } repository number) =
      task.about (db.storedHead repository number)) :
    TasksVouch repository number { db with requests := requests } tasks := by
  refine vouch.write fun task member about of => ⟨?_, fun package listed => ⟨listed, id⟩⟩
  rw [← same task member]
  exact of

theorem TasksVouch.append {first second : List TaskRun} (vouch : TasksVouch repository number db first)
    (others : TasksVouch repository number db second) : TasksVouch repository number db (first ++ second) := by
  intro task member
  obtain earlier | now := List.mem_append.mp member
  · exact vouch task earlier
  · exact others task now

/-- A webhook changes the rows of pull requests only, and the stored head only if it stores one. -/
theorem webhook_requests (schema : Schema) (repository : Repository) (number : Nat) (db : ForgeDatabase DrvId)
    (webhook : WebhookRun) :
    ∃ requests, (webhook.advance schema repository number db).1 = { db with requests := requests } ∧
      (ForgeDatabase.storedHead { db with requests := requests } repository number = db.storedHead repository number ∨
        ∃ head ∈ webhook.stores,
          ForgeDatabase.storedHead { db with requests := requests } repository number = some head) := by
  cases webhook with
  | store head synchronize =>
    obtain ⟨requests, same⟩ : ∃ requests, db.upsertPullRequest repository number head = { db with requests := requests } := by
      rw [ForgeDatabase.upsertPullRequest]
      split <;> exact ⟨_, rfl⟩
    refine ⟨requests, same, .inr ⟨head, rfl, ?_⟩⟩
    rw [← same, storedHead_upsertPullRequest]
  | checkDrift head =>
    refine ⟨db.requests, ?_, .inl rfl⟩
    rw [WebhookRun.advance]
    split
    · rfl
    · split <;> rfl
  | clear => exact ⟨_, rfl, .inl (storedHead_modifyRequest (by exact fun _ => ⟨rfl, rfl⟩) (by exact fun _ => rfl))⟩

theorem task_requests (schema : Schema) (repository : Repository) (number : Nat) (db : ForgeDatabase DrvId) (head : String)
    (answers : TaskAnswers) (task : TaskRun) :
    ∃ requests, (task.advance schema repository number db head answers).db = { db with requests := requests } ∧
      ForgeDatabase.storedHead { db with requests := requests } repository number = db.storedHead repository number := by
  obtain same | same | ⟨command, hasWrite, sha, -, same⟩ := advance_db schema repository number db head answers task
  · exact ⟨db.requests, same, rfl⟩
  · exact ⟨_, same, storedHead_modifyRequest (by exact fun _ => ⟨rfl, rfl⟩) (by exact fun _ => rfl)⟩
  · exact ⟨_, same, storedHead_modifyRequest (by exact fun _ => ⟨rfl, rfl⟩) (by exact fun _ => rfl)⟩

/-- Whatever is new or changed at the stored head is among the packages that are read, if any are. -/
theorem mem_changedOrNone (lists : ListsAll db (.gitHub owner repoName) number) {sha : String}
    (stored : db.storedHead (.gitHub owner repoName) number = some sha)
    (listed : package ∈ db.newOrChangedPackages (.gitHub owner repoName) sha)
    (some_ : TaskRun.changedOrNone .completed (.gitHub owner repoName) number db ≠ []) :
    package ∈ TaskRun.changedOrNone .completed (.gitHub owner repoName) number db := by
  obtain ⟨request, found, rfl⟩ := Option.map_eq_some_iff.mp stored
  have atHead : ∃ first, db.headJobset (.gitHub owner repoName) number = some first := by
    rw [ForgeDatabase.headJobset, found, Option.bind_some, ← Option.isSome_iff_exists, List.find?_isSome]
    obtain ⟨job, of, -⟩ := List.mem_map.mp listed
    obtain ⟨-, here⟩ := List.mem_filter.mp of
    obtain ⟨first, stored, at_⟩ := List.any_eq_true.mp (of_decide_eq_true here).2
    obtain ⟨-, sha, own⟩ := of_decide_eq_true at_
    exact ⟨first, stored, decide_eq_true ⟨sha, own⟩⟩
  obtain ⟨first, atHead⟩ := atHead
  rw [TaskRun.changedOrNone, getPrChangedPackages_gitHub atHead, found, Option.bind_some] at some_ ⊢
  cases jobset : request.jobsetId with
  | none =>
    rw [jobset] at some_
    exact absurd rfl some_
  | some id =>
    rw [jobset] at some_
    obtain ⟨attrPath, member⟩ := List.exists_mem_of_ne_nil _ some_
    obtain ⟨one, known, -, of, shown⟩ := mem_attrPathsOf.mp member
    obtain ⟨row, member, same, shown, named⟩ :=
      lists request found one known (jobset.trans (congrArg some of.symm)) (of_decide_eq_true shown) package listed
    exact mem_attrPathsOf.mpr ⟨row, member, named, same.trans of, decide_eq_true shown⟩

theorem mem_of_isMaintainerOfAllPackages {requesterId : Nat} {packages : List String}
    (all : db.isMaintainerOfAllPackages requesterId packages = true) (member : package ∈ packages) :
    db.isMaintainer requesterId package = true :=
  List.all_eq_true.mp (of_decide_eq_true all).2 package member

theorem vouches_of_leads {answers : TaskAnswers} {task : TaskRun}
    (vouch : TasksVouch (.gitHub owner repoName) number db [task])
    (lists : task.isAuthorize = true → answers.permission = some false → ListsAll db (.gitHub owner repoName) number)
    {later : TaskRun} (leads : task.Leads .completed (.gitHub owner repoName) number db answers later) :
    TasksVouch (.gitHub owner repoName) number db [later] := by
  intro other member about of package listed
  rw [List.mem_singleton.mp member] at of ⊢
  have before := vouch task (List.mem_singleton_self _)
  cases leads with
  | asks command readOnly =>
    obtain ⟨sha, stored, rfl⟩ := Option.map_eq_some_iff.mp of
    exact fun some_ => mem_changedOrNone (lists rfl readOnly) stored listed some_
  | maintains command changed all =>
    obtain ⟨sha, stored, rfl⟩ := Option.map_eq_some_iff.mp of
    exact mem_of_isMaintainerOfAllPackages all (before _ of package listed (of_decide_eq_true all).1)
  | pins command hasWrite request found =>
    cases hasWrite with
    | true => cases of
    | false =>
      cases of
      have stored : db.storedHead (.gitHub owner repoName) number = some request.headSha := by
        rw [ForgeDatabase.storedHead, found]
        rfl
      exact before (command.requesterId, request.headSha) (by rw [stored]; rfl) package listed
  | _ => cases of

theorem Authorized.step (holds : system.Authorized (.gitHub owner repoName) number)
    (meets : KeepsAuthorized (.gitHub owner repoName) number system action)
    (taken : step .completed (.gitHub owner repoName) number system action = some next) :
    next.Authorized (.gitHub owner repoName) number := by
  have silent {task : TaskRun} (nothing : ∀ stored, task.about stored = none) :
      TasksVouch (.gitHub owner repoName) number system.db [task] := by
    intro other member about of
    rw [List.mem_singleton.mp member, nothing] at of
    cases of
  cases action with
  | push head | storeMetadata head =>
    cases Option.some.inj taken
    exact ⟨holds.tasks, holds.recorded⟩
  | setAutoMerge enabled method =>
    cases Option.some.inj taken
    refine ⟨holds.tasks.withRequests _ fun task _ => congrArg task.about ?_, holds.recorded⟩
    exact storedHead_modifyRequest (by exact fun _ => ⟨rfl, rfl⟩) (by exact fun _ => rfl)
  | write jobsets jobs buildState differences isMaintainer =>
    cases Option.some.inj taken
    exact ⟨holds.tasks.write fun task member about of => ⟨of, meets task member about of⟩, holds.recorded⟩
  | webhook index =>
    obtain ⟨webhook, found, rfl⟩ := Option.map_eq_some_iff.mp taken
    obtain ⟨requests, written, same | ⟨head, stores, stored⟩⟩ :=
      webhook_requests .completed (.gitHub owner repoName) number system.db webhook
    · refine ⟨?_, holds.recorded⟩
      dsimp only
      rw [written]
      exact holds.tasks.withRequests requests fun task _ => congrArg task.about same
    · refine ⟨?_, holds.recorded⟩
      dsimp only
      rw [written]
      refine holds.tasks.withRequests requests fun task member => ?_
      rw [stored]
      exact meets webhook found head stores task member
  | command command | cancelCommand requesterId | checkAutoMerge =>
    cases Option.some.inj taken
    exact ⟨holds.tasks.append (silent fun _ => rfl), holds.recorded⟩
  | task index answers =>
    obtain ⟨task, found, rfl⟩ := Option.map_eq_some_iff.mp taken
    have waiting := List.mem_of_getElem? found
    obtain ⟨requests, written, same⟩ :=
      task_requests .completed (.gitHub owner repoName) number system.db system.head answers task
    obtain ⟨recorded, -⟩ := advance_outcomes .completed (.gitHub owner repoName) number system.db system.head answers task
    constructor
    · dsimp only
      rw [written]
      refine TasksVouch.withRequests ?_ requests fun other _ => congrArg other.about same
      refine TasksVouch.append (fun other member => holds.tasks other (List.mem_of_mem_eraseIdx member)) ?_
      intro later member
      refine vouches_of_leads ?_ (meets task found) (leads_of_mem_next member) later (List.mem_singleton_self _)
      intro other same
      rw [List.mem_singleton.mp same]
      exact holds.tasks task waiting
    · intro recording member readOnly package listed
      obtain earlier | now := List.mem_append.mp member
      · exact holds.recorded recording earlier readOnly package listed
      · obtain ⟨command, hasWrite, sha, rfl, rfl⟩ := recorded recording now
        cases readOnly
        exact List.mem_filter.mpr ⟨listed, holds.tasks _ waiting (command.requesterId, sha) rfl package listed⟩

/-- While a commit stays what its authorization was about, nothing is pinned for one who does not
maintain it. -/
theorem run_pinsMaintained (owner repoName : String) (number : Nat) (db : ForgeDatabase DrvId) (head : String)
    {actions : List (MergeAction DrvId)} {final : MergeSystem DrvId}
    (run : Run (step .completed (.gitHub owner repoName) number) (KeepsAuthorized (.gitHub owner repoName) number)
      (start db head) actions final) : final.PinsMaintained := by
  have holds : final.Authorized (.gitHub owner repoName) number := by
    refine run.invariant ⟨List.forall_mem_nil _, List.forall_mem_nil _⟩ ?_
    exact fun system action next holds meets taken => holds.step meets taken
  exact holds.recorded

/-- A command of one who cannot write, up to where he has been authorized. -/
def upToPin : List (MergeAction Nat) := [.command ⟨5, "ada", 71, none⟩, .task 0 (answersTo false), .task 0 (answersTo false)]

theorem pinsMaintained_upToPin : ∃ final,
    Run (step .completed (.gitHub "ekala" "corepkgs") 7) (KeepsAuthorized (.gitHub "ekala" "corepkgs") 7)
      (start built "c0ffee") (upToPin ++ [.push "deadbeef", .task 0 (answersTo false), .task 0 (answersTo false)]) final ∧
      final.recorded = [⟨"c0ffee", 5, false, ["hello"], ["hello"]⟩] ∧ final.PinsMaintained :=
  exists_run_and_of_checkRun (by decide) fun _ run => run_pinsMaintained _ _ _ _ _ run

/-- A push is stored, and its jobset recorded, between the authorization and the pin. -/
def storedBeforePin : List (MergeAction Nat) :=
  [.write [⟨1, "c0ffee", "stable", .gitHub "ekala" "corepkgs"⟩, ⟨2, "deadbeef", "stable", .gitHub "ekala" "corepkgs"⟩]
      (fun _ => [⟨1, 10, "hello", .changed⟩, ⟨2, 20, "openssl", .changed⟩]) (fun _ => .queued) [⟨1, "hello", .changed⟩]
      (fun requester package => requester = 5 ∧ package = "hello"),
    .push "deadbeef", .webhook 0, .task 0 (answersTo false), .task 0 (answersTo false)]

theorem storedBeforePin_not_pinsMaintained : ∃ final,
    AnyRun (step .completed (.gitHub "ekala" "corepkgs") 7) (start built "c0ffee") (upToPin ++ storedBeforePin) final ∧
      ¬final.PinsMaintained := by
  refine exists_run_of_exec_imp (p := fun final => final.recorded = [⟨"deadbeef", 5, false, ["openssl"], []⟩])
    (by decide) fun final run recorded holds => ?_
  have maintained := holds ⟨"deadbeef", 5, false, ["openssl"], []⟩ (by rw [recorded]; exact List.mem_singleton_self _) rfl
    "openssl" (List.mem_singleton_self _)
  exact List.not_mem_nil maintained

end MergeSystem

end EkaCI
