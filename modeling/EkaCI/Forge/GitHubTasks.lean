import EkaCI.Forge.AutoMerge
import EkaCI.Jobs.Differences
import EkaCI.Lib.Handler
import EkaCI.Scheduler.System

/-! The tasks of the service that talks to GitHub, and the handlers that send further
tasks to the service itself. The other handlers send nothing to it, and all that they
do is one call here. -/

namespace EkaCI

open Lib

variable {DrvId : Type}

inductive MergeMethod where
  | merge
  | squash
  | rebase

def MergeMethod.asStr : MergeMethod → String
  | .merge => "merge"
  | .squash => "squash"
  | .rebase => "rebase"

inductive CommentCommand where
  | merge (method : Option MergeMethod)
  | mergeCancel

namespace CommentCommand

/-- The words of a line, with ASCII letters in lower case. -/
def tokens (line : List Char) : List String :=
  ((line.splitOnP isWhitespace).filter fun word => !word.isEmpty).map fun word => String.ofList (word.map Char.toLower)

def parseLine (line : List Char) : Option CommentCommand :=
  match tokens line with
  | "@eka-ci" :: "merge" :: arguments =>
    match arguments.head? with
    | some "cancel" => some .mergeCancel
    | some "merge" => some (.merge (some .merge))
    | some "squash" => some (.merge (some .squash))
    | some "rebase" => some (.merge (some .rebase))
    | _ => some (.merge none)
  | _ => none

/-- The first line that is a command. -/
def parse (body : String) : Option CommentCommand := (body.toList.splitOn '\n').findSome? parseLine

end CommentCommand

/-- The tasks whose handlers neither send to the service nor are sent by it. -/
inductive PlainTask where
  | createCIConfigureGate
  | completeCIConfigureGate
  | createCIEvalJob
  | completeCIEvalJob
  | cancelCheckRunsForCommit
  | createApprovalRequiredCheckRun
  | failCIEvalJob
  | createCheckRun
  | checkComplete
  | checkFailed
  | createChangeSummaryCheck
  | createChannelPromotionCheck
  | postIssueComment
  | resyncCheckRuns
  | skillComplete
  | skillFailed
  | skillError

structure PullRequestKey where
  owner : String
  repoName : String
  prNumber : Nat
  deriving DecidableEq

def PullRequestKey.repository (key : PullRequestKey) : Repository := .gitHub key.owner key.repoName

/-- The comment of a `ProcessMergeCommand`. -/
structure MergeComment where
  commentId : Nat
  requesterId : Nat
  requesterLogin : String
  body : String
  createdAt : Nat

inductive GitHubTask (DrvId : Type) where
  | updateBuildStatus (drvId : DrvId) (status : DrvBuildState)
  /-- The output of a build has grown too much. -/
  | updateBuildStatusWithSizeWarning (drvId : DrvId) (status : DrvBuildState)
  | createJobSet (info : CICheckInfo) (name : String) (jobs : List NixEvalDrv) (configJson : Option String)
  | createFailureCheckRun (drvId : DrvId) (jobsetId : Nat) (jobAttrName : String) (difference : JobDifference)
  | checkAutoMerge (request : PullRequestKey)
  | createDependencyChangesGate (info : CICheckInfo) (jobsetId baseJobsetId : Nat)
  | processMergeCommand (request : PullRequestKey) (comment : MergeComment)
  | commentMergeDriftCancelled (request : PullRequestKey) (expectedSha actualSha requesterLogin : String)
  | reactToComment (owner repoName : String) (commentId : Nat) (content : String)
  | plain (task : PlainTask)

inductive GitHubPermission where
  | none
  | read
  | triage
  | write
  | maintain
  | admin
  deriving DecidableEq

def GitHubPermission.hasWrite : GitHubPermission → Bool
  | .admin | .maintain | .write => true
  | .none | .read | .triage => false

def GitHubPermission.isTriageOrHigher : GitHubPermission → Bool
  | .triage | .write | .maintain | .admin => true
  | .none | .read => false

/-- A job of a group, with the recorded state of its drv. -/
structure NewOrChangedJob (DrvId : Type) where
  name : String
  difference : JobDifference
  drvId : DrvId
  buildState : DrvBuildState
  deriving DecidableEq

/-- What the handlers ask from the database, from the forge and from other services. -/
inductive GitHubCall (DrvId : Type) : Type → Type where
  | recover : GitHubCall DrvId (List (Nat × GitHubTask DrvId))
  | persist (task : GitHubTask DrvId) : GitHubCall DrvId Nat
  | acknowledge (id : Nat) : GitHubCall DrvId Unit
  | backoff429 : GitHubCall DrvId Unit
  | octocrabForOwner (owner : String) : GitHubCall DrvId Unit
  | prHeadBuildSucceeded (request : PullRequestKey) : GitHubCall DrvId Bool
  | getPullRequestRow (request : PullRequestKey) : GitHubCall DrvId (Option PullRequest)
  | getPrChangedPackages (request : PullRequestKey) : GitHubCall DrvId (List String)
  | checkPrMaintainerApprovals (request : PullRequestKey) (packages : List String) : GitHubCall DrvId Bool
  | validateMergeMethod (request : PullRequestKey) (method : String) : GitHubCall DrvId Bool
  | mergePullRequest (request : PullRequestKey) (method : String) : GitHubCall DrvId Unit
  | markPrMerged (request : PullRequestKey) (requesterId : Option Nat) : GitHubCall DrvId Unit
  | clearCommentMergeRequest (request : PullRequestKey) : GitHubCall DrvId Unit
  | setCommentMergeRequest (request : PullRequestKey) (headSha : String) (method : Option String)
      (comment : MergeComment) : GitHubCall DrvId Nat
  | checkRepoPermissionForUser (request : PullRequestKey) (login : String) : GitHubCall DrvId GitHubPermission
  | isMaintainerOfAllPackages (requesterId : Nat) (packages : List String) : GitHubCall DrvId Bool
  | fetchHeadCommitDate (request : PullRequestKey) (headSha : String) : GitHubCall DrvId (Option Nat)
  | addCommentReaction (request : PullRequestKey) (commentId : Nat) (content : String) : GitHubCall DrvId Unit
  | postIssueComment (request : PullRequestKey) (body : String) : GitHubCall DrvId Unit
  | createGithubJobsetWithJobs (info : CICheckInfo) (name : String) (jobs : List NixEvalDrv)
      (configJson : Option String) : GitHubCall DrvId Nat
  /-- Sends to the ingress, and starts the loop that dispatches again. -/
  | createEagerCheckRunsAndDispatchBuilds (info : CICheckInfo) (name : String) (jobsetId : Nat) : GitHubCall DrvId Unit
  | jobsetIdOf (sha name : String) : GitHubCall DrvId (Option Nat)
  /-- Unless one is running for the commit. It sends to the service later on, from a
  task of its own. -/
  | spawnChangeSummaryDebounce (info : CICheckInfo) (name : String) : GitHubCall DrvId Unit
  | maybeTriggerPassthruTests (info : CICheckInfo) (name : String) (configJson : Option String) (jobsetId : Nat) :
      GitHubCall DrvId Unit
  | getJobsetInfo (jobsetId : Nat) : GitHubCall DrvId JobSet
  | getDrv (drvId : DrvId) : GitHubCall DrvId (Option DrvBuildState)
  | findCoalescedCheckRunForGroup (jobsetId : Nat) (group : String) : GitHubCall DrvId (Option (Nat × Option String))
  | getGroupJobsInJobset (jobsetId : Nat) (group : String) : GitHubCall DrvId (List (NewOrChangedJob DrvId))
  | createCoalescedGhCheckRun (jobset : JobSet) (group : String) (jobs : List (NewOrChangedJob DrvId)) :
      GitHubCall DrvId (Nat × String)
  | createGhCheckRun (jobset : JobSet) (jobAttrName : String) (state : DrvBuildState) (difference : JobDifference) :
      GitHubCall DrvId (Nat × String)
  | insertCheckRunInfoWithNodeId (checkRunId : Nat) (drvId : DrvId) (nodeId : Option String) : GitHubCall DrvId Unit
  /-- All that a handler does which sends nothing to the service. -/
  | handle (task : GitHubTask DrvId) : GitHubCall DrvId Unit

/-- Whether the forge has answered that there were too many requests. -/
inductive GitHubFailure where
  | rateLimited
  | other

abbrev GitHubHandler (DrvId A : Type) := Handler (GitHubCall DrvId) GitHubFailure (GitHubTask DrvId) A

namespace GitHubHandler

open Handler

/-- A call whose failure is only logged. -/
def askBestEffort {R : Type} (question : GitHubCall DrvId R) : GitHubHandler DrvId Unit := do
  let _ ← attempt (ask question)

/-- The part of a name before its first dot. -/
def groupPrefix (name : String) : Option String :=
  if '.' ∈ name.toList then some (String.ofList (name.toList.takeWhile (· ≠ '.'))) else none

def shortSha (sha : String) : String := String.ofList (sha.toList.take 7)

def cancelDriftedCommentMerge (request : PullRequestKey) (pending : CommentMergeRequest) (commentId : Nat)
    (currentHead : String) : GitHubHandler DrvId Unit := do
  tell (.commentMergeDriftCancelled request pending.sha currentHead pending.requesterLogin)
  tell (.reactToComment request.owner request.repoName commentId "confused")
  ask (.clearCommentMergeRequest request)

/-- A merge that fails is only logged. -/
def autoMergeExecute (request : PullRequestKey) (method : String) (pending : Option (CommentMergeRequest × Nat)) :
    GitHubHandler DrvId Unit := do
  match ← attempt (ask (.mergePullRequest request method)) with
  | .error _ => pure ()
  | .ok _ =>
    askBestEffort (.markPrMerged request (pending.map fun pending => pending.1.requesterId))
    match pending with
    | some (_, commentId) => tell (.reactToComment request.owner request.repoName commentId "rocket")
    | none => pure ()

/-- The last part of the evaluation, once there are changed packages. -/
def mergeIfApproved (request : PullRequestKey) (row : PullRequest) (pending : Option (CommentMergeRequest × Nat))
    (changed : List String) : GitHubHandler DrvId Unit := do
  let eligible ← if pending.isNone then ask (.checkPrMaintainerApprovals request changed) else pure true
  if eligible then
    let method := ((pending.bind fun pending => pending.1.method).or row.mergeMethod).getD "squash"
    match ← attempt (ask (.validateMergeMethod request method)) with
    | .ok true => autoMergeExecute request method pending
    | .ok false | .error _ => pure ()

def handleCheckAutoMerge (request : PullRequestKey) : GitHubHandler DrvId Unit := do
  ask (.octocrabForOwner request.owner)
  if ← ask (.prHeadBuildSucceeded request) then
    match ← ask (.getPullRequestRow request) with
    | none => pure ()
    | some row =>
      -- a pending merge has the comment that has requested it
      let pending := row.pendingCommentMerge.map fun pending => (pending, row.commentMergeCommentId.getD 0)
      match pending.filter fun pending => pending.1.sha ≠ row.headSha with
      | some (drifted, commentId) => cancelDriftedCommentMerge request drifted commentId row.headSha
      | none =>
        if row.autoMergeEnabled || pending.isSome then
          let changed ← ask (.getPrChangedPackages request)
          if changed ≠ [] then mergeIfApproved request row pending changed

inductive Authorization where
  | granted
  | denied
  | abort

/-- A failed lookup of the packages or of their maintainers counts against the user. -/
def authorizeCommenter (request : PullRequestKey) (comment : MergeComment) : GitHubHandler DrvId Authorization := do
  match ← attempt (ask (.checkRepoPermissionForUser request comment.requesterLogin)) with
  | .error _ => return .abort
  | .ok permission =>
    if permission.hasWrite then return .granted
    match ← attempt (ask (.getPrChangedPackages request)) with
    | .error _ | .ok [] => return .denied
    | .ok changed =>
      match ← attempt (ask (.isMaintainerOfAllPackages comment.requesterId changed)) with
      | .ok true => return .granted
      | .ok false | .error _ => return .denied

/-- The refusal is shown by a reaction and explained in a comment. -/
def refuse (request : PullRequestKey) (comment : MergeComment) (body : String) : GitHubHandler DrvId Unit := do
  askBestEffort (.addCommentReaction request comment.commentId "-1")
  askBestEffort (.postIssueComment request ("@" ++ comment.requesterLogin ++ body))

def handleMergeCancel (request : PullRequestKey) (comment : MergeComment) : GitHubHandler DrvId Unit := do
  let row ← ask (.getPullRequestRow request)
  match row.bind PullRequest.pendingCommentMerge with
  | none => pure ()
  | some pending =>
    let authorization ← if comment.requesterId = pending.requesterId then pure .granted else authorizeCommenter request comment
    match authorization with
    | .abort => pure ()
    | .denied =>
      refuse request comment (" I can't cancel this merge request — you must be the original requester, " ++
        "have write access to the repository, or be a maintainer of all affected packages.")
    | .granted =>
      ask (.clearCommentMergeRequest request)
      askBestEffort (.addCommentReaction request comment.commentId "+1")

/-- No push is known to be newer than the command, with half a minute of grace. -/
def checkPushTiming (request : PullRequestKey) (comment : MergeComment) (headSha : String) : GitHubHandler DrvId Bool := do
  match ← attempt (ask (.fetchHeadCommitDate request headSha)) with
  | .ok (some date) =>
    if comment.createdAt + 30 < date then
      refuse request comment (" I can't merge this PR — the head commit (`" ++ shortSha headSha ++
        "`) appears to have been pushed after your `@eka-ci merge` command. Please review the latest " ++
        "changes and re-issue the command if you still want to merge.")
      return false
    return true
  | .ok none | .error _ => return true

def handleMergeAccept (request : PullRequestKey) (comment : MergeComment) (method : Option MergeMethod) :
    GitHubHandler DrvId Unit := do
  match ← authorizeCommenter request comment with
  | .abort => pure ()
  | .denied =>
    refuse request comment (" I can't merge this PR — you need write access to the repository or " ++
      "be a maintainer of all affected packages.")
  | .granted =>
    match ← ask (.getPullRequestRow request) with
    | none => pure ()
    | some row =>
      if ← checkPushTiming request comment row.headSha then
        let rows ← ask (.setCommentMergeRequest request row.headSha (method.map MergeMethod.asStr) comment)
        if rows ≠ 0 then
          askBestEffort (.addCommentReaction request comment.commentId "+1")
          tell (.checkAutoMerge request)

def handleProcessMergeCommand (request : PullRequestKey) (comment : MergeComment) : GitHubHandler DrvId Unit := do
  ask (.octocrabForOwner request.owner)
  match CommentCommand.parse comment.body with
  | none => pure ()
  | some .mergeCancel => handleMergeCancel request comment
  | some (.merge method) => handleMergeAccept request comment method

def createJobSet (info : CICheckInfo) (name : String) (jobs : List NixEvalDrv) (configJson : Option String) :
    GitHubHandler DrvId Unit := do
  let jobsetId ← ask (.createGithubJobsetWithJobs info name jobs configJson)
  match info.baseCommit with
  | none => pure ()
  | some baseCommit =>
    ask (.createEagerCheckRunsAndDispatchBuilds info name jobsetId)
    match ← ask (.jobsetIdOf baseCommit name) with
    | some baseJobsetId => tell (.createDependencyChangesGate info jobsetId baseJobsetId)
    | none => pure ()
    askBestEffort (.spawnChangeSummaryDebounce info name)
    if "/passthru-tests".toList.isSuffixOf name.toList = false then
      ask (.maybeTriggerPassthruTests info name configJson jobsetId)

/-- A check run for the one job, in its recorded state. -/
def createIndividualCheckRun (jobset : JobSet) (drvId : DrvId) (jobAttrName : String) (state : DrvBuildState)
    (difference : JobDifference) : GitHubHandler DrvId Unit := do
  let (checkRunId, nodeId) ← ask (.createGhCheckRun jobset jobAttrName state difference)
  ask (.insertCheckRunInfoWithNodeId checkRunId drvId (some nodeId))

def handleCreateFailureCheckRun (drvId : DrvId) (jobsetId : Nat) (jobAttrName : String) (difference : JobDifference) :
    GitHubHandler DrvId Unit := do
  let jobset ← ask (.getJobsetInfo jobsetId)
  ask (.octocrabForOwner jobset.owner)
  let drv ← ask (.getDrv drvId)
  let state := drv.getD (.completed .failure)
  match groupPrefix jobAttrName with
  | none => createIndividualCheckRun jobset drvId jobAttrName state difference
  | some group =>
    match ← ask (.findCoalescedCheckRunForGroup jobsetId group) with
    | some (checkRunId, nodeId) =>
      ask (.insertCheckRunInfoWithNodeId checkRunId drvId nodeId)
      tell (.updateBuildStatus drvId state)
    | none =>
      let jobs ← ask (.getGroupJobsInJobset jobsetId group)
      if 1 < jobs.length then
        let (checkRunId, nodeId) ← ask (.createCoalescedGhCheckRun jobset group jobs)
        jobs.forM fun job => ask (.insertCheckRunInfoWithNodeId checkRunId job.drvId (some nodeId))
      else createIndividualCheckRun jobset drvId jobAttrName state difference

def handleGithubTask : GitHubTask DrvId → GitHubHandler DrvId Unit
  | .createJobSet info name jobs configJson => createJobSet info name jobs configJson
  | .createFailureCheckRun drvId jobsetId jobAttrName difference =>
    handleCreateFailureCheckRun drvId jobsetId jobAttrName difference
  | .checkAutoMerge request => handleCheckAutoMerge request
  | .processMergeCommand request comment => handleProcessMergeCommand request comment
  | task => ask (.handle task)

/-- A task is handled once more if the forge had too many requests. -/
def handleTask (task : GitHubTask DrvId) : GitHubHandler DrvId Unit := do
  match ← attempt (handleGithubTask task) with
  | .ok () => pure ()
  | .error .rateLimited =>
    askBestEffort .backoff429
    handleGithubTask task
  | .error .other => .done (.error .other)

/-- A failed task is left in the journal. -/
def dispatchWithJournal (task : GitHubTask DrvId) : GitHubHandler DrvId Unit := do
  let id ← attempt (ask (.persist task))
  match ← attempt (handleTask task), id with
  | .ok (), .ok id => askBestEffort (.acknowledge id)
  | _, _ => pure ()

def replayJournal : GitHubHandler DrvId Unit := do
  match ← attempt (ask .recover) with
  | .error _ => pure ()
  | .ok recovered =>
    recovered.forM fun entry => do
      let _ ← attempt (handleTask entry.2)
      askBestEffort (.acknowledge entry.1)

end GitHubHandler

end EkaCI
