import EkaCI.Jobs.CachePermissions
import EkaCI.Jobs.Differences

/-! Which webhooks of GitHub queue a checkout. Code of a pull request is to pass two
gates before it is checked out, the permission of an app and the approval of its author;
they are written out again for each group of actions. -/

namespace EkaCI

structure GitHubAppPermissions where
  allowAll : Bool
  /-- In the form `owner/repo`. -/
  allowedRepos : List String
  allowedBranches : List String

structure GitHubAppConfig where
  id : String
  permissions : GitHubAppPermissions

inductive AppPermissionError where
  | repository (repoFullName app : String)
  | branch (branch app : String)
  | branchRequired (app : String)

def checkGithubAppPermission (githubApp : GitHubAppConfig) (context : PermissionContext) :
    Except AppPermissionError Unit :=
  let permissions := githubApp.permissions
  if permissions.allowAll then .ok ()
  else if permissions.allowedRepos ≠ [] ∧ context.repoFullName ∉ permissions.allowedRepos then
    .error (.repository context.repoFullName githubApp.id)
  else if permissions.allowedBranches = [] then .ok ()
  else
    match context.branch with
    | some branch =>
      if permissions.allowedBranches.any (matchesGlobPattern branch) then .ok () else .error (.branch branch githubApp.id)
    | none => .error (.branchRequired githubApp.id)

structure GitHubUser where
  login : String
  id : Nat

structure RepositoryPayload where
  name : String
  /-- The login of the owner. -/
  owner : Option String

/-- One end of a pull request. -/
structure HeadPayload where
  refField : String
  sha : String
  repo : Option RepositoryPayload

structure PullRequestPayload where
  number : Nat
  user : Option GitHubUser
  title : Option String
  head : HeadPayload
  base : HeadPayload
  createdAt : Option String
  updatedAt : Option String
  mergedAt : Option String

inductive PullRequestAction where
  | opened
  | synchronize
  | reopened
  | closed
  | convertedToDraft
  | enqueued
  /-- Any of the actions that are ignored. -/
  | other
  deriving DecidableEq

structure PullRequestEvent where
  action : PullRequestAction
  pullRequest : PullRequestPayload

structure MergeGroupData where
  headSha : String
  headRef : String
  baseSha : String
  baseRef : String
  /-- The name of the author of the head commit. -/
  author : String

structure MergeGroupEvent where
  checksRequested : Bool
  /-- Owner and name. -/
  repositoryInfo : Option (String × String)
  /-- `none` if the data cannot be read. -/
  mergeGroup : Option MergeGroupData

inductive WebhookEvent where
  | pullRequest (event : PullRequestEvent)
  | mergeGroup (event : MergeGroupEvent)

structure ApprovedUser where
  githubUsername : String
  githubId : Nat

def isUserApproved (users : List ApprovedUser) (username : String) (userId : Nat) : Bool :=
  users.any fun user => user.githubUsername = username ∨ user.githubId = userId

structure WebhookSettings where
  /-- Whether the GitHub service is there. -/
  githubSender : Bool
  requireApproval : Bool
  mergeQueueRequireApproval : Bool
  githubAppConfigs : List GitHubAppConfig

/-- What a handler does, in order. -/
inductive WebhookCall where
  | storePrMetadata (pr : PullRequestPayload) (state : String)
  | checkCommentMergeDrift (pr : PullRequestPayload)
  | createApprovalRequiredCheckRun (info : CICheckInfo) (username : String)
  | cancelCheckRunsForCommit (info : CICheckInfo)
  | upsertMergeQueueBuild (owner repoName : String) (group : MergeGroupData)
  | gitHubCheckout (pr : PullRequestPayload)

namespace PullRequestPayload

/-- `none` if the head has no repository, or its repository no owner. -/
def checkInfo (pr : PullRequestPayload) : Option CICheckInfo := do
  let repo ← pr.head.repo
  let owner ← repo.owner
  return ⟨pr.head.sha, some pr.base.sha, owner, repo.name⟩

/-- The repository and the branch that the app gate asks about. -/
def permissionContext (pr : PullRequestPayload) : Option PermissionContext :=
  pr.base.repo.map fun baseRepo => ⟨baseRepo.owner.getD "", baseRepo.name, some pr.base.refField⟩

end PullRequestPayload

/-- The query of the approved users fails if there are none to read. -/
def isValidUser (approvedUsers : Option (List ApprovedUser)) (pr : PullRequestPayload) : Bool :=
  match pr.user, approvedUsers with
  | some user, some users => isUserApproved users user.login user.id
  | _, _ => false

namespace WebhookSettings

variable (settings : WebhookSettings) (approvedUsers : Option (List ApprovedUser))

def hasPermission (context : PermissionContext) : Bool :=
  settings.githubAppConfigs.any fun config => (checkGithubAppPermission config context).isOk

/-- Approval is required and not there. -/
def unapproved (pr : PullRequestPayload) : Bool := settings.requireApproval && !isValidUser approvedUsers pr

/-- The end of the branches that queue a checkout. -/
def approvalGate (pr : PullRequestPayload) : List WebhookCall :=
  if settings.unapproved approvedUsers pr then
    match pr.user, pr.checkInfo with
    | some user, some info => [.createApprovalRequiredCheckRun info user.login]
    | _, _ => []
  else [.gitHubCheckout pr]

def handleGithubPr (event : PullRequestEvent) : List WebhookCall :=
  let pr := event.pullRequest
  if settings.githubSender then
    match event.action with
    | .opened | .synchronize | .reopened =>
      -- without a repository of the base there is nothing to ask the apps
      if pr.permissionContext.any fun context => !settings.hasPermission context then []
      else
        .storePrMetadata pr "open" ::
          ((if event.action = .synchronize then [.checkCommentMergeDrift pr] else []) ++
            settings.approvalGate approvedUsers pr)
    | .closed | .convertedToDraft =>
      let state :=
        if event.action = .closed then if pr.mergedAt.isSome then "merged" else "closed"
        else "open"
      .storePrMetadata pr state :: (pr.checkInfo.map WebhookCall.cancelCheckRunsForCommit).toList
    -- here the apps are not asked
    | .enqueued => .storePrMetadata pr "open" :: settings.approvalGate approvedUsers pr
    | .other => []
  else []

/-- The pull request that stands for a merge group is put together as JSON; `readBack`
is what the payload types make of it. -/
def handleGithubMergeGroup (readBack : String → String → MergeGroupData → Option PullRequestPayload)
    (event : MergeGroupEvent) : List WebhookCall :=
  if settings.githubSender ∧ event.checksRequested then
    match event.repositoryInfo, event.mergeGroup with
    | some (owner, repoName), some group =>
      if settings.hasPermission ⟨owner, repoName, some group.baseRef⟩ then
        -- there is no user id in a merge group, 0 stands for it
        if settings.mergeQueueRequireApproval ∧
            approvedUsers.any (isUserApproved · group.author 0) = false then []
        else
          .upsertMergeQueueBuild owner repoName group ::
            ((readBack owner repoName group).map WebhookCall.gitHubCheckout).toList
      else []
    | _, _ => []
  else []

def handleWebhookPayload (readBack : String → String → MergeGroupData → Option PullRequestPayload) :
    WebhookEvent → List WebhookCall
  | .pullRequest event => settings.handleGithubPr approvedUsers event
  | .mergeGroup event => settings.handleGithubMergeGroup approvedUsers readBack event

end WebhookSettings

namespace WebhookEvent

def permissionContext : WebhookEvent → Option PermissionContext
  | .pullRequest event => event.pullRequest.permissionContext
  | .mergeGroup event => do
    let (owner, repoName) ← event.repositoryInfo
    let group ← event.mergeGroup
    return ⟨owner, repoName, some group.baseRef⟩

def author : WebhookEvent → Option GitHubUser
  | .pullRequest event => event.pullRequest.user
  | .mergeGroup event => event.mergeGroup.map fun group => ⟨group.author, 0⟩

def approvalRequired (settings : WebhookSettings) : WebhookEvent → Bool
  | .pullRequest _ => settings.requireApproval
  | .mergeGroup _ => settings.mergeQueueRequireApproval

end WebhookEvent

namespace WebhookSettings

variable (settings : WebhookSettings) (approvedUsers : Option (List ApprovedUser))
  (readBack : String → String → MergeGroupData → Option PullRequestPayload)

/-- Some app has permission for the repository and the base branch of the event. -/
def Permitted (event : WebhookEvent) : Prop :=
  ∃ context ∈ event.permissionContext, ∃ config ∈ settings.githubAppConfigs,
    checkGithubAppPermission config context = .ok ()

/-- The author of the event is approved. -/
def Approved (event : WebhookEvent) : Prop :=
  ∃ author ∈ event.author, ∃ users ∈ approvedUsers, isUserApproved users author.login author.id = true

def Checkouts (event : WebhookEvent) : Prop :=
  ∃ pr, WebhookCall.gitHubCheckout pr ∈ settings.handleWebhookPayload approvedUsers readBack event

/-- A checkout is queued only behind both gates. -/
def CheckoutsGated (event : WebhookEvent) : Prop :=
  settings.Checkouts approvedUsers readBack event →
    settings.Permitted event ∧ (event.approvalRequired settings = true → Approved approvedUsers event)

/-- The event does not get past the apps without their permission: it is of a kind that
queues no checkout or for which they are asked, or they would not refuse it. -/
def AsksApps : WebhookEvent → Prop
  | .mergeGroup _ => True
  | .pullRequest event =>
    match event.action with
    | .opened | .synchronize | .reopened => event.pullRequest.base.repo.isSome = true
    | .enqueued => event.pullRequest.permissionContext.any settings.hasPermission = true
    | .closed | .convertedToDraft | .other => True

/-- The pull request is not checked out whatever the apps say. -/
def Held : WebhookEvent → Prop
  | .mergeGroup _ => False
  | .pullRequest event => settings.githubSender = false ∨ settings.unapproved approvedUsers event.pullRequest = true

variable {settings approvedUsers readBack}

theorem hasPermission_iff {context : PermissionContext} :
    settings.hasPermission context = true ↔
      ∃ config ∈ settings.githubAppConfigs, checkGithubAppPermission config context = .ok () := by
  rw [hasPermission, List.any_eq_true]
  refine exists_congr fun config => and_congr_right fun _ => ?_
  cases checkGithubAppPermission config context with
  | error error => simp [Except.isOk, Except.toBool]
  | ok => simp [Except.isOk, Except.toBool]

variable {event : PullRequestEvent} {pr : PullRequestPayload}

theorem permitted_pullRequest :
    settings.Permitted (.pullRequest event) ↔
      event.pullRequest.permissionContext.any settings.hasPermission = true := by
  rw [Option.any_eq_true]
  exact exists_congr fun context => and_congr_right fun _ => hasPermission_iff.symm

theorem isValidUser_iff {action : PullRequestAction} :
    isValidUser approvedUsers pr = true ↔ Approved approvedUsers (.pullRequest ⟨action, pr⟩) := by
  unfold isValidUser Approved WebhookEvent.author
  cases found : pr.user with
  | none => simp [found]
  | some user =>
    cases approvedUsers with
    | none => simp
    | some users => simp [found]

theorem checkout_mem_approvalGate {checkedOut : PullRequestPayload} :
    WebhookCall.gitHubCheckout checkedOut ∈ settings.approvalGate approvedUsers pr ↔
      settings.unapproved approvedUsers pr = false ∧ checkedOut = pr := by
  rw [approvalGate]
  cases settings.unapproved approvedUsers pr with
  | false => simp
  | true =>
    rw [if_pos rfl]
    cases pr.user with
    | none => simp
    | some user =>
      cases pr.checkInfo with
      | none => simp
      | some info => simp

theorem checkouts_pullRequest :
    settings.Checkouts approvedUsers readBack (.pullRequest event) ↔
      settings.githubSender = true ∧ settings.unapproved approvedUsers event.pullRequest = false ∧
        match event.action with
        | .opened | .synchronize | .reopened =>
          event.pullRequest.permissionContext.any (fun context => !settings.hasPermission context) = false
        | .enqueued => True
        | .closed | .convertedToDraft | .other => False := by
  rw [Checkouts, handleWebhookPayload, handleGithubPr]
  cases settings.githubSender with
  | false => simp
  | true =>
    obtain ⟨action, pr⟩ := event
    cases action with
    | opened | synchronize | reopened =>
      cases refused : pr.permissionContext.any fun context => !settings.hasPermission context with
      | true => simp
      | false => simp [checkout_mem_approvalGate]
    | closed | convertedToDraft =>
      cases pr.checkInfo with
      | none => simp
      | some info => simp
    | enqueued => simp [checkout_mem_approvalGate]
    | other => simp

theorem mergeGroup_gated (event : MergeGroupEvent) :
    settings.CheckoutsGated approvedUsers readBack (.mergeGroup event) := by
  rintro ⟨pr, queued⟩
  rw [handleWebhookPayload, handleGithubMergeGroup] at queued
  obtain ⟨checksRequested, repositoryInfo, mergeGroup⟩ := event
  split at queued
  · cases repositoryInfo with
    | none => cases queued
    | some repository =>
      cases mergeGroup with
      | none => cases queued
      | some group =>
        dsimp only at queued
        split at queued
        · rename_i permitted
          refine ⟨⟨_, rfl, hasPermission_iff.mp permitted⟩, fun required => ?_⟩
          split at queued
          · cases queued
          · rename_i approved
            have approved : approvedUsers.any (isUserApproved · group.author 0) = true := by
              refine Bool.not_eq_false _ ▸ fun refused => approved ⟨required, refused⟩
            obtain ⟨users, stored, approved⟩ := Option.any_eq_true _ _ |>.mp approved
            exact ⟨_, rfl, users, stored, approved⟩
        · cases queued
  · cases queued

theorem approved_of_not_unapproved (passes : settings.unapproved approvedUsers event.pullRequest = false)
    (required : settings.requireApproval = true) : Approved approvedUsers (.pullRequest event) := by
  rw [unapproved, required, Bool.true_and, Bool.not_eq_false'] at passes
  exact isValidUser_iff.mp passes

theorem asksApps_iff (service : settings.githubSender = true)
    (passes : settings.unapproved approvedUsers event.pullRequest = false) :
    settings.AsksApps (.pullRequest event) ↔
      (settings.Checkouts approvedUsers readBack (.pullRequest event) → settings.Permitted (.pullRequest event)) := by
  rw [checkouts_pullRequest, permitted_pullRequest]
  obtain ⟨action, pr⟩ := event
  cases action with
  | opened | synchronize | reopened =>
    simp only [AsksApps, PullRequestPayload.permissionContext]
    cases pr.base.repo with
    | none => simp [service, passes]
    | some repo => simp
  | closed | convertedToDraft | other => simp [AsksApps]
  | enqueued => simp [AsksApps, service, passes]

/-- Checkouts are gated exactly if the apps are asked about every pull request that
comes as far as a checkout. -/
theorem checkoutsGated_iff (settings : WebhookSettings) (approvedUsers : Option (List ApprovedUser))
    (readBack : String → String → MergeGroupData → Option PullRequestPayload) (event : WebhookEvent) :
    settings.CheckoutsGated approvedUsers readBack event ↔
      settings.AsksApps event ∨ settings.Held approvedUsers event := by
  cases event with
  | mergeGroup event => exact iff_of_true (mergeGroup_gated event) (Or.inl trivial)
  | pullRequest event =>
    constructor
    · intro gated
      by_cases held : settings.Held approvedUsers (.pullRequest event)
      · exact Or.inr held
      · obtain ⟨service, passes⟩ := not_or.mp held
        rw [Bool.not_eq_false] at service
        rw [Bool.not_eq_true] at passes
        exact Or.inl ((asksApps_iff service passes).mpr fun queued => (gated queued).1)
    · intro condition queued
      obtain ⟨service, passes, -⟩ := checkouts_pullRequest.mp queued
      refine ⟨?_, approved_of_not_unapproved passes⟩
      rcases condition with asked | held
      · exact (asksApps_iff service passes).mp asked queued
      · rcases held with down | refused
        · rw [service] at down
          cases down
        · rw [passes] at refused
          cases refused

/-- One app, for one repository, and no approvals. -/
def oneRepository : WebhookSettings where
  githubSender := true
  requireApproval := false
  mergeQueueRequireApproval := false
  githubAppConfigs := [⟨"ci", false, ["ekala/corepkgs"], []⟩]

/-- A pull request of a repository that the app is not for enters the merge queue. -/
def foreignEnqueued : WebhookEvent :=
  let repo : RepositoryPayload := ⟨"tools", some "acme"⟩
  .pullRequest ⟨.enqueued, 7, some ⟨"eve", 66⟩, none, ⟨"feature", "c0ffee", some repo⟩, ⟨"main", "deadbeef", some repo⟩,
    none, none, none⟩

theorem foreignEnqueued_not_gated :
    ¬oneRepository.CheckoutsGated (some []) (fun _ _ _ => none) foreignEnqueued := by
  intro gated
  have queued : oneRepository.Checkouts (some []) (fun _ _ _ => none) foreignEnqueued := checkouts_pullRequest.mpr (by decide)
  obtain ⟨permitted, -⟩ := gated queued
  exact absurd (permitted_pullRequest.mp permitted) (by decide)

end WebhookSettings

end EkaCI
