import EkaCI.Forge.CommentMerge
import EkaCI.Forge.GitHubTasks
import EkaCI.Jobs.Recording

/-! Who may request a merge without write permission: the maintainers of all the packages
that a pull request changes. A maintainer is one of an attribute path, in whatever
repository; a user becomes one through an admin, or by himself with permission on a
repository that has a job of that name. -/

namespace EkaCI

open Lib

variable {DrvId : Type}

/-- A row of `AuthenticatedUsers`, with its access token. -/
structure AuthenticatedUser where
  githubId : Nat
  githubUsername : String

/-- The claims of a token that has been validated. -/
structure AuthUser where
  githubId : Nat
  isAdmin : Bool

/-- Only the token of an admin is let in where an `AdminUser` is wanted. -/
abbrev AdminUser := { user : AuthUser // user.isAdmin = true }

/-- What the permission check answers for each repository; `none` if it fails. -/
abbrev PermissionAnswers := String → String → Option GitHubPermission

/-- A row of `AttrPathMaintainers`. -/
structure MaintainerGrant where
  attrPath : String
  githubUserId : Nat
  /-- The admin; `none` if the user has added himself. -/
  addedByUserId : Option Nat
  /-- What the check would have answered for the user at that time. -/
  permissions : PermissionAnswers

inductive RequestStatus where
  | pending
  | approved
  | rejected
  deriving DecidableEq

/-- A row of `AttrPathMaintainerRequests`. -/
structure MaintainerRequest where
  id : Nat
  attrPath : String
  githubUserId : Nat
  status : RequestStatus

/-- A merge command was accepted from a user who may not write. -/
structure MergeAuthority where
  request : PullRequestKey
  requesterId : Nat
  /-- What the pull request changes. -/
  packages : List String
  deriving DecidableEq

inductive CommenterAuthorization where
  | granted (hasWrite : Bool)
  | denied
  | abort

structure GrantHistory (DrvId : Type) where
  jobs : JobDatabase DrvId
  pullRequests : List PullRequest
  differences : List AttrDifference
  users : List AuthenticatedUser
  maintainers : List MaintainerGrant
  maintainerRequests : List MaintainerRequest
  authorities : List MergeAuthority

inductive GrantAction (DrvId : Type) where
  | createJobset (call : RecordingCall DrvId)
  | signIn (user : AuthenticatedUser)
  /-- Of several jobs of the name the query takes the one at `pick`. -/
  | requestMaintainer (user : AuthUser) (attrPath : String) (pick : Nat) (permissions : PermissionAnswers)
  | approveRequest (admin : AdminUser) (requestId : Nat)
  | rejectRequest (admin : AdminUser) (requestId : Nat)
  | addMaintainerByUsername (admin : AdminUser) (attrPath githubUsername : String)
  | authorizeCommenter (request : PullRequestKey) (requesterId : Nat) (permission : Option GitHubPermission)
  /-- Webhooks and evaluations write their tables. -/
  | write (pullRequests : List PullRequest) (differences : List AttrDifference)

namespace GrantHistory

def start (buildState : DrvId → DrvBuildState) : GrantHistory DrvId where
  jobs := .empty buildState
  pullRequests := []
  differences := []
  users := []
  maintainers := []
  maintainerRequests := []
  authorities := []

variable (schema : Schema) (history : GrantHistory DrvId)

def isMaintainer (attrPath : String) (githubUserId : Nat) : Bool :=
  history.maintainers.any fun grant => grant.attrPath = attrPath ∧ grant.githubUserId = githubUserId

def hasPendingRequest (attrPath : String) (githubUserId : Nat) : Bool :=
  history.maintainerRequests.any fun request =>
    request.attrPath = attrPath ∧ request.githubUserId = githubUserId ∧ request.status = .pending

def isKnown (githubUserId : Nat) : Bool := history.users.any (·.githubId = githubUserId)

/-- The repositories of the jobs of a name. -/
def reposForAttrPath (attrPath : String) : List (String × String) :=
  (history.jobs.jobs.filter (·.name = attrPath)).flatMap fun job =>
    (history.jobs.jobsets.filter (·.rowid = job.jobset)).map fun jobset => (jobset.owner, jobset.repoName)

def getRepoForAttrPath (attrPath : String) (pick : Nat) : Option (String × String) :=
  let repos := history.reposForAttrPath attrPath
  repos[pick % repos.length]?

/-- The row goes in unless there is one for the user, or the user is not known. -/
def addMaintainer (grant : MaintainerGrant) : GrantHistory DrvId :=
  if history.isMaintainer grant.attrPath grant.githubUserId = false ∧ history.isKnown grant.githubUserId then
    { history with maintainers := history.maintainers ++ [grant] }
  else history

def createMaintainerRequest (attrPath : String) (githubUserId : Nat) : GrantHistory DrvId :=
  if history.isKnown githubUserId ∧
      !history.maintainerRequests.any fun request => request.attrPath = attrPath ∧ request.githubUserId = githubUserId then
    { history with
      maintainerRequests := history.maintainerRequests ++
        [⟨history.maintainerRequests.length + 1, attrPath, githubUserId, .pending⟩] }
  else history

/-- The access token is that of a known user. -/
def autoApproves (user : AuthUser) (attrPath : String) (pick : Nat) (permissions : PermissionAnswers) : Bool :=
  match history.getRepoForAttrPath attrPath pick with
  | none => false
  | some (owner, repoName) =>
    history.isKnown user.githubId && (permissions owner repoName).any GitHubPermission.isTriageOrHigher

def requestMaintainer (user : AuthUser) (attrPath : String) (pick : Nat) (permissions : PermissionAnswers) :
    GrantHistory DrvId :=
  if history.isMaintainer attrPath user.githubId then history
  else if history.hasPendingRequest attrPath user.githubId then history
  else if history.autoApproves user attrPath pick permissions then
    history.addMaintainer ⟨attrPath, user.githubId, none, permissions⟩
  else history.createMaintainerRequest attrPath user.githubId

def review (requestId : Nat) (status : RequestStatus) : GrantHistory DrvId :=
  { history with
    maintainerRequests := history.maintainerRequests.map fun request =>
      if request.id = requestId then { request with status := status } else request }

/-- One transaction; the reviewer is a foreign key. -/
def approveRequest (admin : AdminUser) (requestId : Nat) : GrantHistory DrvId :=
  match history.maintainerRequests.find? (·.id = requestId) with
  | none => history
  | some request =>
    if history.isKnown admin.val.githubId then
      (history.review requestId .approved).addMaintainer
        ⟨request.attrPath, request.githubUserId, some admin.val.githubId, fun _ _ => none⟩
    else history

def rejectRequest (admin : AdminUser) (requestId : Nat) : GrantHistory DrvId :=
  if history.isKnown admin.val.githubId then history.review requestId .rejected else history

def addMaintainerByUsername (admin : AdminUser) (attrPath githubUsername : String) : GrantHistory DrvId :=
  match history.users.find? (·.githubUsername = githubUsername) with
  | none => history
  | some user =>
    if history.isKnown admin.val.githubId then
      history.addMaintainer ⟨attrPath, user.githubId, some admin.val.githubId, fun _ _ => none⟩
    else history

/-- The tables, as the statements about pull requests see them. -/
def forge : ForgeDatabase DrvId where
  requests := history.pullRequests
  jobsets := history.jobs.jobsets.map fun jobset =>
    ⟨jobset.rowid, jobset.sha, jobset.job, .gitHub jobset.owner jobset.repoName⟩
  jobs
    | .gitHub => history.jobs.jobs
    | _ => []
  buildState := history.jobs.buildState
  differences := history.differences
  isMaintainer githubUserId attrPath := history.isMaintainer attrPath githubUserId

/-- A failed query of the changed packages counts as none. -/
def changedPackages (request : PullRequestKey) : List String :=
  TaskRun.changedOrNone schema request.repository request.prNumber history.forge

def authorizeCommenter (request : PullRequestKey) (requesterId : Nat) :
    Option GitHubPermission → CommenterAuthorization
  | none => .abort
  | some permission =>
    if permission.hasWrite then .granted true
    else if history.forge.isMaintainerOfAllPackages requesterId (history.changedPackages schema request) then .granted false
    else .denied

variable [DecidableEq DrvId] (fromStr : String → Option DrvId)

def perform : GrantAction DrvId → GrantHistory DrvId
  | .createJobset call => { history with jobs := (history.jobs.recordJobset fromStr call).2 }
  | .signIn user => { history with users := history.users.filter (·.githubId ≠ user.githubId) ++ [user] }
  | .requestMaintainer user attrPath pick permissions => history.requestMaintainer user attrPath pick permissions
  | .approveRequest admin requestId => history.approveRequest admin requestId
  | .rejectRequest admin requestId => history.rejectRequest admin requestId
  | .addMaintainerByUsername admin attrPath githubUsername => history.addMaintainerByUsername admin attrPath githubUsername
  | .authorizeCommenter request requesterId permission =>
    match history.authorizeCommenter schema request requesterId permission with
    | .granted false =>
      { history with
        authorities := history.authorities ++ [⟨request, requesterId, history.changedPackages schema request⟩] }
    | _ => history
  | .write pullRequests differences => { history with pullRequests := pullRequests, differences := differences }

def step (action : GrantAction DrvId) : Option (GrantHistory DrvId) := some (history.perform schema fromStr action)

end GrantHistory

/-- Given by an admin, or while the user had permission on the repository. -/
def MaintainerGrant.FoundedOn (grant : MaintainerGrant) (owner repoName : String) : Prop :=
  grant.addedByUserId.isSome = true ∨
    ∃ permission, grant.permissions owner repoName = some permission ∧ permission.isTriageOrHigher = true

namespace GrantHistory

/-- Whoever has permission on one repository with a job of the name has it on all of them, a job of a
name is recorded only where those who have added themselves for it had permission, and what is listed
for a pull request is the name of a job of its repository. -/
def FoundsGrants (history : GrantHistory DrvId) : GrantAction DrvId → Prop
  | .requestMaintainer _ attrPath _ permissions => ∀ repo ∈ history.reposForAttrPath attrPath,
    (permissions repo.1 repo.2).any GitHubPermission.isTriageOrHigher = true →
      ∀ other ∈ history.reposForAttrPath attrPath,
        (permissions other.1 other.2).any GitHubPermission.isTriageOrHigher = true
  | .createJobset call => ∀ grant ∈ history.maintainers, ∀ job ∈ call.jobs, job.attr = grant.attrPath →
    grant.addedByUserId.isSome = true ∨
      (grant.permissions call.info.owner call.info.repoName).any GitHubPermission.isTriageOrHigher = true
  | .authorizeCommenter request _ _ => ∀ stored ∈ history.forge.findRequest request.repository request.prNumber,
    ∀ row ∈ history.differences, stored.jobsetId = some row.jobset → row.status = .changed ∨ row.status = .new →
      (request.owner, request.repoName) ∈ history.reposForAttrPath row.attrPath
  | _ => True

instance (history : GrantHistory DrvId) : (action : GrantAction DrvId) → Decidable (history.FoundsGrants action)
  | .requestMaintainer _ attrPath _ permissions =>
    inferInstanceAs (Decidable (∀ repo ∈ history.reposForAttrPath attrPath,
      (permissions repo.1 repo.2).any GitHubPermission.isTriageOrHigher = true →
        ∀ other ∈ history.reposForAttrPath attrPath, _ = true))
  | .createJobset call =>
    inferInstanceAs (Decidable (∀ grant ∈ history.maintainers, ∀ job ∈ call.jobs, job.attr = grant.attrPath → _ ∨ _))
  | .authorizeCommenter request _ _ =>
    inferInstanceAs (Decidable (∀ stored ∈ history.forge.findRequest request.repository request.prNumber,
      ∀ row ∈ history.differences, stored.jobsetId = some row.jobset → row.status = .changed ∨ row.status = .new → _ ∈ _))
  | .signIn _ | .approveRequest _ _ | .rejectRequest _ _ | .addMaintainerByUsername _ _ _ | .write _ _ =>
    inferInstanceAs (Decidable True)

/-- Every grant is founded on all the repositories that have a job of its name. -/
structure GrantsFounded (history : GrantHistory DrvId) : Prop where
  linked : Recordings.Linked history.jobs
  grants : ∀ grant ∈ history.maintainers, ∀ repo ∈ history.reposForAttrPath grant.attrPath,
    grant.FoundedOn repo.1 repo.2

variable {history next : GrantHistory DrvId}

theorem foundedOn_iff {grant : MaintainerGrant} {owner repoName : String} : grant.FoundedOn owner repoName ↔
    grant.addedByUserId.isSome = true ∨ (grant.permissions owner repoName).any GitHubPermission.isTriageOrHigher = true := by
  rw [MaintainerGrant.FoundedOn, Option.any_eq_true]

theorem mem_reposForAttrPath {attrPath : String} {repo : String × String} : repo ∈ history.reposForAttrPath attrPath ↔
    ∃ job ∈ history.jobs.jobs, ∃ jobset ∈ history.jobs.jobsets, job.name = attrPath ∧ jobset.rowid = job.jobset ∧
      repo = (jobset.owner, jobset.repoName) := by
  rw [reposForAttrPath, List.mem_flatMap]
  constructor
  · rintro ⟨job, listed, member⟩
    obtain ⟨jobset, joined, rfl⟩ := List.mem_map.mp member
    obtain ⟨stored, named⟩ := List.mem_filter.mp listed
    obtain ⟨present, same⟩ := List.mem_filter.mp joined
    exact ⟨job, stored, jobset, present, of_decide_eq_true named, of_decide_eq_true same, rfl⟩
  · rintro ⟨job, stored, jobset, present, named, joined, rfl⟩
    exact ⟨job, List.mem_filter.mpr ⟨stored, decide_eq_true named⟩,
      List.mem_map.mpr ⟨jobset, List.mem_filter.mpr ⟨present, decide_eq_true joined⟩, rfl⟩⟩

theorem permitted_of_autoApproves {user : AuthUser} {attrPath : String} {pick : Nat} {permissions : PermissionAnswers}
    (approved : history.autoApproves user attrPath pick permissions = true) :
    ∃ repo ∈ history.reposForAttrPath attrPath,
      (permissions repo.1 repo.2).any GitHubPermission.isTriageOrHigher = true := by
  rw [autoApproves] at approved
  split at approved
  · cases approved
  · rename_i owner repoName found
    exact ⟨(owner, repoName), List.mem_of_getElem? found, (Bool.and_eq_true_iff.mp approved).2⟩

theorem addMaintainer_cases (grant : MaintainerGrant) : history.addMaintainer grant = history ∨
    history.addMaintainer grant = { history with maintainers := history.maintainers ++ [grant] } := by
  rw [addMaintainer]
  split
  · exact .inr rfl
  · exact .inl rfl

/-- What an action may do to the grants. -/
inductive Effect (history : GrantHistory DrvId) (action : GrantAction DrvId) (next : GrantHistory DrvId) : Prop where
  /-- Neither jobs nor grants nor authorities change. -/
  | other (jobs : next.jobs = history.jobs) (maintainers : next.maintainers = history.maintainers)
    (authorities : next.authorities = history.authorities)
  | grants (grant : MaintainerGrant)
    (cause : grant.addedByUserId.isSome = true ∨ ∃ user attrPath pick permissions,
      action = .requestMaintainer user attrPath pick permissions ∧ grant = ⟨attrPath, user.githubId, none, permissions⟩ ∧
        history.autoApproves user attrPath pick permissions = true)
    (jobs : next.jobs = history.jobs) (maintainers : next.maintainers = history.maintainers ++ [grant])
    (authorities : next.authorities = history.authorities)

theorem Effect.addMaintainer {action : GrantAction DrvId} {before : GrantHistory DrvId} (grant : MaintainerGrant)
    (jobs : before.jobs = history.jobs) (maintainers : before.maintainers = history.maintainers)
    (authorities : before.authorities = history.authorities)
    (cause : grant.addedByUserId.isSome = true ∨ ∃ user attrPath pick permissions,
      action = .requestMaintainer user attrPath pick permissions ∧ grant = ⟨attrPath, user.githubId, none, permissions⟩ ∧
        history.autoApproves user attrPath pick permissions = true) :
    Effect history action (before.addMaintainer grant) := by
  obtain same | same := @addMaintainer_cases _ before grant
  · rw [same]
    exact .other jobs maintainers authorities
  · rw [same]
    exact .grants grant cause jobs (by rw [maintainers]) authorities

section Steps

variable [DecidableEq DrvId] {schema : Schema} {fromStr : String → Option DrvId}

/-- Jobs are recorded by an evaluation and authorities by a comment; the other actions have one of
the effects on the grants. -/
theorem perform_effect (history : GrantHistory DrvId) (schema : Schema) (fromStr : String → Option DrvId)
    (action : GrantAction DrvId) :
    (∃ call, action = .createJobset call) ∨ (∃ request requesterId permission,
      action = .authorizeCommenter request requesterId permission) ∨
      Effect history action (history.perform schema fromStr action) := by
  cases action with
  | createJobset call => exact .inl ⟨call, rfl⟩
  | authorizeCommenter request requesterId permission => exact .inr (.inl ⟨request, requesterId, permission, rfl⟩)
  | signIn user | write pullRequests differences => exact .inr (.inr (.other rfl rfl rfl))
  | requestMaintainer user attrPath pick permissions =>
    refine .inr (.inr ?_)
    rw [perform, requestMaintainer]
    split
    · exact .other rfl rfl rfl
    · split
      · exact .other rfl rfl rfl
      · split
        · rename_i approved
          exact .addMaintainer _ rfl rfl rfl (.inr ⟨user, attrPath, pick, permissions, rfl, rfl, approved⟩)
        · rw [createMaintainerRequest]
          split <;> exact .other rfl rfl rfl
  | approveRequest admin requestId =>
    refine .inr (.inr ?_)
    rw [perform, approveRequest]
    split
    · exact .other rfl rfl rfl
    · split
      · exact .addMaintainer _ rfl rfl rfl (.inl rfl)
      · exact .other rfl rfl rfl
  | rejectRequest admin requestId =>
    refine .inr (.inr ?_)
    rw [perform, rejectRequest]
    split <;> exact .other rfl rfl rfl
  | addMaintainerByUsername admin attrPath githubUsername =>
    refine .inr (.inr ?_)
    rw [perform, addMaintainerByUsername]
    split
    · exact .other rfl rfl rfl
    · split
      · exact .addMaintainer _ rfl rfl rfl (.inl rfl)
      · exact .other rfl rfl rfl

end Steps

section Runs

variable [DecidableEq DrvId] {fromStr : String → Option DrvId}

theorem GrantsFounded.step {action : GrantAction DrvId} (founded : history.GrantsFounded)
    (meets : history.FoundsGrants action) : (history.perform .completed fromStr action).GrantsFounded := by
  have kept {next : GrantHistory DrvId} (jobs : next.jobs = history.jobs) (attrPath : String) :
      next.reposForAttrPath attrPath = history.reposForAttrPath attrPath := by
    rw [reposForAttrPath, jobs]
    rfl
  obtain ⟨call, rfl⟩ | ⟨request, requesterId, permission, rfl⟩ | effect :=
    perform_effect history .completed fromStr action
  · obtain ⟨linked, joined⟩ := founded.linked.recordJobset fromStr call
    refine ⟨linked, fun grant member repo of => ?_⟩
    obtain ⟨job, stored, jobset, present, named, same, rfl⟩ := mem_reposForAttrPath.mp of
    rcases joined job stored jobset present same with ⟨old, known, oldName, before, number⟩ | ⟨⟨given, listed, attr⟩, owner, repoName⟩
    · refine founded.grants grant member (jobset.owner, jobset.repoName) (mem_reposForAttrPath.mpr ?_)
      exact ⟨old, known, jobset, before, oldName.trans named, number, rfl⟩
    · dsimp only
      rw [foundedOn_iff, owner, repoName]
      exact meets grant member given listed (attr.trans named)
  · rw [perform]
    split <;> exact ⟨founded.linked, founded.grants⟩
  · cases effect with
    | other jobs maintainers authorities =>
      refine ⟨by rw [jobs]; exact founded.linked, fun grant member repo of => ?_⟩
      rw [maintainers] at member
      rw [kept jobs] at of
      exact founded.grants grant member repo of
    | grants added cause jobs maintainers authorities =>
      refine ⟨by rw [jobs]; exact founded.linked, fun grant member repo of => ?_⟩
      rw [maintainers] at member
      rw [kept jobs] at of
      obtain before | now := mem_snoc.mp member
      · exact founded.grants grant before repo of
      · rw [now] at of ⊢
        obtain admin | ⟨user, attrPath, pick, permissions, rfl, rfl, approved⟩ := cause
        · exact .inl admin
        · obtain ⟨first, listed, permitted⟩ := permitted_of_autoApproves approved
          exact foundedOn_iff.mpr (.inr (meets first listed permitted repo of))

end Runs

/-! A user with a repository of his own, which has a job of a name that is used elsewhere. -/

end GrantHistory

end EkaCI
