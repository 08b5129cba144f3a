import EkaCI.Channels.Registry
import EkaCI.Channels.Service
import EkaCI.Jobs.Evaluation

/-! What a push webhook sets going. The channels that track the branch are told of the commit,
and a checkout of it is queued; each forge has a handler of its own. -/

namespace EkaCI

open Lib

/-- The repository comes from the envelope of the webhook. -/
structure GitHubPush where
  deleted : Bool
  ref : String
  after : String
  repositoryInfo : Option (String × String)

structure GitLabPush where
  refName : String
  after : String
  webUrl : String
  pathWithNamespace : String

structure GiteaPush where
  refName : String
  after : String
  htmlUrl : String
  ownerLogin : String
  repoName : String

inductive SearchIndexTask where
  | generateIndexes (channelId : String) (channel : ChannelConfig) (sha : String)

/-- What a handler sends. -/
structure PushTasks where
  gitTasks : List GitTask := []
  channelTasks : List ChannelTask := []
  searchIndexTasks : List SearchIndexTask := []

def stripStart (start text : String) : Option String :=
  if start.toList.isPrefixOf text.toList then some (String.ofList (text.toList.drop start.toList.length)) else none

def branchOf (ref : String) : Option String := stripStart "refs/heads/" ref

def extractDomain (fallback url : String) : String :=
  match (stripStart "https://" url).or (stripStart "http://" url) with
  | none => fallback
  | some rest => String.ofList (rest.toList.takeWhile (· ≠ '/'))

/-- The path up to the first `/` and the rest. -/
def parsePathWithNamespace (path : String) : String × String :=
  match path.toList.dropWhile (· ≠ '/') with
  | [] => ("unknown", path)
  | _ :: repo => (String.ofList (path.toList.takeWhile (· ≠ '/')), String.ofList repo)

namespace ChannelRegistry

variable (channels : ChannelRegistry)

def matchTargetBranchChannels (forge : ChannelForge) (owner repo branch : String) : List ChannelConfig :=
  (channels.map (·.2)).filter fun channel =>
    channel.forge = forge ∧ eqIgnoreAsciiCase channel.owner owner ∧ channel.repo = repo ∧
      channel.targetBranch = branch

/-- One checkout, and a task for each channel. -/
def handleTrackingBranch (root : UnixPath) (channelSender : Bool) (owner repoName branch sha : String) :
    List GitTask × List ChannelTask :=
  let found := channels.matchPushChannels .gitHub owner repoName branch
  if found = [] then ([], [])
  else
    let workspace := GitWorkspace.fromGitRequest root ⟨"github.com", owner, repoName, sha⟩
    ([.channelCheckout workspace owner repoName sha],
      if channelSender then found.map fun channel => .evaluatePush channel sha else [])

def handleTargetBranch (searchIndexSender : Bool) (owner repoName branch sha : String) : List SearchIndexTask :=
  if searchIndexSender then
    (channels.matchTargetBranchChannels .gitHub owner repoName branch).map fun channel =>
      .generateIndexes channel.channelId channel sha
  else []

def handleGithubPush (root : UnixPath) (channelSender searchIndexSender : Bool) (push : GitHubPush) : PushTasks :=
  if push.deleted then {}
  else
    match push.repositoryInfo, branchOf push.ref with
    | some (owner, repoName), some branch =>
      let (gitTasks, channelTasks) := channels.handleTrackingBranch root channelSender owner repoName branch push.after
      { gitTasks, channelTasks
        searchIndexTasks := channels.handleTargetBranch searchIndexSender owner repoName branch push.after }
    | _, _ => {}

/-- The two other forges send no task for a channel. -/
def handlePushEvent (root : UnixPath) (forge : String → ChannelForge) (domain owner repoName refName after : String) :
    PushTasks :=
  if after.toList.all (· = '0') then {}
  else
    match branchOf refName with
    | none => {}
    | some branch =>
      if channels.matchPushChannels (forge domain) owner repoName branch = [] then {}
      else { gitTasks := [.checkout (.fromGitRequest root ⟨domain, owner, repoName, after⟩)] }

def handleGitlabPush (root : UnixPath) (push : GitLabPush) : PushTasks :=
  let (owner, repoName) := parsePathWithNamespace push.pathWithNamespace
  channels.handlePushEvent root .gitLab (extractDomain "gitlab.com" push.webUrl) owner repoName push.refName push.after

def handleGiteaPush (root : UnixPath) (push : GiteaPush) : PushTasks :=
  channels.handlePushEvent root .gitea (extractDomain "gitea.local" push.htmlUrl) push.ownerLogin push.repoName
    push.refName push.after

/-- The channels that track the pushed branch. -/
def selectedBy (forge : ChannelForge) (owner repoName refName : String) : List ChannelConfig :=
  match branchOf refName with
  | none => []
  | some branch => channels.matchPushChannels forge owner repoName branch

end ChannelRegistry

inductive Push where
  | gitHub (push : GitHubPush)
  | gitLab (push : GitLabPush)
  | gitea (push : GiteaPush)

namespace Push

/-- The handler of the forge, with the channel service there. -/
def handle (channels : ChannelRegistry) (root : UnixPath) (searchIndexSender : Bool) : Push → PushTasks
  | .gitHub push => channels.handleGithubPush root true searchIndexSender push
  | .gitLab push => channels.handleGitlabPush root push
  | .gitea push => channels.handleGiteaPush root push

def sha : Push → String
  | .gitHub push => push.after
  | .gitLab push => push.after
  | .gitea push => push.after

/-- The channels of the push; a deletion, a tag or a push to an unknown repository has none. -/
def selected (channels : ChannelRegistry) : Push → List ChannelConfig
  | .gitHub push =>
    match push.repositoryInfo with
    | none => []
    | some (owner, repoName) => if push.deleted then [] else channels.selectedBy .gitHub owner repoName push.ref
  | .gitLab push =>
    let (owner, repoName) := parsePathWithNamespace push.pathWithNamespace
    if push.after.toList.all (· = '0') then []
    else channels.selectedBy (.gitLab (extractDomain "gitlab.com" push.webUrl)) owner repoName push.refName
  | .gitea push =>
    if push.after.toList.all (· = '0') then []
    else
      channels.selectedBy (.gitea (extractDomain "gitea.local" push.htmlUrl)) push.ownerLogin push.repoName push.refName

section Served

variable {DrvId : Type} (world : EvalWorld DrvId) (channels : ChannelRegistry) (searchIndexSender : Bool)

/-- The workspace and the commit of a push to GitHub. -/
def checkoutOf (owner repoName sha : String) : GitWorkspace × CICheckInfo :=
  (.fromGitRequest world.root ⟨"github.com", owner, repoName, sha⟩, ⟨sha, none, owner, repoName⟩)

/-- The push is evaluated: every channel is told once, and a push to GitHub is checked out once,
and what it evaluates to is scheduled. -/
structure Served (push : Push) : Prop where
  told : (push.handle channels world.root searchIndexSender).channelTasks =
    (push.selected channels).map fun channel => .evaluatePush channel push.sha
  ignored : push.selected channels = [] → (push.handle channels world.root searchIndexSender).gitTasks = []
  built : ∀ event, push = .gitHub event → push.selected channels ≠ [] →
    ∃ owner repoName, event.repositoryInfo = some (owner, repoName) ∧
      let (workspace, ciInfo) := checkoutOf world owner repoName event.after
      let tasks := (push.handle channels world.root searchIndexSender).gitTasks
      tasks = [.channelCheckout workspace owner repoName event.after] ∧
        (world.createWorktree workspace = true →
          world.Schedules (world.evaluations tasks) workspace.worktreePath ciInfo)

/-- No channel tracks the branch, or the push is one to GitHub at which no job that has no
jobset there evaluates to a drv. -/
def Inert (push : Push) : Prop :=
  push.selected channels = [] ∨ ∃ event, push = .gitHub event ∧
    ∀ owner repoName, event.repositoryInfo = some (owner, repoName) →
      let (workspace, ciInfo) := checkoutOf world owner repoName event.after
      world.createWorktree workspace = true →
        ∀ name job jobs errors, world.Evaluates workspace.worktreePath ciInfo name job jobs errors → jobs = []

end Served

section Handlers

variable {channels : ChannelRegistry} {root : UnixPath} {searchIndexSender : Bool}

/-- What the handler of GitHub sends: one checkout and a task for each channel, if there are any. -/
theorem handle_gitHub (channels : ChannelRegistry) (root : UnixPath) (searchIndexSender : Bool) (event : GitHubPush) :
    ∃ searchIndexTasks, handle channels root searchIndexSender (.gitHub event) = {
      gitTasks :=
        match event.repositoryInfo with
        | none => []
        | some (owner, repoName) =>
          let workspace := GitWorkspace.fromGitRequest root ⟨"github.com", owner, repoName, event.after⟩
          if selected channels (.gitHub event) = [] then []
          else [.channelCheckout workspace owner repoName event.after]
      channelTasks := (selected channels (.gitHub event)).map fun channel => .evaluatePush channel event.after
      searchIndexTasks } := by
  obtain ⟨deleted, ref, after, repositoryInfo⟩ := event
  cases repositoryInfo with
  | none => cases deleted <;> exact ⟨[], rfl⟩
  | some repository =>
    cases deleted with
    | true => exact ⟨[], rfl⟩
    | false =>
      simp only [handle, ChannelRegistry.handleGithubPush, selected, Bool.false_eq_true, if_false,
        ChannelRegistry.selectedBy]
      cases branchOf ref with
      | none => exact ⟨[], rfl⟩
      | some branch =>
        refine ⟨channels.handleTargetBranch searchIndexSender repository.1 repository.2 branch after, ?_⟩
        simp only [ChannelRegistry.handleTrackingBranch, if_true]
        split
        next none => simp [none]
        next => rfl

theorem handlePushEvent_channelTasks (forge : String → ChannelForge) (domain owner repoName refName after : String) :
    (channels.handlePushEvent root forge domain owner repoName refName after).channelTasks = [] := by
  rw [ChannelRegistry.handlePushEvent]
  split
  next => rfl
  next =>
    split
    next => rfl
    next =>
      split
      next => rfl
      next => rfl

theorem handlePushEvent_gitTasks {forge : String → ChannelForge} {domain owner repoName refName after : String}
    (none : (if after.toList.all (· = '0') then [] else channels.selectedBy (forge domain) owner repoName refName) = []) :
    (channels.handlePushEvent root forge domain owner repoName refName after).gitTasks = [] := by
  rw [ChannelRegistry.handlePushEvent]
  split
  next => rfl
  next pushed =>
    rw [if_neg pushed, ChannelRegistry.selectedBy] at none
    split
    next => rfl
    next branch named =>
      rw [named] at none
      rw [if_pos none]

theorem gitTasks_of_selected_eq_nil {push : Push} (none : push.selected channels = []) :
    (push.handle channels root searchIndexSender).gitTasks = [] := by
  cases push with
  | gitHub event =>
    obtain ⟨searchIndexTasks, sent⟩ := handle_gitHub channels root searchIndexSender event
    rw [sent, none]
    cases event.repositoryInfo with
    | none => rfl
    | some repository => rfl
  | gitLab event => exact handlePushEvent_gitTasks none
  | gitea event => exact handlePushEvent_gitTasks none

theorem channelTasks_of_not_gitHub {push : Push} (other : ∀ event, push ≠ .gitHub event) :
    (push.handle channels root searchIndexSender).channelTasks = [] := by
  cases push with
  | gitHub event => exact absurd rfl (other event)
  | gitLab event => exact handlePushEvent_channelTasks _ _ _ _ _ _
  | gitea event => exact handlePushEvent_channelTasks _ _ _ _ _ _

end Handlers

section Served

variable {DrvId : Type} {world : EvalWorld DrvId} {channels : ChannelRegistry} {searchIndexSender : Bool} {push : Push}

theorem Served.inert (served : push.Served world channels searchIndexSender) : push.Inert world channels := by
  by_cases none : push.selected channels = []
  · exact Or.inl none
  · by_cases other : ∀ event, push ≠ .gitHub event
    · have silent := served.told
      rw [channelTasks_of_not_gitHub other] at silent
      exact absurd (List.map_eq_nil_iff.mp silent.symm) none
    · obtain ⟨event, same⟩ := not_forall.mp other
      obtain rfl := not_not.mp same
      refine Or.inr ⟨event, rfl, fun owner repoName repository made => ?_⟩
      obtain ⟨sameOwner, sameRepo, known, queued, schedules⟩ := served.built event rfl none
      obtain ⟨rfl, rfl⟩ := Prod.mk.inj (Option.some.inj (repository.symm.trans known))
      rw [queued] at schedules
      exact (EvalWorld.channelCheckout_schedules_iff made).mp (schedules made)

theorem Inert.served (inert : push.Inert world channels) : push.Served world channels searchIndexSender := by
  refine ⟨?_, gitTasks_of_selected_eq_nil, ?_⟩
  · by_cases other : ∀ event, push ≠ .gitHub event
    · rw [channelTasks_of_not_gitHub other]
      rcases inert with none | ⟨event, same, -⟩
      · rw [none]
        rfl
      · exact absurd same (other event)
    · obtain ⟨event, same⟩ := not_forall.mp other
      obtain rfl := not_not.mp same
      obtain ⟨searchIndexTasks, sent⟩ := handle_gitHub channels world.root searchIndexSender event
      rw [sent]
      rfl
  · rintro event rfl tracked
    obtain ⟨_, same, empty⟩ := inert.resolve_left tracked
    cases same
    obtain ⟨searchIndexTasks, sent⟩ := handle_gitHub channels world.root searchIndexSender event
    have queued := congrArg PushTasks.gitTasks sent
    cases repository : event.repositoryInfo with
    | none => exact absurd (by simp [selected, repository]) tracked
    | some pair =>
      obtain ⟨owner, repoName⟩ := pair
      simp only [repository, if_neg tracked] at queued
      refine ⟨owner, repoName, rfl, queued, fun made => ?_⟩
      rw [queued]
      exact (EvalWorld.channelCheckout_schedules_iff made).mpr (empty owner repoName repository made)

end Served

/-- A push is evaluated exactly when there is nothing to evaluate: GitLab and Gitea tell no
channel, and what a push to GitHub evaluates to is not traversed. -/
theorem served_iff {DrvId : Type} (world : EvalWorld DrvId) (channels : ChannelRegistry) (searchIndexSender : Bool)
    (push : Push) : push.Served world channels searchIndexSender ↔ push.Inert world channels :=
  ⟨Served.inert, Inert.served⟩

/-- A repository with one job, which evaluates to one drv. -/
def corepkgsWorld : EvalWorld Nat where
  root := ⟨"/var/lib/ekaci/repos".toList⟩
  jobs := .empty fun _ => .queued
  createWorktree _ := true
  fetchRemoteRepo _ _ _ := true
  readRepoToplevel _ := some [("pkgs", ⟨"/default.nix", true, [], none, none⟩)]
  resolveFilePath _ _ := some "/var/lib/ekaci/repos/github.com/ekala/corepkgs/worktrees/c0ffee/default.nix"
  runNixEvalJobs _ := some ([⟨"hello", "/nix/store/00000000000000000000000000000000-hello-1.drv"⟩], [])

/-- The drv of the pushed commit is not traversed. -/
theorem trackedPush_not_served :
    ¬ (Push.gitHub ⟨false, "refs/heads/master", "c0ffee", some ("ekala", "corepkgs")⟩).Served corepkgsWorld
      [("github/ekala/corepkgs/unstable",
        ⟨.gitHub, "ekala", "corepkgs", "unstable", "master", "release", ["hello"], [], false⟩)] false := by
  intro served
  rcases served.inert with none | ⟨event, same, empty⟩
  · exact absurd none (by decide)
  · cases same
    have evaluated : corepkgsWorld.Evaluates (checkoutOf corepkgsWorld "ekala" "corepkgs" "c0ffee").1.worktreePath
        ⟨"c0ffee", none, "ekala", "corepkgs"⟩ "pkgs" ⟨"/default.nix", true, [], none, none⟩
        [⟨"hello", "/nix/store/00000000000000000000000000000000-hello-1.drv"⟩] [] :=
      ⟨_, _, rfl, ⟨[], [], rfl, nofun, rfl, rfl⟩, rfl⟩
    cases empty "ekala" "corepkgs" rfl rfl "pkgs" _ _ _ evaluated

end Push

end EkaCI
