import EkaCI.Git.Workspace
import EkaCI.Jobs.Config
import EkaCI.Jobs.Differences

/-! From a checkout to the drvs that are built: the git service makes the worktree, the reader
of repositories sends the jobs of its configuration, and the evaluation service evaluates them.
Every service drops a task whose step fails. The checks and skills of a configuration and the
gates of the forge are left out. -/

namespace EkaCI

open Lib

structure PullRequestSide where
  repo : GitRepo
  sha : String
  refField : String

inductive GitTask where
  | checkout (workspace : GitWorkspace)
  | gitHubCheckout (base head : PullRequestSide)
  | channelCheckout (workspace : GitWorkspace) (owner repoName sha : String)

inductive RepoTask where
  | read (repoPath : UnixPath)
  | readGitHub (repoPath : UnixPath) (ciInfo : CICheckInfo)

structure EvalJob where
  filePath : String
  name : String
  allowFailures : Bool
  configJson : Option Json

inductive EvalTask where
  | job (evalJob : EvalJob)
  | githubJobPR (evalJob : EvalJob) (ciInfo : CICheckInfo)

structure NixEvalError where
  attr : String
  attrPath : List String
  error : String

/-- The tasks for the GitHub service that an evaluation sends. -/
inductive EvalReport where
  | failCIEvalJob (ciCheckInfo : CICheckInfo) (jobName : String) (errors : List NixEvalError)
  | createCIEvalJob (ciCheckInfo : CICheckInfo) (jobTitle : String)
  | createJobSet (ciCheckInfo : CICheckInfo) (name : String) (jobs : List NixEvalDrv) (configJson : Option Json)
  | completeCIEvalJob (ciCheckInfo : CICheckInfo) (jobName : String)

/-- What an evaluation hands to `batch_traverse`, which puts the drvs with their closure into
the build graph and requests their builds, and what it reports. -/
structure Evaluation where
  traversed : List NixEvalDrv
  reports : List EvalReport

/-- What the steps find. The GitHub app is there. -/
structure EvalWorld (DrvId : Type) where
  root : UnixPath
  jobs : JobDatabase DrvId
  createWorktree : GitWorkspace → Bool
  /-- The clone is there and the reference was fetched into it. -/
  fetchRemoteRepo : GitWorkspace → GitRepo → String → Bool
  /-- The jobs of a configuration, in the order of the map. -/
  readRepoToplevel : UnixPath → Option (List (String × ConfigJob))
  resolveFilePath : UnixPath → String → Option String
  runNixEvalJobs : String → Option (List NixEvalDrv × List NixEvalError)

namespace EvalWorld

variable {DrvId : Type} (world : EvalWorld DrvId)

def handleGitTask : GitTask → List RepoTask
  | .checkout workspace => if world.createWorktree workspace then [.read workspace.worktreePath] else []
  | .gitHubCheckout base head =>
    let baseRepo := GitWorkspace.new base.repo base.sha world.root
    let headRepo := GitWorkspace.new base.repo head.sha world.root
    if world.fetchRemoteRepo baseRepo base.repo base.refField ∧ world.createWorktree baseRepo ∧
        world.fetchRemoteRepo headRepo head.repo head.refField ∧ world.createWorktree headRepo then
      [.readGitHub baseRepo.worktreePath ⟨base.sha, none, base.repo.owner, base.repo.repo⟩,
        .readGitHub headRepo.worktreePath ⟨head.sha, some base.sha, head.repo.owner, head.repo.repo⟩]
    else []
  | .channelCheckout workspace owner repoName sha =>
    if world.createWorktree workspace then [.readGitHub workspace.worktreePath ⟨sha, none, owner, repoName⟩] else []

/-- The tasks of the jobs up to the first whose file is not in the repository. -/
def readJobs (repoPath : UnixPath) (skip : String → Bool) (send : String → ConfigJob → String → EvalTask) :
    List (String × ConfigJob) → List EvalTask
  | [] => []
  | (name, job) :: rest =>
    if skip name then readJobs repoPath skip send rest
    else
      match world.resolveFilePath repoPath job.file with
      | none => []
      | some filePath => send name job filePath :: readJobs repoPath skip send rest

/-- A job that has a jobset at the commit is not evaluated again. -/
def handleRepoTask : RepoTask → List EvalTask
  | .read repoPath =>
    match world.readRepoToplevel repoPath with
    | none => []
    | some jobs =>
      let send _ (job : ConfigJob) filePath := EvalTask.job ⟨filePath, "local", job.allowEvalFailures, some job.toJson⟩
      world.readJobs repoPath (fun _ => false) send jobs
  | .readGitHub repoPath ciInfo =>
    match world.readRepoToplevel repoPath with
    | none => []
    | some jobs =>
      let visited name := world.jobs.hasJobset ciInfo.commit name ciInfo.owner ciInfo.repoName
      let send name (job : ConfigJob) filePath :=
        EvalTask.githubJobPR ⟨filePath, name, job.allowEvalFailures, some job.toJson⟩ ciInfo
      world.readJobs repoPath visited send jobs

/-- Only the drvs of a head are traversed. -/
def handleGithubJobPr (evalJob : EvalJob) (ciInfo : CICheckInfo) : Evaluation :=
  match world.runNixEvalJobs evalJob.filePath with
  | none => ⟨[], []⟩
  | some (jobs, errors) => {
      traversed := if ciInfo.baseCommit.isSome then jobs else []
      reports :=
        if evalJob.allowFailures = false ∧ errors ≠ [] then [.failCIEvalJob ciInfo evalJob.name errors]
        else
          [.createCIEvalJob ciInfo evalJob.name, .createJobSet ciInfo evalJob.name jobs evalJob.configJson,
            .completeCIEvalJob ciInfo evalJob.name] }

def handleEvalTask : EvalTask → Evaluation
  | .job evalJob =>
    match world.runNixEvalJobs evalJob.filePath with
    | none => ⟨[], []⟩
    | some (jobs, _) => ⟨jobs, []⟩
  | .githubJobPR evalJob ciInfo => world.handleGithubJobPr evalJob ciInfo

/-- All that comes of the queued checkouts. -/
def evaluations (tasks : List GitTask) : List Evaluation :=
  ((tasks.flatMap world.handleGitTask).flatMap world.handleRepoTask).map world.handleEvalTask

/-- The loop over the jobs gets to this one and sends it. -/
def Reaches (repoPath : UnixPath) (skip : String → Bool) (jobs : List (String × ConfigJob)) (name : String)
    (job : ConfigJob) (filePath : String) : Prop :=
  ∃ earlier later, jobs = earlier ++ (name, job) :: later ∧
    (∀ other ∈ earlier, skip other.1 = true ∨ (world.resolveFilePath repoPath other.2.file).isSome = true) ∧
      skip name = false ∧ world.resolveFilePath repoPath job.file = some filePath

variable {world} {repoPath : UnixPath}

theorem reaches_cons {skip : String → Bool} {first : String × ConfigJob} {rest : List (String × ConfigJob)} {name : String}
    {job : ConfigJob} {filePath : String} :
    world.Reaches repoPath skip (first :: rest) name job filePath ↔
      ((name, job) = first ∧ skip first.1 = false ∧ world.resolveFilePath repoPath first.2.file = some filePath) ∨
        ((skip first.1 = true ∨ (world.resolveFilePath repoPath first.2.file).isSome = true) ∧
          world.Reaches repoPath skip rest name job filePath) := by
  constructor
  · rintro ⟨earlier, later, same, passed, sent⟩
    cases earlier with
    | nil =>
      obtain ⟨rfl, -⟩ := List.cons.inj same
      exact Or.inl ⟨rfl, sent⟩
    | cons other earlier =>
      obtain ⟨rfl, rfl⟩ := List.cons.inj same
      refine Or.inr ⟨passed _ List.mem_cons_self, earlier, later, rfl, ?_, sent⟩
      exact fun other listed => passed other (List.mem_cons_of_mem _ listed)
  · rintro (⟨rfl, sent⟩ | ⟨passes, earlier, later, rfl, passed, sent⟩)
    · exact ⟨[], rest, rfl, nofun, sent⟩
    · refine ⟨first :: earlier, later, rfl, ?_, sent⟩
      intro other listed
      rcases List.mem_cons.mp listed with rfl | before
      · exact passes
      · exact passed other before

theorem mem_readJobs {skip : String → Bool} {send : String → ConfigJob → String → EvalTask}
    {jobs : List (String × ConfigJob)} {task : EvalTask} :
    task ∈ world.readJobs repoPath skip send jobs ↔
      ∃ name job filePath, world.Reaches repoPath skip jobs name job filePath ∧ task = send name job filePath := by
  induction jobs with
  | nil =>
    refine ⟨nofun, ?_⟩
    rintro ⟨name, job, filePath, ⟨earlier, later, same, -⟩, -⟩
    simp at same
  | cons first rest ih =>
    obtain ⟨firstName, firstJob⟩ := first
    simp only [readJobs, reaches_cons]
    split
    next skipped => simp [ih, skipped]
    next unskipped =>
      split
      next unresolved => simp [unskipped, unresolved]
      next filePath resolved =>
        rw [List.mem_cons, ih]
        constructor
        · rintro (rfl | ⟨name, job, otherPath, reached, rfl⟩)
          · exact ⟨firstName, firstJob, filePath, Or.inl ⟨rfl, Bool.eq_false_iff.mpr unskipped, resolved⟩, rfl⟩
          · exact ⟨name, job, otherPath, Or.inr ⟨Or.inr (by rw [resolved]; rfl), reached⟩, rfl⟩
        · rintro ⟨name, job, otherPath, ⟨same, -, found⟩ | ⟨-, reached⟩, rfl⟩
          · obtain ⟨rfl, rfl⟩ := Prod.mk.inj same
            obtain rfl := Option.some.inj (resolved.symm.trans found)
            exact Or.inl rfl
          · exact Or.inr ⟨name, job, otherPath, reached, rfl⟩

variable (world) in
/-- A job of the configuration that has no jobset at the commit is evaluated there, with this
result. -/
def Evaluates (repoPath : UnixPath) (ciInfo : CICheckInfo) (name : String) (job : ConfigJob) (jobs : List NixEvalDrv)
    (errors : List NixEvalError) : Prop :=
  ∃ config filePath, world.readRepoToplevel repoPath = some config ∧
    world.Reaches repoPath (fun name => world.jobs.hasJobset ciInfo.commit name ciInfo.owner ciInfo.repoName) config name
      job filePath ∧
    world.runNixEvalJobs filePath = some (jobs, errors)

variable (world) in
/-- The jobsets of the commit are created, and every evaluated drv is traversed. A job whose
errors are not allowed has no jobset. -/
def Schedules (evaluations : List Evaluation) (repoPath : UnixPath) (ciInfo : CICheckInfo) : Prop :=
  ∀ name job jobs errors, world.Evaluates repoPath ciInfo name job jobs errors →
    (job.allowEvalFailures = true ∨ errors = [] →
      ∃ evaluation ∈ evaluations, .createJobSet ciInfo name jobs (some job.toJson) ∈ evaluation.reports) ∧
    ∀ drv ∈ jobs, ∃ evaluation ∈ evaluations, drv ∈ evaluation.traversed

theorem mem_handleRepoTask_readGitHub {ciInfo : CICheckInfo} {task : EvalTask} :
    task ∈ world.handleRepoTask (.readGitHub repoPath ciInfo) ↔ ∃ config name job filePath,
      world.readRepoToplevel repoPath = some config ∧
        world.Reaches repoPath (fun name => world.jobs.hasJobset ciInfo.commit name ciInfo.owner ciInfo.repoName) config
          name job filePath ∧
        task = .githubJobPR ⟨filePath, name, job.allowEvalFailures, some job.toJson⟩ ciInfo := by
  simp only [handleRepoTask]
  split
  next missing => simp [missing]
  next config found => simp [found, mem_readJobs]

theorem mem_evaluations {tasks : List GitTask} {evaluation : Evaluation} :
    evaluation ∈ world.evaluations tasks ↔ ∃ task ∈ tasks, ∃ repoTask ∈ world.handleGitTask task,
      ∃ evalTask ∈ world.handleRepoTask repoTask, world.handleEvalTask evalTask = evaluation := by
  simp only [evaluations, List.mem_map, List.mem_flatMap]
  constructor
  · rintro ⟨evalTask, ⟨repoTask, ⟨task, queued, read⟩, sent⟩, same⟩
    exact ⟨task, queued, repoTask, read, evalTask, sent, same⟩
  · rintro ⟨task, queued, repoTask, read, evalTask, sent, same⟩
    exact ⟨evalTask, ⟨repoTask, ⟨task, queued, read⟩, sent⟩, same⟩

theorem evaluation_of_readGitHub {tasks : List GitTask} {task : GitTask} {ciInfo : CICheckInfo} {name : String}
    {job : ConfigJob} {jobs : List NixEvalDrv} {errors : List NixEvalError} (queued : task ∈ tasks)
    (read : .readGitHub repoPath ciInfo ∈ world.handleGitTask task)
    (evaluates : world.Evaluates repoPath ciInfo name job jobs errors) :
    ∃ evaluation ∈ world.evaluations tasks,
      (ciInfo.baseCommit.isSome = true → evaluation.traversed = jobs) ∧
        (job.allowEvalFailures = true ∨ errors = [] →
          .createJobSet ciInfo name jobs (some job.toJson) ∈ evaluation.reports) := by
  obtain ⟨config, filePath, found, reached, evaluated⟩ := evaluates
  refine ⟨_, mem_evaluations.mpr ⟨task, queued, _, read, _,
    mem_handleRepoTask_readGitHub.mpr ⟨config, name, job, filePath, found, reached, rfl⟩, rfl⟩, ?_, ?_⟩
  · intro based
    simp [handleEvalTask, handleGithubJobPr, evaluated, based]
  · intro passes
    have gate : ¬ (job.allowEvalFailures = false ∧ errors ≠ []) := by
      rintro ⟨disallowed, failed⟩
      rcases passes with allowed | clean
      · rw [disallowed] at allowed
        cases allowed
      · exact failed clean
    simp [handleEvalTask, handleGithubJobPr, evaluated, gate]

theorem gitHubCheckout_schedules {base head : PullRequestSide}
    (read : world.handleGitTask (.gitHubCheckout base head) ≠ []) :
    world.Schedules (world.evaluations [.gitHubCheckout base head])
      (GitWorkspace.new base.repo head.sha world.root).worktreePath
      ⟨head.sha, some base.sha, head.repo.owner, head.repo.repo⟩ := by
  intro name job jobs errors evaluates
  have sent : .readGitHub (GitWorkspace.new base.repo head.sha world.root).worktreePath
      ⟨head.sha, some base.sha, head.repo.owner, head.repo.repo⟩ ∈ world.handleGitTask (.gitHubCheckout base head) := by
    simp only [handleGitTask] at read ⊢
    split
    next => exact List.mem_cons_of_mem _ List.mem_cons_self
    next failed =>
      rw [if_neg failed] at read
      exact absurd rfl read
  obtain ⟨evaluation, listed, traversed, reported⟩ :=
    evaluation_of_readGitHub List.mem_cons_self sent evaluates
  refine ⟨fun passes => ⟨evaluation, listed, reported passes⟩, fun drv member => ⟨evaluation, listed, ?_⟩⟩
  rw [traversed rfl]
  exact member

theorem channelCheckout_traversed {workspace : GitWorkspace} {owner repoName sha : String} {evaluation : Evaluation}
    (listed : evaluation ∈ world.evaluations [.channelCheckout workspace owner repoName sha]) :
    evaluation.traversed = [] := by
  obtain ⟨task, queued, repoTask, read, evalTask, sent, rfl⟩ := mem_evaluations.mp listed
  cases List.mem_singleton.mp queued
  simp only [handleGitTask] at read
  split at read
  next =>
    cases List.mem_singleton.mp read
    obtain ⟨config, name, job, filePath, -, -, rfl⟩ := mem_handleRepoTask_readGitHub.mp sent
    simp only [handleEvalTask, handleGithubJobPr]
    split
    next => rfl
    next => rfl
  next => cases read

theorem channelCheckout_schedules_iff {workspace : GitWorkspace} {owner repoName sha : String}
    (made : world.createWorktree workspace = true) :
    world.Schedules (world.evaluations [.channelCheckout workspace owner repoName sha]) workspace.worktreePath
        ⟨sha, none, owner, repoName⟩ ↔
      ∀ name job jobs errors,
        world.Evaluates workspace.worktreePath ⟨sha, none, owner, repoName⟩ name job jobs errors → jobs = [] := by
  have sent : .readGitHub workspace.worktreePath ⟨sha, none, owner, repoName⟩ ∈
      world.handleGitTask (.channelCheckout workspace owner repoName sha) := by
    simp [handleGitTask, made]
  constructor
  · intro schedules name job jobs errors evaluates
    refine List.eq_nil_iff_forall_not_mem.mpr fun drv member => ?_
    obtain ⟨evaluation, listed, traversed⟩ := (schedules name job jobs errors evaluates).2 drv member
    rw [channelCheckout_traversed listed] at traversed
    cases traversed
  · intro empty name job jobs errors evaluates
    obtain ⟨evaluation, listed, -, reported⟩ := evaluation_of_readGitHub List.mem_cons_self sent evaluates
    refine ⟨fun passes => ⟨evaluation, listed, reported passes⟩, fun drv member => ?_⟩
    rw [empty name job jobs errors evaluates] at member
    cases member

end EvalWorld

end EkaCI
