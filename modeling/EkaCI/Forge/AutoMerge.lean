import EkaCI.Forge.Schema
import EkaCI.Jobs.Database

/-! The evaluation whether a pull request may be merged without a click. It is
written once for the three forges, which differ in their tables and in a few
statements. -/

namespace EkaCI

variable {DrvId : Type}

/-- What tells a repository apart on its forge. -/
inductive Repository where
  | gitHub (owner repoName : String)
  | gitLab (domain : String) (projectId : Nat)
  | gitea (domain owner repoName : String)
  deriving DecidableEq, Repr

def Repository.forge : Repository → Forge
  | .gitHub _ _ => .gitHub
  | .gitLab _ _ => .gitLab
  | .gitea _ _ _ => .gitea

structure CommentMergeRequest where
  sha : String
  method : Option String
  requesterId : Nat
  requesterLogin : String
  deriving DecidableEq, Repr

structure PullRequest where
  repository : Repository
  number : Nat
  headSha : String
  jobsetId : Option Nat
  autoMergeEnabled : Bool
  mergeMethod : Option String
  commentMergeSha : Option String
  commentMergeMethod : Option String
  commentMergeRequesterId : Option Nat
  commentMergeRequesterLogin : Option String
  commentMergeCommentId : Option Nat
  commentMergeRequestedAt : Option String
  deriving DecidableEq, Repr

namespace PullRequest

/-- GitHub wants all the fields; the others do with the commit and the login. -/
def pendingCommentMerge (request : PullRequest) : Option CommentMergeRequest := do
  let sha ← request.commentMergeSha
  let login ← request.commentMergeRequesterLogin
  match request.repository.forge with
  | .gitHub =>
    let requester ← request.commentMergeRequesterId
    let _ ← request.commentMergeCommentId
    let _ ← request.commentMergeRequestedAt
    return ⟨sha, request.commentMergeMethod, requester, login⟩
  | _ => return ⟨sha, request.commentMergeMethod, request.commentMergeRequesterId.getD 0, login⟩

/-- The fields of the structure that a row of `SELECT *` is read into. -/
def fields : List SqlColumn :=
  [.prNumber, .owner, .repoName, .headSha, .baseSha, .title, .author, .state, .createdAt, .updatedAt, .jobsetId,
    .isMergeQueue, .mergeGroupHeadSha, .autoMergeEnabled, .mergeMethod, .mergedByUserId, .mergedAt, .commentMergeSha,
    .commentMergeMethod, .commentMergeRequesterId, .commentMergeRequesterLogin, .commentMergeCommentId,
    .commentMergeRequestedAt]

end PullRequest

/-- GitLab and Gitea name the columns that they read. -/
def Forge.rowColumns : Forge → List SqlColumn
  | .gitHub => []
  | forge =>
    forge.numberColumn :: forge.keyColumns ++
      [.owner, .repoName, .headSha, .baseSha, .title, .author, .state, .autoMergeEnabled, .mergeMethod, .commentMergeSha,
        .commentMergeMethod, .commentMergeRequesterId,
        if forge = .gitLab then .commentMergeRequesterUsername else .commentMergeRequesterLogin]

structure ForgeJobSet where
  rowid : Nat
  sha : String
  job : String
  repository : Repository
  deriving DecidableEq, Repr

/-- A row of the table `job_difference` that the statements expect. -/
structure AttrDifference where
  jobset : Nat
  attrPath : String
  status : JobDifference

structure ForgeDatabase (DrvId : Type) where
  requests : List PullRequest
  jobsets : List ForgeJobSet
  /-- The tables `Job`, `GitLabJob` and `GiteaJob`. -/
  jobs : Forge → List (Job DrvId)
  buildState : DrvId → DrvBuildState
  differences : List AttrDifference
  isMaintainer : Nat → String → Bool

inductive ServiceError where
  | noInstallation
  | database (error : DbError)
  | unexpectedNull
  | approvals
  deriving DecidableEq, Repr

structure ForgeAnswers where
  hasInstallation : Bool
  /-- `none` if the call fails, as below. -/
  approvals : Option Bool
  methodAllowed : Option Bool

/-- How an evaluation ends, if it does not fail. -/
inductive AutoMergeOutcome where
  | deferred
  | notFound
  | drifted (pending : CommentMergeRequest)
  | inactive
  | noChangedPackages
  | missingApprovals
  | methodRefused
  /-- The merge call is made. -/
  | merge (method : String) (pending : Option CommentMergeRequest)
  deriving DecidableEq, Repr

namespace ForgeDatabase

variable (schema : Schema) (db : ForgeDatabase DrvId) (repository : Repository) (number : Nat)

def prepare (statement : Statement) : Except ServiceError Unit := (schema.prepare statement).mapError .database

def findRequest : Option PullRequest :=
  db.requests.find? fun request => request.repository = repository ∧ request.number = number

/-- A jobset at the head of the pull request; of several, whichever comes first. -/
def headJobset : Option ForgeJobSet :=
  (db.findRequest repository number).bind fun request =>
    db.jobsets.find? fun jobset => jobset.sha = request.headSha ∧ jobset.repository = repository

def allJobsConcluded (jobset : Nat) : Bool :=
  !(db.jobs .gitHub).any fun row => row.jobset = jobset ∧ (db.buildState row.drvId).isTerminal = false

def jobsetHasNewOrChangedFailures (jobset : Nat) : Bool :=
  (db.jobs .gitHub).any fun row =>
    row.jobset = jobset ∧ (row.difference = .new ∨ row.difference = .changed) ∧ (db.buildState row.drvId).isFailure

def prHeadBuildSucceeded : Except ServiceError Bool := do
  prepare schema (repository.forge.headJobset (some repository.forge.jobsetTable, .rowid))
  match db.headJobset repository number with
  | none => return false
  | some jobset =>
    prepare schema .jobsOfJobset
    return db.allJobsConcluded jobset.rowid && !db.jobsetHasNewOrChangedFailures jobset.rowid

def getPullRequestRow : Except ServiceError (Option PullRequest) :=
  match repository.forge with
  | .gitHub => do
    prepare schema (.selectRequest .gitHub)
    match db.findRequest repository number with
    | none => return none
    | some request =>
      match PullRequest.fields.find? (· ∉ schema .gitHubPullRequests) with
      | some column => throw (.database (.columnNotFound column))
      | none => return some request
  | forge => do
    prepare schema ⟨[forge.requestTable], forge.rowColumns.map (none, ·)⟩
    return db.findRequest repository number

def attrPathsOf (jobset : Nat) (shown : JobDifference → Bool) : List String :=
  ((db.differences.filter fun row => row.jobset = jobset ∧ shown row.status).map AttrDifference.attrPath).dedup

/-- GitHub reads the jobset from a column of the joined tables, and of that jobset
what is new or changed. -/
def getPrChangedPackages : Except ServiceError (List String) :=
  match repository.forge with
  | .gitHub => do
    prepare schema (Forge.headJobset .gitHub (none, .jobsetId))
    match db.headJobset repository number with
    | none => return []
    | some _ =>
      match (db.findRequest repository number).bind PullRequest.jobsetId with
      | none => throw .unexpectedNull
      | some jobset =>
        prepare schema (.attrPaths .jobsetId [.status])
        return db.attrPathsOf jobset fun status => status = .changed ∨ status = .new
  | forge => do
    prepare schema (forge.headJobset (some forge.jobsetTable, .rowid))
    match db.headJobset repository number with
    | none => return []
    | some jobset =>
      prepare schema (.attrPaths .jobset [])
      return db.attrPathsOf jobset.rowid fun _ => true

end ForgeDatabase

/-- The drift check, and whether there is anything to merge. -/
def PullRequest.activePath (request : PullRequest) : Except AutoMergeOutcome (Option CommentMergeRequest) :=
  match request.pendingCommentMerge with
  | some pending => if pending.sha ≠ request.headSha then .error (.drifted pending) else .ok (some pending)
  | none => if request.autoMergeEnabled then .ok none else .error .inactive

def Forge.defaultMethod : Forge → String
  | .gitLab => "merge"
  | _ => "squash"

/-- The approvals are not asked for when a comment has requested the merge. -/
def PullRequest.decideMerge (request : PullRequest) (pending : Option CommentMergeRequest) (changed : List String)
    (answers : ForgeAnswers) : Except ServiceError AutoMergeOutcome :=
  let method := ((pending.bind CommentMergeRequest.method).or request.mergeMethod).getD request.repository.forge.defaultMethod
  if changed = [] then .ok .noChangedPackages
  else if pending = none ∧ answers.approvals = none then .error .approvals
  else if pending = none ∧ answers.approvals = some false then .ok .missingApprovals
  else if answers.methodAllowed = some true then .ok (.merge method pending)
  else .ok .methodRefused

open ForgeDatabase in
def handleCheckAutoMerge (schema : Schema) (db : ForgeDatabase DrvId) (repository : Repository) (number : Nat)
    (answers : ForgeAnswers) : Except ServiceError AutoMergeOutcome := do
  if repository.forge = .gitHub ∧ answers.hasInstallation = false then throw .noInstallation
  if !(← db.prHeadBuildSucceeded schema repository number) then return .deferred
  match ← db.getPullRequestRow schema repository number with
  | none => return .notFound
  | some request =>
    match request.activePath with
    | .error outcome => return outcome
    | .ok pending => request.decideMerge pending (← db.getPrChangedPackages schema repository number) answers

theorem bind_eq_ok {E A B : Type} {first : Except E A} {next : A → Except E B} {result : B}
    (done : (first >>= next) = .ok result) : ∃ value, first = .ok value ∧ next value = .ok result := by
  cases first with
  | error error => cases done
  | ok value => exact ⟨value, rfl, done⟩

section Reads

variable {schema : Schema} {db : ForgeDatabase DrvId} {repository : Repository} {number : Nat}

theorem getPullRequestRow_eq {row : Option PullRequest}
    (read : db.getPullRequestRow schema repository number = .ok row) : db.findRequest repository number = row := by
  rw [ForgeDatabase.getPullRequestRow] at read
  split at read
  · obtain ⟨_, -, read⟩ := bind_eq_ok read
    split at read
    next none => exact none.trans (Except.ok.inj read)
    next request found =>
      split at read
      next => cases read
      next => exact found.trans (Except.ok.inj read)
  · obtain ⟨_, -, read⟩ := bind_eq_ok read
    exact Except.ok.inj read

theorem prHeadBuildSucceeded_completed : db.prHeadBuildSucceeded .completed repository number =
    .ok ((db.headJobset repository number).any fun jobset =>
      db.allJobsConcluded jobset.rowid && !db.jobsetHasNewOrChangedFailures jobset.rowid) := by
  have prepared : ForgeDatabase.prepare .completed (repository.forge.headJobset (some repository.forge.jobsetTable, .rowid)) =
      .ok () := by
    cases repository <;> rfl
  rw [ForgeDatabase.prHeadBuildSucceeded, prepared]
  cases db.headJobset repository number <;> rfl

theorem getPullRequestRow_completed :
    db.getPullRequestRow .completed repository number = .ok (db.findRequest repository number) := by
  rw [ForgeDatabase.getPullRequestRow]
  cases repository with
  | gitHub owner repoName => cases db.findRequest (.gitHub owner repoName) number <;> rfl
  | _ => rfl

theorem getPrChangedPackages_gitHub {owner repoName : String} {jobset : ForgeJobSet}
    (first : db.headJobset (.gitHub owner repoName) number = some jobset) :
    db.getPrChangedPackages .completed (.gitHub owner repoName) number =
      match (db.findRequest (.gitHub owner repoName) number).bind PullRequest.jobsetId with
      | none => .error .unexpectedNull
      | some stored => .ok (db.attrPathsOf stored fun status => status = .changed ∨ status = .new) := by
  rw [ForgeDatabase.getPrChangedPackages]
  dsimp only [Repository.forge]
  rw [first]
  cases (db.findRequest (.gitHub owner repoName) number).bind PullRequest.jobsetId <;> rfl

theorem getPrChangedPackages_other (other : repository.forge ≠ .gitHub) {jobset : ForgeJobSet}
    (first : db.headJobset repository number = some jobset) :
    db.getPrChangedPackages .completed repository number = .ok (db.attrPathsOf jobset.rowid fun _ => true) := by
  rw [ForgeDatabase.getPrChangedPackages, first]
  cases repository with
  | gitHub owner repoName => exact absurd rfl other
  | _ => rfl

theorem mem_attrPathsOf {jobset : Nat} {shown : JobDifference → Bool} {attrPath : String} :
    attrPath ∈ db.attrPathsOf jobset shown ↔
      ∃ row ∈ db.differences, row.attrPath = attrPath ∧ row.jobset = jobset ∧ shown row.status = true := by
  rw [ForgeDatabase.attrPathsOf, List.mem_dedup, List.mem_map]
  refine exists_congr fun row => ?_
  rw [List.mem_filter, decide_eq_true_iff]
  tauto

end Reads

section Gate

variable (db : ForgeDatabase DrvId) (repository : Repository) (number : Nat) (answers : ForgeAnswers)

/-- The rows of a jobset in a table of jobs are built; none of what is new or changed has failed. -/
def RowsBuilt (forge : Forge) (jobset : Nat) : Prop :=
  ∀ row ∈ db.jobs forge, row.jobset = jobset →
    (db.buildState row.drvId).isTerminal = true ∧
      (row.difference = .new ∨ row.difference = .changed → (db.buildState row.drvId).isFailure = false)

/-- The row is one of the changed packages of the pull request. -/
def AttrDifference.IsOf (request : PullRequest) (first : ForgeJobSet) (row : AttrDifference) : Prop :=
  match repository.forge with
  | .gitHub => request.jobsetId = some row.jobset ∧ (row.status = .changed ∨ row.status = .new)
  | _ => row.jobset = first.rowid

/-- Of the jobsets at the head, one is looked at, and of it the rows in GitHub's table. -/
structure GatePassed (request : PullRequest) (first : ForgeJobSet) (pending : Option CommentMergeRequest) : Prop where
  installed : repository.forge = .gitHub → answers.hasInstallation = true
  found : db.findRequest repository number = some request
  atHead : db.headJobset repository number = some first
  built : RowsBuilt db .gitHub first.rowid
  active : request.activePath = .ok pending
  changed : ∃ row ∈ db.differences, row.IsOf repository request first
  approved : pending = none → answers.approvals = some true
  allowed : answers.methodAllowed = some true

end Gate

section Merging

variable {schema : Schema} {db : ForgeDatabase DrvId} {repository : Repository} {number : Nat} {answers : ForgeAnswers}
  {method : String} {pending : Option CommentMergeRequest}

theorem rowsBuilt_iff {jobset : Nat} :
    (db.allJobsConcluded jobset && !db.jobsetHasNewOrChangedFailures jobset) = true ↔ RowsBuilt db .gitHub jobset := by
  rw [Bool.and_eq_true, ForgeDatabase.allJobsConcluded, ForgeDatabase.jobsetHasNewOrChangedFailures, Bool.not_eq_true',
    Bool.not_eq_true', List.any_eq_false, List.any_eq_false, RowsBuilt, ← forall₂_and]
  refine forall₂_congr fun row member => ?_
  simp only [decide_eq_true_eq, not_and, Bool.not_eq_false, Bool.not_eq_true]
  tauto

theorem decideMerge_eq_merge_iff {request : PullRequest} {path : Option CommentMergeRequest} {changed : List String} :
    request.decideMerge path changed answers = .ok (.merge method pending) ↔
      changed ≠ [] ∧ (path = none → answers.approvals = some true) ∧ answers.methodAllowed = some true ∧ path = pending ∧
        ((path.bind CommentMergeRequest.method).or request.mergeMethod).getD request.repository.forge.defaultMethod = method := by
  dsimp only [PullRequest.decideMerge]
  by_cases none : changed = []
  · rw [if_pos none]
    exact iff_of_false nofun fun other => other.1 none
  · rw [if_neg none, and_iff_right none]
    split_ifs with unanswered refused allowed
    · refine iff_of_false nofun fun other => ?_
      rw [other.1 unanswered.1] at unanswered
      exact absurd unanswered.2 nofun
    · refine iff_of_false nofun fun other => ?_
      rw [other.1 refused.1] at refused
      exact absurd refused.2 (by decide)
    · have approved : path = Option.none → answers.approvals = some true := by
        intro same
        cases answer : answers.approvals with
        | none => exact absurd ⟨same, answer⟩ unanswered
        | some value =>
          cases value with
          | false => exact absurd ⟨same, answer⟩ refused
          | true => rfl
      rw [and_iff_right approved, and_iff_right allowed, Except.ok.injEq, AutoMergeOutcome.merge.injEq, and_comm]
    · exact iff_of_false nofun fun other => allowed other.2.1

theorem activePath_ne_merge {request : PullRequest} {outcome : AutoMergeOutcome}
    (early : request.activePath = .error outcome) : outcome ≠ .merge method pending := by
  rintro rfl
  rw [PullRequest.activePath] at early
  split at early
  · split at early
    · cases early
    · cases early
  · split at early
    · cases early
    · cases early

theorem changed_iff {request : PullRequest} {first : ForgeJobSet} (found : db.findRequest repository number = some request)
    (atHead : db.headJobset repository number = some first) :
    (∃ changed, db.getPrChangedPackages .completed repository number = .ok changed ∧ changed ≠ []) ↔
      ∃ row ∈ db.differences, row.IsOf repository request first := by
  have listed (jobset : Nat) (shown : JobDifference → Bool) : db.attrPathsOf jobset shown ≠ [] ↔
      ∃ row ∈ db.differences, row.jobset = jobset ∧ shown row.status = true := by
    constructor
    · intro some_
      obtain ⟨attrPath, member⟩ := List.exists_mem_of_ne_nil _ some_
      obtain ⟨row, stored, -, shown⟩ := mem_attrPathsOf.mp member
      exact ⟨row, stored, shown⟩
    · rintro ⟨row, stored, shown⟩
      exact List.ne_nil_of_mem (mem_attrPathsOf.mpr ⟨row, stored, rfl, shown⟩)
  by_cases own : repository.forge = .gitHub
  · obtain ⟨owner, repoName, rfl⟩ : ∃ owner repoName, repository = .gitHub owner repoName := by
      cases repository with
      | gitHub owner repoName => exact ⟨owner, repoName, rfl⟩
      | _ => cases own
    rw [getPrChangedPackages_gitHub atHead, found, Option.bind_some]
    cases stored : request.jobsetId with
    | none =>
      refine iff_of_false (fun some_ => ?_) fun some_ => ?_
      · obtain ⟨changed, read, -⟩ := some_
        cases read
      · obtain ⟨row, -, of, -⟩ := some_
        rw [stored] at of
        cases of
    | some jobset =>
      have read : (∃ changed, (Except.ok (db.attrPathsOf jobset fun status => status = .changed ∨ status = .new) :
          Except ServiceError (List String)) = .ok changed ∧ changed ≠ []) ↔
          db.attrPathsOf jobset (fun status => status = .changed ∨ status = .new) ≠ [] :=
        ⟨fun ⟨_, same, some_⟩ => Except.ok.inj same ▸ some_, fun some_ => ⟨_, rfl, some_⟩⟩
      rw [read, listed]
      refine exists_congr fun row => and_congr_right fun _ => ?_
      rw [AttrDifference.IsOf, stored, Option.some.injEq, decide_eq_true_eq]
      exact and_congr_left fun _ => eq_comm
  · rw [getPrChangedPackages_other own atHead]
    have read : (∃ changed, (Except.ok (db.attrPathsOf first.rowid fun _ => true) :
        Except ServiceError (List String)) = .ok changed ∧ changed ≠ []) ↔ db.attrPathsOf first.rowid (fun _ => true) ≠ [] :=
      ⟨fun ⟨_, same, some_⟩ => Except.ok.inj same ▸ some_, fun some_ => ⟨_, rfl, some_⟩⟩
    rw [read, listed]
    refine exists_congr fun row => and_congr_right fun _ => ?_
    cases repository with
    | gitHub owner repoName => exact absurd rfl own
    | _ => exact and_iff_left rfl

theorem handleCheckAutoMerge_eq_merge_iff :
    handleCheckAutoMerge .completed db repository number answers = .ok (.merge method pending) ↔
      ∃ request first, GatePassed db repository number answers request first pending ∧
        ((pending.bind CommentMergeRequest.method).or request.mergeMethod).getD request.repository.forge.defaultMethod =
          method := by
  rw [handleCheckAutoMerge, prHeadBuildSucceeded_completed, getPullRequestRow_completed]
  constructor
  · intro merged
    split at merged
    · cases merged
    · rename_i installed
      obtain ⟨succeeded, gate, merged⟩ := bind_eq_ok merged
      cases gate
      cases succeeded : (db.headJobset repository number).any fun jobset =>
          db.allJobsConcluded jobset.rowid && !db.jobsetHasNewOrChangedFailures jobset.rowid with
      | false =>
        rw [succeeded] at merged
        cases merged
      | true =>
        obtain ⟨first, atHead, built⟩ := (Option.any_eq_true _ _).mp succeeded
        rw [succeeded] at merged
        obtain ⟨row, read, merged⟩ := bind_eq_ok merged
        cases read
        cases found : db.findRequest repository number with
        | none =>
          rw [found] at merged
          cases merged
        | some request =>
          rw [found] at merged
          dsimp only at merged
          split at merged
          · rename_i outcome early
            exact absurd (Except.ok.inj merged) (activePath_ne_merge early)
          · rename_i path active
            obtain ⟨changed, read, merged⟩ := bind_eq_ok merged
            obtain ⟨some_, approved, allowed, rfl, named⟩ := decideMerge_eq_merge_iff.mp merged
            refine ⟨request, first, ⟨fun own => ?_, found, atHead, rowsBuilt_iff.mp built, active,
              (changed_iff found atHead).mp ⟨changed, read, some_⟩, approved, allowed⟩, named⟩
            exact Bool.not_eq_false _ ▸ fun missing => installed ⟨own, missing⟩
  · rintro ⟨request, first, passed, named⟩
    obtain ⟨changed, read, some_⟩ := (changed_iff passed.found passed.atHead).mpr passed.changed
    have decided := decideMerge_eq_merge_iff.mpr ⟨some_, passed.approved, passed.allowed, rfl, named⟩
    have installed : ¬(repository.forge = .gitHub ∧ answers.hasInstallation = false) := by
      rintro ⟨own, missing⟩
      rw [passed.installed own] at missing
      cases missing
    have gate : (db.headJobset repository number).any (fun jobset =>
        db.allJobsConcluded jobset.rowid && !db.jobsetHasNewOrChangedFailures jobset.rowid) = true := by
      rw [passed.atHead, Option.any_some, rowsBuilt_iff]
      exact passed.built
    rw [if_neg installed, gate, passed.found]
    dsimp only
    rw [read]
    dsimp only [bind, Except.bind]
    rw [passed.active]
    exact decided

end Merging

section Built

variable (db : ForgeDatabase DrvId) (config : List String) (expected : String → List (String × DrvId))

/-- The rows of a jobset are all there, in the table of its own forge. -/
def RowsRecorded (jobset : ForgeJobSet) : Prop :=
  ∀ pair ∈ expected jobset.job, ∃ row ∈ db.jobs jobset.repository.forge,
    row.jobset = jobset.rowid ∧ (row.name, row.drvId) = pair

def JobsetBuilt (jobset : ForgeJobSet) : Prop :=
  RowsRecorded db expected jobset ∧ RowsBuilt db jobset.repository.forge jobset.rowid

/-- Every job of the configuration has its jobset at the commit. -/
def JobsetsThere (repository : Repository) (sha : String) : Prop :=
  ∀ job ∈ config, ∃ jobset ∈ db.jobsets, jobset.repository = repository ∧ jobset.sha = sha ∧ jobset.job = job

/-- The jobsets at the commit are all there, and every one is built. -/
def HeadBuilt (repository : Repository) (sha : String) : Prop :=
  JobsetsThere db config repository sha ∧
    ∀ jobset ∈ db.jobsets, jobset.repository = repository → jobset.sha = sha → JobsetBuilt db expected jobset

/-- The merge call is made on a built head only. -/
def MergesBuiltHead (schema : Schema) (repository : Repository) (number : Nat) (answers : ForgeAnswers) : Prop :=
  ∀ method pending, handleCheckAutoMerge schema db repository number answers = .ok (.merge method pending) →
    ∃ request, db.findRequest repository number = some request ∧ HeadBuilt db config expected repository request.headSha

/-- What the gate does not see of the head: the jobsets that are missing, those beside the first,
rows of the first that are missing, and its rows in a table of another forge than GitHub. -/
structure Unseen (repository : Repository) (sha : String) (first : ForgeJobSet) : Prop where
  there : JobsetsThere db config repository sha
  recorded : RowsRecorded db expected first
  own : repository.forge ≠ .gitHub → RowsBuilt db repository.forge first.rowid
  others : ∀ jobset ∈ db.jobsets, jobset.repository = repository → jobset.sha = sha → jobset ≠ first →
    JobsetBuilt db expected jobset

variable {db config expected} {repository : Repository} {number : Nat} {answers : ForgeAnswers}

theorem headBuilt_iff {request : PullRequest} {first : ForgeJobSet} {pending : Option CommentMergeRequest}
    (passed : GatePassed db repository number answers request first pending) :
    HeadBuilt db config expected repository request.headSha ↔ Unseen db config expected repository request.headSha first := by
  have atHead := passed.atHead
  rw [ForgeDatabase.headJobset, passed.found, Option.bind_some] at atHead
  have stored := List.mem_of_find?_eq_some atHead
  obtain ⟨sha, of⟩ : first.sha = request.headSha ∧ first.repository = repository := by simpa using List.find?_some atHead
  constructor
  · rintro ⟨there, built⟩
    obtain ⟨recorded, rows⟩ := built first stored of sha
    rw [of] at rows
    exact ⟨there, recorded, fun _ => rows, fun jobset member own commit _ => built jobset member own commit⟩
  · intro unseen
    refine ⟨unseen.there, fun jobset member own commit => ?_⟩
    by_cases same : jobset = first
    · subst same
      refine ⟨unseen.recorded, ?_⟩
      rw [own]
      by_cases gitHub : repository.forge = .gitHub
      · rw [gitHub]
        exact passed.built
      · exact unseen.own gitHub
    · exact unseen.others jobset member own commit same

/-- The merge call is made on built heads only, exactly if a head that passes the gate is built
where the gate does not look. -/
theorem mergesBuiltHead_iff (db : ForgeDatabase DrvId) (config : List String) (expected : String → List (String × DrvId))
    (repository : Repository) (number : Nat) (answers : ForgeAnswers) :
    MergesBuiltHead db config expected .completed repository number answers ↔
      ∀ request first pending, GatePassed db repository number answers request first pending →
        Unseen db config expected repository request.headSha first := by
  constructor
  · intro merges request first pending passed
    obtain ⟨other, found, built⟩ := merges _ pending (handleCheckAutoMerge_eq_merge_iff.mpr ⟨request, first, passed, rfl⟩)
    obtain rfl := Option.some.inj (found.symm.trans passed.found)
    exact (headBuilt_iff passed).mp built
  · intro unseen method pending merged
    obtain ⟨request, first, passed, -⟩ := handleCheckAutoMerge_eq_merge_iff.mp merged
    exact ⟨request, passed.found, (headBuilt_iff passed).mpr (unseen request first pending passed)⟩

end Built

/-- A pull request with a finished jobset and one that is still building. -/
def halfBuilt : ForgeDatabase Nat where
  requests := [⟨.gitHub "ekala" "corepkgs", 7, "c0ffee", some 1, false, none, some "c0ffee", none, some 5, some "ada",
    some 70, some "2026-05-01"⟩]
  jobsets := [⟨1, "c0ffee", "stable", .gitHub "ekala" "corepkgs"⟩, ⟨2, "c0ffee", "full", .gitHub "ekala" "corepkgs"⟩]
  jobs
    | .gitHub => [⟨1, 10, "hello", .changed⟩, ⟨2, 20, "curl", .changed⟩]
    | _ => []
  buildState drvId := if drvId = 10 then .completed .success else .building
  differences := [⟨1, "hello", .changed⟩]
  isMaintainer _ _ := true

theorem halfBuilt_merges : handleCheckAutoMerge .completed halfBuilt (.gitHub "ekala" "corepkgs") 7 ⟨true, none, some true⟩ =
    .ok (.merge "squash" (some ⟨"c0ffee", none, 5, "ada"⟩)) := by
  decide

theorem halfBuilt_not_mergesBuiltHead : ¬ MergesBuiltHead halfBuilt ["stable", "full"]
    (fun job => if job = "stable" then [("hello", 10)] else [("curl", 20)]) .completed (.gitHub "ekala" "corepkgs") 7
      ⟨true, none, some true⟩ := by
  intro merges
  obtain ⟨request, found, -, built⟩ := merges _ _ halfBuilt_merges
  cases found
  obtain ⟨-, rows⟩ := built ⟨2, "c0ffee", "full", .gitHub "ekala" "corepkgs"⟩ (by decide) rfl rfl
  obtain ⟨terminal, -⟩ := rows ⟨2, 20, "curl", .changed⟩ (by decide) rfl
  cases terminal

end EkaCI
