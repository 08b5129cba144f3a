import EkaCI.Jobs.Differences

/-! The check runs that are cancelled with a commit. The table of check runs does not
know the commit that one was created for: the query goes from the jobsets of the commit
to their drvs, and from these to whatever check runs there are. -/

namespace EkaCI

variable {DrvId : Type}

/-- The number of a state in the database. -/
def DrvBuildState.repr : DrvBuildState → Int
  | .queued => 0
  | .buildable => 1
  | .failedRetry => 2
  | .building => 7
  | .completed .success => 42
  | .completed .failure => -1
  | .transitiveFailure => -2
  | .interrupted .outOfMemory => -104
  | .interrupted .timeout => -120
  | .interrupted .cancelled => -86
  | .interrupted .processDeath => -66
  | .interrupted .schedulerDeath => -13
  | .blocked => 100
  | .unsatisfiableRequirements => -3

/-- A row of `GitHubCheckRuns`, with the repository that its check run is updated in. -/
structure JobCheckRun (DrvId : Type) where
  checkRunId : Nat
  drvId : DrvId
  repoName : String
  repoOwner : String
  nodeId : Option String
  deriving DecidableEq

structure CheckedCommit where
  owner : String
  repoName : String
  sha : String
  deriving DecidableEq, Repr

def CICheckInfo.checked (info : CICheckInfo) : CheckedCommit := ⟨info.owner, info.repoName, info.commit⟩

structure CheckRunTables (DrvId : Type) where
  jobs : JobDatabase DrvId
  checkRuns : List (JobCheckRun DrvId)
  /-- The commit for whose jobs a check run was created; no table has it. -/
  createdFor : Nat → CheckedCommit

structure CheckRunUpdate where
  checkRunId : Nat
  repoOwner : String
  repoName : String
  status : DrvBuildState

/-- Whether the app is installed for the owner, and the query answered. -/
structure CancelAnswers where
  installed : Bool
  queried : Bool

namespace CheckRunTables

variable [DecidableEq DrvId] (tables : CheckRunTables DrvId) (info : CICheckInfo) (answers : CancelAnswers)

/-- The row is one of those that the query is after, and its drv is one of a job of a
jobset with this commit. -/
def reaches (sha : String) (row : JobCheckRun DrvId) : Bool :=
  (tables.jobs.buildState row.drvId).repr ∈ ([0, 1, 7] : List Int) ∧
    tables.jobs.jobs.any fun job => job.drvId = row.drvId ∧
      tables.jobs.jobsets.any fun jobset => job.jobset = jobset.rowid ∧ jobset.sha = sha

def checkRunsForCommit (sha : String) : List (JobCheckRun DrvId) := (tables.checkRuns.filter (tables.reaches sha)).dedup

/-- The updates of the check runs of jobs. One that fails does not keep the others back. -/
def handleCancelCheckRunsForCommit : List CheckRunUpdate :=
  if answers.installed && answers.queried then
    (tables.checkRunsForCommit info.commit).map fun row =>
      ⟨row.checkRunId, row.repoOwner, row.repoName, .interrupted .cancelled⟩
  else []

/-- The drv has not come to an end. -/
def Pending (row : JobCheckRun DrvId) : Prop := (tables.jobs.buildState row.drvId).isLive = true

/-- A check run of the commit with a drv that has not come to an end. -/
def Due (checkRunId : Nat) : Prop :=
  tables.createdFor checkRunId = info.checked ∧ ∃ row ∈ tables.checkRuns, row.checkRunId = checkRunId ∧ tables.Pending row

/-- What is due is cancelled, once each and where it is, and nothing else. -/
structure CancelsExactly : Prop where
  due : ∀ checkRunId, checkRunId ∈ (tables.handleCancelCheckRunsForCommit info answers).map CheckRunUpdate.checkRunId ↔
    tables.Due info checkRunId
  once : ((tables.handleCancelCheckRunsForCommit info answers).map CheckRunUpdate.checkRunId).Nodup
  addressed : ∀ update ∈ tables.handleCancelCheckRunsForCommit info answers, update.status = .interrupted .cancelled ∧
    update.repoOwner = (tables.createdFor update.checkRunId).owner ∧
      update.repoName = (tables.createdFor update.checkRunId).repoName

/-- The drv waits or is being built, for the first time. -/
def FirstAttempt (row : JobCheckRun DrvId) : Prop :=
  tables.jobs.buildState row.drvId = .queued ∨ tables.jobs.buildState row.drvId = .buildable ∨
    tables.jobs.buildState row.drvId = .building

/-- A job with this commit, in whatever repository, has the drv. -/
def HasJob (sha : String) (row : JobCheckRun DrvId) : Prop :=
  ∃ job ∈ tables.jobs.jobs, job.drvId = row.drvId ∧
    ∃ jobset ∈ tables.jobs.jobsets, jobset.rowid = job.jobset ∧ jobset.sha = sha

/-- The rows of check runs tell the commit apart from the others. -/
structure Separated : Prop where
  /-- What the jobs of the commit share with others has check runs of this commit only. -/
  unshared : ∀ row ∈ tables.checkRuns, tables.FirstAttempt row → tables.HasJob info.commit row →
    tables.createdFor row.checkRunId = info.checked ∧ row.repoOwner = info.owner ∧ row.repoName = info.repoName
  /-- A check run that stands for several drvs waits for one of them at most. -/
  single : ∀ row ∈ tables.checkRuns, ∀ other ∈ tables.checkRuns, tables.createdFor row.checkRunId = info.checked →
    row.checkRunId = other.checkRunId → tables.FirstAttempt row → tables.FirstAttempt other →
      tables.HasJob info.commit row → tables.HasJob info.commit other → row = other
  /-- One that waits for a second attempt, or for a drv of another commit, waits for a first one too. -/
  covered : ∀ row ∈ tables.checkRuns, tables.createdFor row.checkRunId = info.checked →
    tables.jobs.buildState row.drvId = .failedRetry ∨ tables.FirstAttempt row ∧ ¬tables.HasJob info.commit row →
      ∃ other ∈ tables.checkRuns, other.checkRunId = row.checkRunId ∧ tables.FirstAttempt other ∧
        tables.HasJob info.commit other

/-- If the service can ask, the rows have to tell the commit apart; if not, there must be nothing to do. -/
def CanCancel : Prop :=
  if answers.installed && answers.queried then tables.Separated info
  else ∀ row ∈ tables.checkRuns, tables.createdFor row.checkRunId = info.checked → ¬ tables.Pending row

section Selection

variable {tables info answers}

theorem mem_checkRunsForCommit {sha : String} {row : JobCheckRun DrvId} :
    row ∈ tables.checkRunsForCommit sha ↔ row ∈ tables.checkRuns ∧ tables.reaches sha row = true := by
  rw [checkRunsForCommit, List.mem_dedup, List.mem_filter]

theorem reaches_iff {sha : String} {row : JobCheckRun DrvId} :
    tables.reaches sha row = true ↔ tables.FirstAttempt row ∧ tables.HasJob sha row := by
  have states : (tables.jobs.buildState row.drvId).repr ∈ ([0, 1, 7] : List Int) ↔ tables.FirstAttempt row := by
    rw [FirstAttempt]
    generalize tables.jobs.buildState row.drvId = state
    cases state with
    | completed result => cases result <;> decide
    | interrupted kind => cases kind <;> decide
    | _ => decide
  rw [reaches, decide_eq_true_eq, states, List.any_eq_true]
  refine and_congr_right fun _ => exists_congr fun job => and_congr_right fun _ => ?_
  rw [decide_eq_true_eq, List.any_eq_true]
  refine and_congr_right fun _ => exists_congr fun jobset => and_congr_right fun _ => ?_
  rw [decide_eq_true_eq]
  exact and_congr_left fun _ => eq_comm

omit [DecidableEq DrvId] in
theorem pending_iff {row : JobCheckRun DrvId} :
    tables.Pending row ↔ tables.FirstAttempt row ∨ tables.jobs.buildState row.drvId = .failedRetry := by
  rw [Pending, FirstAttempt]
  generalize tables.jobs.buildState row.drvId = state
  cases state with
  | completed result => cases result <;> decide
  | interrupted kind => cases kind <;> decide
  | _ => decide

theorem cancelsExactly_of_silent (silent : (answers.installed && answers.queried) = false) :
    tables.CancelsExactly info answers ↔
      ∀ row ∈ tables.checkRuns, tables.createdFor row.checkRunId = info.checked → ¬ tables.Pending row := by
  have nothing : tables.handleCancelCheckRunsForCommit info answers = [] := by
    rw [handleCancelCheckRunsForCommit, silent, if_neg Bool.false_ne_true]
  constructor
  · rintro ⟨due, -, -⟩ row member created pending
    have sent := (due row.checkRunId).mpr ⟨created, row, member, rfl, pending⟩
    rw [nothing] at sent
    cases sent
  · intro idle
    refine ⟨fun checkRunId => ?_, ?_, ?_⟩
    · rw [nothing]
      apply iff_of_false List.not_mem_nil
      rintro ⟨created, row, member, rfl, pending⟩
      exact idle row member created pending
    · rw [nothing]
      exact List.nodup_nil
    · rw [nothing]
      exact List.forall_mem_nil _

theorem mem_sent (asked : (answers.installed && answers.queried) = true) {update : CheckRunUpdate} :
    update ∈ tables.handleCancelCheckRunsForCommit info answers ↔
      ∃ row ∈ tables.checkRuns, tables.reaches info.commit row = true ∧
        update = ⟨row.checkRunId, row.repoOwner, row.repoName, .interrupted .cancelled⟩ := by
  rw [handleCancelCheckRunsForCommit, if_pos asked, List.mem_map]
  constructor
  · rintro ⟨row, selected, rfl⟩
    obtain ⟨member, reached⟩ := mem_checkRunsForCommit.mp selected
    exact ⟨row, member, reached, rfl⟩
  · rintro ⟨row, member, reached, rfl⟩
    exact ⟨row, mem_checkRunsForCommit.mpr ⟨member, reached⟩, rfl⟩

theorem mem_sentIds (asked : (answers.installed && answers.queried) = true) {checkRunId : Nat} :
    checkRunId ∈ (tables.handleCancelCheckRunsForCommit info answers).map CheckRunUpdate.checkRunId ↔
      ∃ row ∈ tables.checkRuns, tables.reaches info.commit row = true ∧ row.checkRunId = checkRunId := by
  rw [List.mem_map]
  constructor
  · rintro ⟨update, sent, rfl⟩
    obtain ⟨row, member, reached, rfl⟩ := (mem_sent asked).mp sent
    exact ⟨row, member, reached, rfl⟩
  · rintro ⟨row, member, reached, rfl⟩
    exact ⟨_, (mem_sent asked).mpr ⟨row, member, reached, rfl⟩, rfl⟩

theorem nodup_sentIds (asked : (answers.installed && answers.queried) = true) :
    ((tables.handleCancelCheckRunsForCommit info answers).map CheckRunUpdate.checkRunId).Nodup ↔
      ∀ row ∈ tables.checkRuns, ∀ other ∈ tables.checkRuns, tables.reaches info.commit row = true →
        tables.reaches info.commit other = true → row.checkRunId = other.checkRunId → row = other := by
  rw [handleCancelCheckRunsForCommit, if_pos asked, List.map_map]
  constructor
  · intro once row member other otherMember reached otherReached same
    exact List.inj_on_of_nodup_map once (mem_checkRunsForCommit.mpr ⟨member, reached⟩)
      (mem_checkRunsForCommit.mpr ⟨otherMember, otherReached⟩) same
  · intro single
    refine List.Nodup.map_on ?_ (List.nodup_dedup _)
    intro row selected other otherSelected same
    obtain ⟨member, reached⟩ := mem_checkRunsForCommit.mp selected
    obtain ⟨otherMember, otherReached⟩ := mem_checkRunsForCommit.mp otherSelected
    exact single row member other otherMember reached otherReached same

end Selection

/-- Exactly the check runs of the commit are cancelled exactly if the rows tell them apart. -/
theorem cancelsExactly_iff (tables : CheckRunTables DrvId) (info : CICheckInfo) (answers : CancelAnswers) :
    tables.CancelsExactly info answers ↔ tables.CanCancel info answers := by
  rw [CanCancel]
  split
  · rename_i asked
    constructor
    · rintro ⟨due, once, addressed⟩
      have alone := (nodup_sentIds asked).mp once
      refine ⟨fun row member first job => ?_, fun row member other otherMember _ same first otherFirst job otherJob => ?_,
        fun row member created waits => ?_⟩
      · have reached := reaches_iff.mpr ⟨first, job⟩
        have created := ((due row.checkRunId).mp ((mem_sentIds asked).mpr ⟨row, member, reached, rfl⟩)).1
        obtain ⟨-, owner, repo⟩ := addressed _ ((mem_sent asked).mpr ⟨row, member, reached, rfl⟩)
        dsimp only at owner repo
        rw [created] at owner repo
        exact ⟨created, owner, repo⟩
      · exact alone row member other otherMember (reaches_iff.mpr ⟨first, job⟩) (reaches_iff.mpr ⟨otherFirst, otherJob⟩) same
      · have pending : tables.Pending row := pending_iff.mpr (waits.elim Or.inr fun first => Or.inl first.1)
        obtain ⟨other, otherMember, reached, same⟩ :=
          (mem_sentIds asked).mp ((due row.checkRunId).mpr ⟨created, row, member, rfl, pending⟩)
        exact ⟨other, otherMember, same, reaches_iff.mp reached⟩
    · rintro ⟨unshared, single, covered⟩
      refine ⟨fun checkRunId => ?_, (nodup_sentIds asked).mpr ?_, fun update sent => ?_⟩
      · rw [mem_sentIds asked]
        constructor
        · rintro ⟨row, member, reached, rfl⟩
          obtain ⟨first, job⟩ := reaches_iff.mp reached
          exact ⟨(unshared row member first job).1, row, member, rfl, pending_iff.mpr (Or.inl first)⟩
        · rintro ⟨created, row, member, rfl, pending⟩
          by_cases own : tables.FirstAttempt row ∧ tables.HasJob info.commit row
          · exact ⟨row, member, reaches_iff.mpr own, rfl⟩
          · have waits : tables.jobs.buildState row.drvId = .failedRetry ∨
                tables.FirstAttempt row ∧ ¬tables.HasJob info.commit row := by
              rcases pending_iff.mp pending with first | second
              · exact Or.inr ⟨first, fun job => own ⟨first, job⟩⟩
              · exact Or.inl second
            obtain ⟨other, otherMember, same, selected⟩ := covered row member created waits
            exact ⟨other, otherMember, reaches_iff.mpr selected, same⟩
      · intro row member other otherMember reached otherReached same
        obtain ⟨first, job⟩ := reaches_iff.mp reached
        obtain ⟨otherFirst, otherJob⟩ := reaches_iff.mp otherReached
        exact single row member other otherMember (unshared row member first job).1 same first otherFirst job otherJob
      · obtain ⟨row, member, reached, rfl⟩ := (mem_sent asked).mp sent
        obtain ⟨first, job⟩ := reaches_iff.mp reached
        obtain ⟨created, owner, repo⟩ := unshared row member first job
        dsimp only
        rw [created]
        exact ⟨rfl, owner, repo⟩
  · rename_i silent
    exact cancelsExactly_of_silent (Bool.eq_false_of_not_eq_true silent)

/-! Two pull requests of a repository, which have an unchanged package in common. -/

def unchangedPackage : CheckRunTables Nat where
  jobs :=
    { jobsets := [⟨1, "c0ffee", "stable", "ekala", "corepkgs"⟩, ⟨2, "beef", "stable", "ekala", "corepkgs"⟩]
      jobs := [⟨1, 10, "hello", .new⟩, ⟨2, 10, "hello", .new⟩]
      buildState := fun _ => .queued }
  checkRuns := [⟨71, 10, "corepkgs", "ekala", some "CR_71"⟩, ⟨72, 10, "corepkgs", "ekala", some "CR_72"⟩]
  createdFor checkRunId := ⟨"ekala", "corepkgs", if checkRunId = 71 then "c0ffee" else "beef"⟩

/-- When the first is closed, the check run of the second is cancelled as well. -/
theorem unchangedPackage_not_cancelsExactly :
    ¬ unchangedPackage.CancelsExactly ⟨"c0ffee", none, "ekala", "corepkgs"⟩ ⟨true, true⟩ := by
  rintro ⟨due, -, -⟩
  have sent : 72 ∈ (unchangedPackage.handleCancelCheckRunsForCommit ⟨"c0ffee", none, "ekala", "corepkgs"⟩
      ⟨true, true⟩).map CheckRunUpdate.checkRunId := by decide
  have foreign : unchangedPackage.createdFor 72 ≠ CICheckInfo.checked ⟨"c0ffee", none, "ekala", "corepkgs"⟩ := by decide
  exact foreign ((due 72).mp sent).1

end CheckRunTables

end EkaCI
