import EkaCI.Build.State

/-! The tables of the jobs of a commit. A commit has one jobset for each job of
its configuration, and a jobset has one row for each attribute that it builds. -/

namespace EkaCI

/-- How an attribute compares with the base commit. -/
inductive JobDifference where
  | new
  | changed
  | removed
  deriving DecidableEq, Repr

/-- A row of `GitHubJobSets`. -/
structure JobSet where
  rowid : Nat
  sha : String
  job : String
  owner : String
  repoName : String
  deriving DecidableEq

/-- A row of `Job`. -/
structure Job (DrvId : Type) where
  jobset : Nat
  drvId : DrvId
  name : String
  difference : JobDifference
  deriving DecidableEq

structure JobDatabase (DrvId : Type) where
  jobsets : List JobSet
  jobs : List (Job DrvId)
  /-- The state column of `Drv`; a job's drv is a foreign key. -/
  buildState : DrvId → DrvBuildState

variable {DrvId : Type}

/-- A jobset of a commit. -/
def JobSet.isOf (jobset : JobSet) (owner repo sha : String) : Prop :=
  jobset.owner = owner ∧ jobset.repoName = repo ∧ jobset.sha = sha

instance (jobset : JobSet) (owner repo sha : String) : Decidable (jobset.isOf owner repo sha) :=
  inferInstanceAs (Decidable (_ ∧ _))

namespace JobDatabase

def empty (buildState : DrvId → DrvBuildState) : JobDatabase DrvId where
  jobsets := []
  jobs := []
  buildState := buildState

/-- `Job` joined with the jobsets of a commit. -/
def jobsOf (db : JobDatabase DrvId) (owner repo sha : String) : List (Job DrvId) :=
  db.jobs.flatMap fun job =>
    (db.jobsets.filter fun jobset => jobset.rowid = job.jobset ∧ jobset.isOf owner repo sha).map fun _ => job

end JobDatabase

end EkaCI
