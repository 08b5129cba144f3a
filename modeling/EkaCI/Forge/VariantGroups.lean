import EkaCI.Forge.Display
import EkaCI.Lib.Groups
import Mathlib.Data.String.Basic

/-! The groups of jobs that share one check run. They are formed twice: from the names of
all new and changed jobs when a jobset is created, and by patterns of the database when a
job fails that has no check run yet. -/

namespace EkaCI

open Lib

variable {DrvId : Type}

def JobDifference.severity : JobDifference → Nat
  | .removed => 0
  | .new => 1
  | .changed => 2

def worstDifference (first second : JobDifference) : JobDifference :=
  if second.severity ≤ first.severity then first else second

/-- Jobs with the same part before the first dot of their names. -/
structure VariantGroup (DrvId : Type) where
  groupName : String
  variants : List (NewOrChangedJob DrvId)
  worstDifference : JobDifference
  worstBuildState : DrvBuildState

def VariantGroup.of (groupName : String) (variants : List (NewOrChangedJob DrvId)) : VariantGroup DrvId where
  groupName := groupName
  variants := variants
  worstDifference := (variants.map NewOrChangedJob.difference).foldl EkaCI.worstDifference .removed
  worstBuildState := aggregateBuildState (variants.map NewOrChangedJob.buildState)

namespace NewOrChangedJob

def groupPrefix (job : NewOrChangedJob DrvId) : Option String := GitHubHandler.groupPrefix job.name

end NewOrChangedJob

/-- The groups in the order of their names, and the jobs without a dot. -/
def groupJobsByPrefix (jobs : List (NewOrChangedJob DrvId)) : List (VariantGroup DrvId) × List (NewOrChangedJob DrvId) :=
  ((gatherGroups NewOrChangedJob.groupPrefix jobs).map fun group => .of group.1 group.2,
    jobs.filter fun job => job.groupPrefix.isNone)

def variantsNamed (groups : List (VariantGroup DrvId)) (group : String) : List (NewOrChangedJob DrvId) :=
  ((groups.find? (·.groupName = group)).map VariantGroup.variants).getD []

/-- A row of `variant_states_for_check_run`. -/
structure VariantBuildState (DrvId : Type) where
  drvId : DrvId
  name : String
  buildState : DrvBuildState

def NewOrChangedJob.variant (job : NewOrChangedJob DrvId) : VariantBuildState DrvId := ⟨job.drvId, job.name, job.buildState⟩

namespace ForgeState

variable (state : ForgeState DrvId)

/-- A job with the state of its drv. -/
def loadJob (job : Job DrvId) : Option (NewOrChangedJob DrvId) :=
  (state.rowState job.drvId).map fun buildState => ⟨job.name, job.difference, job.drvId, buildState⟩

def jobsInJobset (jobsetId : Nat) : List (NewOrChangedJob DrvId) :=
  (state.recorder.tables.jobs.filter fun job => job.jobset = jobsetId).filterMap state.loadJob

def getNewOrChangedJobs (jobsetId : Nat) : List (NewOrChangedJob DrvId) :=
  (state.recorder.tables.jobs.filter fun job =>
    job.jobset = jobsetId && (job.difference = .new || job.difference = .changed)).filterMap state.loadJob

variable [DecidableEq DrvId]

/-- One row for every job, of whatever jobset, of every drv of the check run. -/
def variantRowsForCheckRun (checkRunId : Nat) : List (VariantBuildState DrvId) :=
  (state.checkRuns.filter fun row => row.checkRunId = checkRunId).flatMap fun row =>
    (state.recorder.getJobInfoForDrv row.drvId).filterMap fun job =>
      (state.rowState row.drvId).map fun buildState => ⟨row.drvId, job.name, buildState⟩

theorem variantStatesForCheckRun_eq (checkRunId : Nat) : state.variantStatesForCheckRun checkRunId =
    (state.variantRowsForCheckRun checkRunId).map fun variant => (variant.drvId, variant.buildState) := by
  simp only [variantStatesForCheckRun, variantRowsForCheckRun, List.map_flatMap, List.map_filterMap, Option.map_map]
  rfl

end ForgeState

namespace GitHubHandler

open Handler

def eagerCheckRunThreshold : Nat := 500

/-- A check run for every job without a dot, and one for every group. -/
def createCoalescedCheckRuns (jobset : JobSet) (changed : List (NewOrChangedJob DrvId)) : GitHubHandler DrvId Unit := do
  let (groups, ungrouped) := groupJobsByPrefix changed
  ask (.octocrabForOwner jobset.owner)
  ungrouped.forM fun job => createIndividualCheckRun jobset job.drvId job.name job.buildState job.difference
  groups.forM fun group => do
    let (checkRunId, nodeId) ← ask (.createCoalescedGhCheckRun jobset group.groupName group.variants)
    group.variants.forM fun variant => ask (.insertCheckRunInfoWithNodeId checkRunId variant.drvId (some nodeId))

/-- The check runs that are created with the jobset, if there are not too many. -/
def createEagerCheckRuns (jobset : JobSet) (changed : List (NewOrChangedJob DrvId)) : GitHubHandler DrvId Unit :=
  let (groups, ungrouped) := groupJobsByPrefix changed
  if !changed.isEmpty && groups.length + ungrouped.length < eagerCheckRunThreshold then
    createCoalescedCheckRuns jobset changed
  else pure ()

end GitHubHandler

/-- A check run that was created as the gate of a group of a jobset. -/
structure CoalescedGate where
  checkRunId : Nat
  jobsetId : Nat
  group : String

def GitHubCall.gate (fresh : Nat) : {R : Type} → GitHubCall DrvId R → List CoalescedGate
  | _, .createCoalescedGhCheckRun jobset group _ => [⟨fresh, jobset.rowid, group⟩]
  | _, _ => []

/-- The check runs, with those among them that were created as gates. -/
structure GateHistory (DrvId : Type) where
  forge : ForgeState DrvId
  gates : List CoalescedGate

inductive GateEvent (DrvId : Type) where
  /-- The rest of the server changes its tables. -/
  | server (recorder : RecorderState DrvId)
  | createEagerCheckRuns (jobsetId : Nat)
  | handle (answers : CheckRunAnswers) (task : GitHubTask DrvId)

/-- What the tables of the jobs keep to: a job is one of its drv and of its name in the
jobset, and its drv is a foreign key. -/
structure RecorderState.Keyed (recorder : RecorderState DrvId) : Prop where
  unique : (recorder.tables.jobs.map fun job => (job.jobset, job.name, job.drvId)).Nodup
  linked : ∀ job ∈ recorder.tables.jobs, (recorder.service.db.rowState job.drvId).isSome = true

namespace GateHistory

variable [DecidableEq DrvId]

instance (recorder : RecorderState DrvId) : Decidable recorder.Keyed :=
  decidable_of_iff ((recorder.tables.jobs.map fun job => (job.jobset, job.name, job.drvId)).Nodup ∧
    ∀ job ∈ recorder.tables.jobs, (recorder.service.db.rowState job.drvId).isSome = true)
    ⟨fun ⟨unique, linked⟩ => ⟨unique, linked⟩, fun keyed => ⟨keyed.unique, keyed.linked⟩⟩

def start : GateHistory DrvId where
  forge := {
    recorder := { service := .started .empty 0, tables := ⟨[], [], List.nodup_nil, fun _ member => nomatch member⟩, requests := [] }
    checkRuns := []
    shown := fun _ => (.queued, none)
    queue := []
    fresh := 0 }
  gates := []

def answer (answers : CheckRunAnswers) (R : Type) (question : GitHubCall DrvId R) (history : GateHistory DrvId) :
    Except GitHubFailure R × GateHistory DrvId :=
  ((ForgeState.answer answers R question history.forge).1,
    { forge := (ForgeState.answer answers R question history.forge).2
      gates := history.gates ++ question.gate history.forge.fresh })

def push (history : GateHistory DrvId) (task : GitHubTask DrvId) : GateHistory DrvId :=
  { history with forge := history.forge.push task }

/-- No other task creates a gate. -/
def handleGithubTask (answers : CheckRunAnswers) (history : GateHistory DrvId) : GitHubTask DrvId → GateHistory DrvId
  | .createFailureCheckRun drvId jobsetId jobAttrName difference =>
    (GitHubHandler.handleCreateFailureCheckRun drvId jobsetId jobAttrName difference).perform (answer answers) push history
  | task => { history with forge := history.forge.handleGithubTask answers task }

def step (history : GateHistory DrvId) : GateEvent DrvId → Option (GateHistory DrvId)
  | .server recorder =>
    if recorder.Keyed then some { history with forge := { history.forge with recorder := recorder } } else none
  | .createEagerCheckRuns jobsetId =>
    (history.forge.recorder.getJobsetInfo jobsetId).map fun jobset =>
      (GitHubHandler.createEagerCheckRuns jobset (history.forge.getNewOrChangedJobs jobsetId)).perform
        (answer ⟨fun _ => true, 0⟩) push history
  | .handle answers task => some (history.handleGithubTask answers task)

variable (history : GateHistory DrvId) (jobsetId : Nat) (group : String)

/-- The variants of the group that are formed from the names of the jobs. -/
def variants : List (NewOrChangedJob DrvId) :=
  variantsNamed (groupJobsByPrefix (history.forge.jobsInJobset jobsetId)).1 group

/-- What is shown for rows of the database. -/
def shownFor (rows : List (NewOrChangedJob DrvId)) : CheckRunDisplay :=
  buildStateToGraphql (aggregateBuildState (rows.map NewOrChangedJob.buildState))

/-- The group is the same however it is formed, and the order of the rows is not seen. -/
structure VariantsAgree : Prop where
  loaded : (history.forge.getGroupJobsInJobset jobsetId group).Perm (history.variants jobsetId group)
  found : ∀ pick checkRunId nodeId,
    history.forge.findCoalescedCheckRunForGroup pick jobsetId group = some (checkRunId, nodeId) →
      ⟨checkRunId, jobsetId, group⟩ ∈ history.gates
  listed : ∀ checkRunId, ⟨checkRunId, jobsetId, group⟩ ∈ history.gates →
    (history.forge.variantRowsForCheckRun checkRunId).Perm ((history.variants jobsetId group).map NewOrChangedJob.variant)
  shown : ∀ first second, first.Perm (history.variants jobsetId group) →
    second.Perm (history.variants jobsetId group) → shownFor first = shownFor second

end GateHistory

end EkaCI
