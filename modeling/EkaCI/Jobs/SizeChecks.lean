import EkaCI.Jobs.Config
import EkaCI.Jobs.Recording
import EkaCI.Lib.Table
import EkaCI.Nix.DrvIdentifier
import Mathlib.Data.List.MinMax
import Mathlib.Tactic.NormNum

/-! The size of the outputs of a build, and the warning that is sent when it has grown by
more than the job allows. Sizes are recorded for the commits of the jobsets of a drv. -/

namespace EkaCI

open Lib

/-- A row of `DrvOutputSizes`. -/
structure DrvOutputSize where
  drvPath : String
  outputSize : Nat
  gitCommit : String
  gitRepo : String
  recordedAt : Nat

/-- A row of `DrvBuildMetadata`; no statement inserts one. -/
structure DrvBuildMetadata where
  derivation : String
  gitCommit : String

/-- `UpdateBuildStatusWithSizeWarning`. -/
structure SizeWarning where
  drvId : DrvIdentifier
  status : DrvBuildState
  baselineSize : Nat
  currentSize : Nat
  increasePercent : ℚ
  thresholdPercent : ℚ

/-- What nix answers about the outputs of a drv path and about the sizes of paths. -/
structure SizeReports where
  getDrvOutputs : String → Option (Table String String)
  getOutputSizes : List String → Option (List (String × Nat))

structure SizeDatabase where
  jobs : JobDatabase DrvIdentifier
  /-- The configuration stored with a jobset, by its rowid. -/
  configs : List (Nat × Option Json)
  sizes : List DrvOutputSize
  metadata : List DrvBuildMetadata

namespace SizeDatabase

/-- The configuration stays as it was stored when the row is there already. -/
def createGithubJobsetWithJobs (db : SizeDatabase) (call : RecordingCall DrvIdentifier) (job : Option ConfigJob) :
    SizeDatabase :=
  let jobs := (db.jobs.recordJobset DrvIdentifier.tryFrom call).2
  let added := jobs.jobsets.filter (· ∉ db.jobs.jobsets)
  { db with jobs, configs := db.configs ++ added.map fun jobset => (jobset.rowid, job.map ConfigJob.toJson) }

def getJobsetInfo (db : SizeDatabase) (jobset : Nat) : Option JobSet := db.jobs.jobsets.find? (·.rowid = jobset)

def getConfigJson (db : SizeDatabase) (jobset : Nat) : Option Json :=
  (db.configs.find? (·.1 = jobset)).bind (·.2)

def getJobInfoForDrv (db : SizeDatabase) (drv : DrvIdentifier) : List (Job DrvIdentifier) :=
  db.jobs.jobs.filter (·.drvId = drv)

def storeOutputSize (db : SizeDatabase) (now : Nat) (drvPath : String) (outputSize : Nat) (gitCommit gitRepo : String) :
    SizeDatabase :=
  let conflicts (row : DrvOutputSize) : Bool := row.drvPath = drvPath ∧ row.gitCommit = gitCommit ∧ row.gitRepo = gitRepo
  { db with
    sizes :=
      if db.sizes.any conflicts then
        db.sizes.map fun row => if conflicts row then { row with outputSize, recordedAt := now } else row
      else db.sizes ++ [⟨drvPath, outputSize, gitCommit, gitRepo, now⟩] }

/-- The branch is not used. -/
def getBaselineOutputSize (db : SizeDatabase) (drvPath gitRepo _baseBranch : String) : Option Nat :=
  let rows := db.sizes.filter fun row =>
    row.drvPath = drvPath ∧ row.gitRepo = gitRepo ∧
      db.metadata.any fun built => built.derivation = row.drvPath ∧ built.gitCommit = row.gitCommit
  (rows.argmax (·.recordedAt)).map (·.outputSize)

/-- The check of one job of the drv, if its configuration asks for one. -/
def sizeWarning (db : SizeDatabase) (githubSender : Bool) (drv : DrvIdentifier) (outputSize : Nat) (gitRepo : String)
    (info : Job DrvIdentifier) : Option SizeWarning := do
  let jobConfig ← db.getConfigJson info.jobset
  let ciConfig ← CIConfig.fromJson jobConfig
  let job ← collect ciConfig.jobs info.name
  let sizeCheck ← job.sizeCheck
  let baselineSize ← db.getBaselineOutputSize drv.storePath gitRepo sizeCheck.baseBranch
  let increasePercent : ℚ :=
    if 0 < baselineSize then ((outputSize : ℚ) - (baselineSize : ℚ)) / (baselineSize : ℚ) * 100 else 0
  if sizeCheck.maxIncreasePercent < increasePercent ∧ githubSender = true then
    some {
      drvId := drv
      status := .completed .success
      baselineSize
      currentSize := outputSize
      increasePercent
      thresholdPercent := sizeCheck.maxIncreasePercent }
  else none

/-- Each job of the drv with the warning that is sent for it. -/
def checkJobInfos (now : Nat) (githubSender : Bool) (drv : DrvIdentifier) (outputSize : Nat) (db : SizeDatabase) :
    List (Job DrvIdentifier) → SizeDatabase × List (Job DrvIdentifier × Option SizeWarning)
  | [] => (db, [])
  | info :: rest =>
    match db.getJobsetInfo info.jobset with
    | none => checkJobInfos now githubSender drv outputSize db rest
    | some jobset =>
      let gitRepo := "https://github.com/" ++ jobset.owner ++ "/" ++ jobset.repoName
      let stored := db.storeOutputSize now drv.storePath outputSize jobset.sha gitRepo
      let (after, others) := checkJobInfos now githubSender drv outputSize stored rest
      (after, (info, stored.sizeWarning githubSender drv outputSize gitRepo info) :: others)

def outputSize (nix : SizeReports) (drv : DrvIdentifier) : Option Nat := do
  let outputs ← nix.getDrvOutputs drv.storePath
  if outputs.keys = [] then none
  else
    let sizesByPath ← nix.getOutputSizes outputs.values
    some (sizesByPath.foldr (fun size total => size.2 + total) 0)

/-- The sizes in the rows of the drv itself are left out: they are written to the row of its
store path, and nothing here reads them. -/
def checkOutputSize (nix : SizeReports) (now : Nat) (githubSender : Bool) (db : SizeDatabase) (drv : DrvIdentifier) :
    SizeDatabase × List (Job DrvIdentifier × Option SizeWarning) :=
  match outputSize nix drv with
  | none => (db, [])
  | some size => db.checkJobInfos now githubSender drv size (db.getJobInfoForDrv drv)

end SizeDatabase

/-- The size of an attribute at a commit of a repository. -/
structure RecordedSize where
  owner : String
  repoName : String
  attr : String
  commit : String
  size : Nat
  deriving DecidableEq

/-- A build of an attribute in a jobset: what was recorded before it, the configuration of the
job, and whether a warning was sent. -/
structure SizeDecision where
  jobset : JobSet
  attr : String
  config : Option ConfigJob
  size : Nat
  earlier : List RecordedSize
  warned : Bool

structure SizeHistory where
  db : SizeDatabase
  recorded : List RecordedSize
  decisions : List SizeDecision

inductive SizeAction where
  | createGithubJobsetWithJobs (call : RecordingCall DrvIdentifier) (job : Option ConfigJob)
  | checkOutputSize (nix : SizeReports) (now : Nat) (githubSender : Bool) (drv : DrvIdentifier)

namespace SizeHistory

def start (buildState : DrvIdentifier → DrvBuildState) : SizeHistory where
  db := ⟨.empty buildState, [], [], []⟩
  recorded := []
  decisions := []

/-- One job of a drv of this size has been looked at. -/
def note (db : SizeDatabase) (size : Nat) (history : SizeHistory) (outcome : Job DrvIdentifier × Option SizeWarning) :
    SizeHistory :=
  match db.getJobsetInfo outcome.1.jobset with
  | none => history
  | some jobset =>
    { history with
      recorded := history.recorded ++ [⟨jobset.owner, jobset.repoName, outcome.1.name, jobset.sha, size⟩]
      decisions := history.decisions ++ [{
        jobset
        attr := outcome.1.name
        config := (db.getConfigJson outcome.1.jobset).bind ConfigJob.fromJson
        size
        earlier := history.recorded
        warned := outcome.2.isSome }] }

def step (history : SizeHistory) : SizeAction → Option SizeHistory
  | .createGithubJobsetWithJobs call job =>
    if call.baseJobs.isPerm (history.db.jobs.baseRows call) then
      some { history with db := history.db.createGithubJobsetWithJobs call job }
    else none
  | .checkOutputSize nix now githubSender drv =>
    match SizeDatabase.outputSize nix drv with
    | none => some history
    | some size =>
      let (after, outcomes) := SizeDatabase.checkOutputSize nix now githubSender history.db drv
      some (outcomes.foldl (note history.db size) { history with db := after })

end SizeHistory

namespace SizeDecision

/-- The latest size of the attribute that was recorded at a commit of the branch. -/
def baseline (onBranch : String → String → String → String → Bool) (decision : SizeDecision) (branch : String) :
    Option RecordedSize :=
  (decision.earlier.filter fun size =>
    size.owner = decision.jobset.owner ∧ size.repoName = decision.jobset.repoName ∧ size.attr = decision.attr ∧
      onBranch size.owner size.repoName branch size.commit).getLast?

/-- The size has grown from the baseline by more than the job allows. -/
def Exceeds (decision : SizeDecision) (check : SizeCheck) (baseline : RecordedSize) : Prop :=
  check.maxIncreasePercent / 100 * (baseline.size : ℚ) < (decision.size : ℚ) - (baseline.size : ℚ)

/-- A configured check with a baseline is applied. -/
def Applied (onBranch : String → String → String → String → Bool) (decision : SizeDecision) : Prop :=
  ∀ job check baseline, decision.config = some job → job.sizeCheck = some check →
    decision.baseline onBranch check.baseBranch = some baseline →
      (decision.warned = true ↔ decision.Exceeds check baseline)

/-- No configured check with a baseline is exceeded. -/
def Within (onBranch : String → String → String → String → Bool) (decision : SizeDecision) : Prop :=
  ∀ job check baseline, decision.config = some job → job.sizeCheck = some check →
    decision.baseline onBranch check.baseBranch = some baseline → ¬ decision.Exceeds check baseline

theorem applied_iff {onBranch : String → String → String → String → Bool} {decision : SizeDecision}
    (silent : decision.warned = false) : decision.Applied onBranch ↔ decision.Within onBranch := by
  simp only [Applied, Within, silent]
  refine forall_congr' fun job => forall_congr' fun check => forall_congr' fun baseline => ?_
  refine imp_congr_right fun _ => imp_congr_right fun _ => imp_congr_right fun _ => ?_
  simp

end SizeDecision

namespace SizeDatabase

def StoresJobs (db : SizeDatabase) : Prop :=
  ∀ entry ∈ db.configs, ∀ json, entry.2 = some json → ∃ job : ConfigJob, json = job.toJson

variable {db : SizeDatabase}

theorem StoresJobs.createGithubJobsetWithJobs (stores : db.StoresJobs) (call : RecordingCall DrvIdentifier)
    (job : Option ConfigJob) : (db.createGithubJobsetWithJobs call job).StoresJobs := by
  intro entry listed json written
  rcases List.mem_append.mp listed with old | new
  · exact stores entry old json written
  · obtain ⟨jobset, -, rfl⟩ := List.mem_map.mp new
    obtain ⟨config, -, rfl⟩ := Option.map_eq_some_iff.mp written
    exact ⟨config, rfl⟩

theorem StoresJobs.getConfigJson (stores : db.StoresJobs) {jobset : Nat} {json : Json}
    (found : db.getConfigJson jobset = some json) : ∃ job : ConfigJob, json = job.toJson := by
  obtain ⟨entry, first, written⟩ := Option.bind_eq_some_iff.mp found
  exact stores entry (List.mem_of_find?_eq_some first) json written

theorem StoresJobs.sizeWarning (stores : db.StoresJobs) (githubSender : Bool) (drv : DrvIdentifier) (size : Nat)
    (gitRepo : String) (info : Job DrvIdentifier) : db.sizeWarning githubSender drv size gitRepo info = none := by
  rw [SizeDatabase.sizeWarning]
  cases found : db.getConfigJson info.jobset with
  | none => rfl
  | some json =>
    obtain ⟨job, rfl⟩ := stores.getConfigJson found
    simp only [Option.bind_eq_bind, Option.bind_some, CIConfig.fromJson_job]
    rfl

theorem StoresJobs.checkJobInfos (stores : db.StoresJobs) (now : Nat) (githubSender : Bool) (drv : DrvIdentifier)
    (size : Nat) (infos : List (Job DrvIdentifier)) :
    (SizeDatabase.checkJobInfos now githubSender drv size db infos).1.StoresJobs ∧
      ∀ outcome ∈ (SizeDatabase.checkJobInfos now githubSender drv size db infos).2, outcome.2 = none := by
  induction infos generalizing db with
  | nil => exact ⟨stores, List.forall_mem_nil _⟩
  | cons info rest ih =>
    rw [SizeDatabase.checkJobInfos]
    split
    next => exact ih stores
    next jobset found =>
      have stored : (db.storeOutputSize now drv.storePath size jobset.sha
          ("https://github.com/" ++ jobset.owner ++ "/" ++ jobset.repoName)).StoresJobs := stores
      obtain ⟨kept, unwarned⟩ := ih stored
      refine ⟨kept, fun outcome listed => ?_⟩
      rcases List.mem_cons.mp listed with rfl | later
      · exact stored.sizeWarning githubSender drv size _ info
      · exact unwarned outcome later

end SizeDatabase

namespace SizeHistory

structure Silent (history : SizeHistory) : Prop where
  stores : history.db.StoresJobs
  unwarned : ∀ decision ∈ history.decisions, decision.warned = false

theorem silent_foldl_note {db : SizeDatabase} {size : Nat} {outcomes : List (Job DrvIdentifier × Option SizeWarning)}
    {history : SizeHistory} (silent : history.Silent) (unwarned : ∀ outcome ∈ outcomes, outcome.2 = none) :
    (outcomes.foldl (note db size) history).Silent := by
  induction outcomes generalizing history with
  | nil => exact silent
  | cons outcome rest ih =>
    apply ih _ fun other later => unwarned other (List.mem_cons_of_mem _ later)
    rw [note]
    split
    next => exact silent
    next =>
      refine ⟨silent.stores, fun decision listed => ?_⟩
      rcases mem_snoc.mp listed with old | rfl
      · exact silent.unwarned decision old
      · exact congrArg Option.isSome (unwarned outcome List.mem_cons_self)

theorem silent_step {history next : SizeHistory} {action : SizeAction} (silent : history.Silent)
    (taken : history.step action = some next) : next.Silent := by
  cases action with
  | createGithubJobsetWithJobs call job =>
    simp only [step] at taken
    split at taken
    next =>
      cases taken
      exact ⟨silent.stores.createGithubJobsetWithJobs call job, silent.unwarned⟩
    next => cases taken
  | checkOutputSize nix now githubSender drv =>
    simp only [step] at taken
    split at taken
    next =>
      cases taken
      exact silent
    next size known =>
      cases taken
      simp only [SizeDatabase.checkOutputSize, known]
      obtain ⟨stores, unwarned⟩ :=
        silent.stores.checkJobInfos now githubSender drv size (history.db.getJobInfoForDrv drv)
      exact silent_foldl_note ⟨stores, silent.unwarned⟩ unwarned

theorem run_silent {buildState : DrvIdentifier → DrvBuildState} {actions : List SizeAction} {history : SizeHistory}
    (run : AnyRun step (start buildState) actions history) : history.Silent :=
  run.invariant (p := Silent) ⟨nofun, nofun⟩ fun _ _ _ silent _ taken => silent_step silent taken

/-- In every history the configured checks are applied exactly when no size is too large. -/
theorem run_checksApplied {buildState : DrvIdentifier → DrvBuildState} {actions : List SizeAction} {history : SizeHistory}
    (run : AnyRun step (start buildState) actions history) (onBranch : String → String → String → String → Bool) :
    (∀ decision ∈ history.decisions, decision.Applied onBranch) ↔
      ∀ decision ∈ history.decisions, decision.Within onBranch :=
  forall_congr' fun decision => imp_congr_right fun listed =>
    SizeDecision.applied_iff ((run_silent run).unwarned decision listed)

/-! A package that is built at a commit of `main` with size 100, and then at the head of a
pull request that may add ten percent. -/

def limitedJob : ConfigJob where
  file := "default.nix"
  allowEvalFailures := true
  caches := []
  sizeCheck := some ⟨10, "main"⟩
  passthruTests := none

def reportsOf (outputPath : String) (size : Nat) : SizeReports where
  getDrvOutputs _ := some (Table.empty.push "out" outputPath)
  getOutputSizes _ := some [(outputPath, size)]

def onMain (_owner _repoName branch commit : String) : Bool := branch = "main" && commit = "aaaa"

def recordedOnMain : RecordedSize := ⟨"ekala", "corepkgs", "hello", "aaaa", 100⟩

def helloOnMain : DrvIdentifier := ⟨"66666666666666666666666666666666-hello-1.drv", by decide⟩

def helloAtHead : DrvIdentifier := ⟨"77777777777777777777777777777777-hello-1.drv", by decide⟩

def growth (size : Nat) : List SizeAction :=
  [.createGithubJobsetWithJobs
      ⟨⟨"aaaa", none, "ekala", "corepkgs"⟩, "pkgs", [⟨"hello", helloOnMain.storePath⟩], [], none⟩
      (some limitedJob),
    .checkOutputSize (reportsOf "/nix/store/22222222222222222222222222222222-hello-1" 100) 1 true helloOnMain,
    .createGithubJobsetWithJobs
      ⟨⟨"bbbb", some "aaaa", "ekala", "corepkgs"⟩, "pkgs", [⟨"hello", helloAtHead.storePath⟩],
        [("hello", helloOnMain)], none⟩
      (some limitedJob),
    .checkOutputSize (reportsOf "/nix/store/33333333333333333333333333333333-hello-1" size) 2 true helloAtHead]

/-- Growth within the limit. -/
theorem run_checksApplied_growth : ∃ history, AnyRun step (start fun _ => .queued) (growth 105) history ∧
    ∀ decision ∈ history.decisions, decision.Applied onMain := by
  refine exists_run_of_exec_imp (p := fun history => ∀ decision ∈ history.decisions, decision.config = some limitedJob ∧
      (decision.baseline onMain "main" = none ∨ decision.baseline onMain "main" = some recordedOnMain ∧ decision.size = 105))
    (by decide) fun history run known => (run_checksApplied run onMain).mpr ?_
  intro decision listed job check baseline config checked found
  obtain ⟨limited, first | ⟨same, size⟩⟩ := known decision listed
  all_goals
    obtain rfl := Option.some.inj (config.symm.trans limited)
    obtain rfl := Option.some.inj checked
  · cases found.symm.trans first
  · obtain rfl := Option.some.inj (found.symm.trans same)
    rw [SizeDecision.Exceeds, size]
    norm_num [recordedOnMain]

/-- The size has doubled, and no warning is sent. -/
theorem growth_200_not_applied : ∃ history, AnyRun step (start fun _ => .queued) (growth 200) history ∧
    ¬ ∀ decision ∈ history.decisions, decision.Applied onMain := by
  refine exists_run_of_exec_imp (p := fun history => ∃ decision ∈ history.decisions, decision.config = some limitedJob ∧
      decision.baseline onMain "main" = some recordedOnMain ∧ decision.size = 200)
    (by decide) fun history run ⟨decision, listed, limited, same, size⟩ applied => ?_
  have within := (SizeDecision.applied_iff ((run_silent run).unwarned decision listed)).mp (applied decision listed)
  apply within limitedJob ⟨10, "main"⟩ recordedOnMain limited rfl same
  rw [SizeDecision.Exceeds, size]
  norm_num [recordedOnMain]

end SizeHistory

end EkaCI
