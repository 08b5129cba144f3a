import EkaCI.Jobs.Differences

/-! Checks and skills of a commit: the configuration pass announces each one as a check
run and hands it to an executor, which is to look the check run up and complete it.
The statements are prepared against the tables that the migrations leave. -/

namespace EkaCI

open Lib

inductive CheckTable where
  | gitHubCheckSets
  | checkResult
  | skillResult
  | checkRunInfo
  | gitHubCheckRuns
  | gitHubCheckRunsNew
  deriving DecidableEq

inductive CheckColumn where
  | rowid | sha | checkName | owner | repoName
  | checkset | success | exitCode | stdout | stderr | durationMs | executedAt
  | checksetId | error | reason | findings | modelId
  | checkRunId | checkResultId | drvId | repoOwner | nodeId
  deriving DecidableEq

/-- A column must be given a value if it is `NOT NULL`, has no default and is no key
that the table numbers itself. -/
structure ColumnDef where
  name : CheckColumn
  required : Bool

inductive Migration where
  | createIfNotExists (table : CheckTable) (columns : List ColumnDef)
  | create (table : CheckTable) (columns : List ColumnDef)
  | rename (table target : CheckTable)
  | addColumn (table : CheckTable) (column : ColumnDef)
  | drop (table : CheckTable)

abbrev CheckSchema := CheckTable → Option (List ColumnDef)

namespace CheckSchema

def apply (schema : CheckSchema) : Migration → CheckSchema
  | .createIfNotExists table columns =>
    match schema table with
    | some _ => schema
    | none => Function.update schema table (some columns)
  | .create table columns => Function.update schema table (some columns)
  | .rename table target => Function.update (Function.update schema target (schema table)) table none
  | .addColumn table column => Function.update schema table ((schema table).map (· ++ [column]))
  | .drop table => Function.update schema table none

def needed (name : CheckColumn) : ColumnDef := ⟨name, true⟩

def optional (name : CheckColumn) : ColumnDef := ⟨name, false⟩

/-- What the migrations do to these tables, in their order. The second table of the
name `CheckRunInfo` is not created, since there is one, and the first is renamed. -/
def migrations : List Migration :=
  [ -- 20251108_github
    .createIfNotExists .checkRunInfo [optional .checkRunId, needed .drvId, needed .repoName, needed .repoOwner],
    -- 20260212_checks
    .createIfNotExists .gitHubCheckSets
      [optional .rowid, needed .sha, needed .checkName, needed .owner, needed .repoName],
    .createIfNotExists .checkResult
      [optional .rowid, needed .checkset, needed .success, needed .exitCode, optional .stdout, optional .stderr,
        needed .durationMs, needed .executedAt],
    .createIfNotExists .checkRunInfo
      [optional .checkRunId, needed .checkResultId, needed .repoName, needed .repoOwner],
    -- 20260427_rename_github_tables
    .rename .checkRunInfo .gitHubCheckRuns,
    -- 20260904_checkrun_node_ids
    .addColumn .gitHubCheckRuns (optional .nodeId),
    -- 20260906_coalesced_check_runs
    .create .gitHubCheckRunsNew
      [needed .checkRunId, needed .drvId, needed .repoName, needed .repoOwner, optional .nodeId],
    .drop .gitHubCheckRuns,
    .rename .gitHubCheckRunsNew .gitHubCheckRuns,
    -- 20261019_skills; the error has a default
    .createIfNotExists .skillResult
      [optional .rowid, needed .checksetId, needed .success, optional .error, needed .reason, needed .findings,
        needed .modelId, needed .durationMs] ]

def migrated : CheckSchema := migrations.foldl apply fun _ => none

/-- The table and the columns are there. -/
def has (schema : CheckSchema) (table : CheckTable) (columns : List CheckColumn) : Bool :=
  match schema table with
  | none => false
  | some defs => columns.all fun column => (defs.map (·.name)).contains column

/-- A row with values for these columns can be inserted. -/
def accepts (schema : CheckSchema) (table : CheckTable) (columns : List CheckColumn) : Bool :=
  schema.has table columns &&
    match schema table with
    | none => false
    | some defs => defs.all fun column => !column.required || columns.contains column.name

end CheckSchema

/-- A row of `GitHubCheckSets`. -/
structure CheckSet where
  rowid : Nat
  sha : String
  checkName : String
  owner : String
  repoName : String

structure CheckRunInfo where
  checkRunId : Nat
  checkResultId : Nat
  repoName : String
  repoOwner : String

/-- Results are rows with a number and a checkset; what they hold of an outcome is not
read again. -/
structure CheckDatabase where
  checksets : List CheckSet := []
  checkResults : List (Nat × Nat) := []
  skillResults : List (Nat × Nat) := []
  checkRunInfo : List CheckRunInfo := []

namespace CheckDatabase

/-- The table has one row for each commit and name; it is then looked up for the
repository as well. -/
def insertGithubCheckset (db : CheckDatabase) (sha checkName owner repoName : String) : Option (Nat × CheckDatabase) :=
  let checksets := insertIgnore (fun checkset => (checkset.sha, checkset.checkName)) db.checksets
    ⟨db.checksets.length + 1, sha, checkName, owner, repoName⟩
  (checksets.find? fun checkset =>
    checkset.sha = sha ∧ checkset.checkName = checkName ∧ checkset.owner = owner ∧ checkset.repoName = repoName).map
    fun checkset => (checkset.rowid, { db with checksets := checksets })

def insertCheckResult (db : CheckDatabase) (checkset : Nat) : Option (Nat × CheckDatabase) :=
  if CheckSchema.migrated.accepts .checkResult [.checkset, .success, .exitCode, .stdout, .stderr, .durationMs] then
    let rowid := db.checkResults.length + 1
    some (rowid, { db with checkResults := db.checkResults ++ [(rowid, checkset)] })
  else none

def insertSkillResult (db : CheckDatabase) (checkset : Nat) : Option (Nat × CheckDatabase) :=
  if CheckSchema.migrated.accepts .skillResult
      [.checksetId, .success, .error, .reason, .findings, .modelId, .durationMs] then
    let rowid := db.skillResults.length + 1
    some (rowid, { db with skillResults := db.skillResults ++ [(rowid, checkset)] })
  else none

/-- The result is a foreign key into `CheckResult`, also for a skill. -/
def insertCheckRunInfo (db : CheckDatabase) (info : CheckRunInfo) : Option CheckDatabase :=
  if CheckSchema.migrated.accepts .checkRunInfo [.checkRunId, .checkResultId, .repoName, .repoOwner] ∧
      info.checkResultId ∈ db.checkResults.map (·.1) then
    some { db with checkRunInfo := db.checkRunInfo ++ [info] }
  else none

/-- `none` if the statement fails. -/
def getCheckRunInfoByCheckset (db : CheckDatabase) (owner repoName : String) (checkset : Nat) :
    Option (Option CheckRunInfo) :=
  if CheckSchema.migrated.has .checkRunInfo [.checkRunId, .checkResultId, .repoName, .repoOwner] then
    some (db.checkRunInfo.find? fun info =>
      (info.checkResultId, checkset) ∈ db.checkResults ∧ info.repoOwner = owner ∧ info.repoName = repoName)
  else none

variable (db : CheckDatabase)

theorem insertCheckResult_eq_none (checkset : Nat) : db.insertCheckResult checkset = none :=
  if_neg (by decide)

theorem insertCheckRunInfo_eq_none (info : CheckRunInfo) : db.insertCheckRunInfo info = none :=
  if_neg fun both => absurd both.1 (by decide)

theorem getCheckRunInfoByCheckset_eq_none (owner repoName : String) (checkset : Nat) :
    db.getCheckRunInfoByCheckset owner repoName checkset = none :=
  if_neg (by decide)

end CheckDatabase

/-- What a configuration pass goes through. -/
inductive PassItem where
  | check (name : String)
  | skill (name : String)

namespace PassItem

def announcedName : PassItem → String
  | .check name => name
  | .skill name => "skill/" ++ name

def storedName : PassItem → String
  | .check name => name
  | .skill name => name

end PassItem

/-- The checks, skills and flake outputs of a repository, in the order of iteration. -/
structure RepoConfig where
  checks : List String
  skills : List String
  flakeOutputs : List String

/-- Which services the reader can reach. -/
structure ReaderSettings where
  checkSender : Bool
  skillSender : Bool
  githubSender : Bool

/-- Checks come first; skills need a base commit. -/
def ReaderSettings.items (settings : ReaderSettings) (info : CICheckInfo) (config : RepoConfig) : List PassItem :=
  (if settings.checkSender ∧ settings.githubSender then config.checks.map .check else []) ++
    (if settings.skillSender ∧ settings.githubSender ∧ info.baseCommit.isSome then config.skills.map .skill else []) ++
    (if settings.checkSender ∧ settings.githubSender then config.flakeOutputs.map .check else [])

/-- A task of an executor. The ticket tells executions apart. -/
structure Execution where
  ticket : Nat
  item : PassItem
  info : CICheckInfo

inductive CheckMessage (Outcome : Type) where
  | createCheckRun (execution : Execution) (checkResultId : Nat)
  /-- `CheckComplete`, `CheckFailed` or one of the three for skills. -/
  | result (checkRunId : Nat) (outcome : Outcome)

/-- A check run on the forge, with the execution that it was created for. -/
structure ForgeCheckRun where
  id : Nat
  execution : Execution

inductive ReaderPoint where
  | idle
  | items (info : CICheckInfo) (rest : List PassItem)
  | announce (info : CICheckInfo) (item : PassItem) (resultId : Nat) (rest : List PassItem)
  | dispatch (execution : Execution) (rest : List PassItem)

structure CheckSystem (Outcome : Type) where
  db : CheckDatabase := {}
  reader : ReaderPoint := .idle
  github : List (CheckMessage Outcome) := []
  checks : List Execution := []
  skills : List Execution := []
  /-- The check runs on the forge, and every update that was sent for one. -/
  runs : List ForgeCheckRun := []
  updates : List (Nat × Outcome) := []
  executed : List (Execution × Outcome) := []
  tickets : Nat := 0

inductive CheckAction (Outcome : Type) where
  | pass (info : CICheckInfo) (config : RepoConfig)
  | read
  /-- The service takes a task; the forge may refuse to create a check run. -/
  | github (accepted : Bool)
  /-- An executor takes a task; the execution may fail before there is an outcome. -/
  | check (outcome : Option Outcome)
  | skill (outcome : Option Outcome)

namespace CheckSystem

variable {Outcome : Type}

def record (db : CheckDatabase) (info : CICheckInfo) (item : PassItem) : Option (Nat × CheckDatabase) :=
  (db.insertGithubCheckset info.commit item.announcedName info.owner info.repoName).bind fun (checkset, db) =>
    match item with
    | .check _ => db.insertCheckResult checkset
    | .skill _ => db.insertSkillResult checkset

/-- One step of `process_github_repo_config`; an error ends the pass. -/
def readStep (system : CheckSystem Outcome) : Option (CheckSystem Outcome) :=
  match system.reader with
  | .idle => none
  | .items _ [] => some { system with reader := .idle }
  | .items info (item :: rest) =>
    match record system.db info item with
    | none =>
      -- The checkset stays where the result is refused.
      some { system with
        reader := .idle
        db := ((system.db.insertGithubCheckset info.commit item.announcedName info.owner info.repoName).map
          Prod.snd).getD system.db }
    | some (resultId, db) => some { system with db := db, reader := .announce info item resultId rest }
  | .announce info item resultId rest =>
    let execution := ⟨system.tickets, item, info⟩
    some { system with
      tickets := system.tickets + 1
      github := system.github ++ [.createCheckRun execution resultId]
      reader := .dispatch execution rest }
  | .dispatch execution rest =>
    let sent := { system with reader := .items execution.info rest }
    some (match execution.item with
      | .check _ => { sent with checks := sent.checks ++ [execution] }
      | .skill _ => { sent with skills := sent.skills ++ [execution] })

/-- `handle_create_check_run` and the updates. -/
def githubStep (system : CheckSystem Outcome) (accepted : Bool) : Option (CheckSystem Outcome) :=
  match system.github with
  | [] => none
  | .createCheckRun execution checkResultId :: rest =>
    let taken := { system with github := rest }
    if accepted then
      let run : ForgeCheckRun := ⟨system.runs.length, execution⟩
      let created := { taken with runs := system.runs ++ [run] }
      some (match system.db.insertCheckRunInfo
          ⟨run.id, checkResultId, execution.info.repoName, execution.info.owner⟩ with
        | none => created
        | some db => { created with db := db })
    else some taken
  | .result checkRunId outcome :: rest =>
    some { system with github := rest, updates := system.updates ++ [(checkRunId, outcome)] }

/-- `handle_check_task` and `handle_skill_task`: store the result, look the check run
up, report. -/
def report (system : CheckSystem Outcome) (execution : Execution) (outcome : Outcome) : CheckSystem Outcome :=
  let done := { system with executed := system.executed ++ [(execution, outcome)] }
  match done.db.insertGithubCheckset execution.info.commit execution.item.storedName execution.info.owner
      execution.info.repoName with
  | none => done
  | some (checkset, db) =>
    let stored := match execution.item with
      | .check _ => db.insertCheckResult checkset
      | .skill _ => db.insertSkillResult checkset
    match stored with
    | none => { done with db := db }
    | some (_, db) =>
      match db.getCheckRunInfoByCheckset execution.info.owner execution.info.repoName checkset with
      | some (some info) => { done with db := db, github := done.github ++ [.result info.checkRunId outcome] }
      | _ => { done with db := db }

def executeStep (system : CheckSystem Outcome) (execution : Execution) : Option Outcome → CheckSystem Outcome
  | none => system
  | some outcome => system.report execution outcome

def step (settings : ReaderSettings) (system : CheckSystem Outcome) : CheckAction Outcome → Option (CheckSystem Outcome)
  | .pass info config =>
    match system.reader with
    | .idle => some { system with reader := .items info (settings.items info config) }
    | _ => none
  | .read => system.readStep
  | .github accepted => system.githubStep accepted
  | .check outcome =>
    match system.checks with
    | [] => none
    | execution :: rest => some ({ system with checks := rest }.executeStep execution outcome)
  | .skill outcome =>
    match system.skills with
    | [] => none
    | execution :: rest => some ({ system with skills := rest }.executeStep execution outcome)

/-- Everything has been processed. -/
def Settled (system : CheckSystem Outcome) : Prop :=
  system.reader = .idle ∧ system.github = [] ∧ system.checks = [] ∧ system.skills = []

/-- Each check run was completed with the outcome of its own execution, and nothing
else was updated. -/
structure Matched (system : CheckSystem Outcome) : Prop where
  completed : ∀ run ∈ system.runs, ∃ outcome, (run.execution, outcome) ∈ system.executed ∧
    (run.id, outcome) ∈ system.updates
  own : ∀ update ∈ system.updates, ∃ run ∈ system.runs, run.id = update.1 ∧
    (run.execution, update.2) ∈ system.executed

/-- No pass gets to a skill: it has none to process, or it first has a check. -/
def Quiet (settings : ReaderSettings) : CheckAction Outcome → Prop
  | .pass info config => ∀ name, (settings.items info config).head? ≠ some (.skill name)
  | _ => True

variable {settings : ReaderSettings} {system next : CheckSystem Outcome} {action : CheckAction Outcome}

/-- What the executors leave alone: without a table to look the check run up in,
nothing is reported. -/
theorem executeStep_frame (system : CheckSystem Outcome) (execution : Execution) (outcome : Option Outcome) :
    (system.executeStep execution outcome).reader = system.reader ∧
      (system.executeStep execution outcome).github = system.github ∧
      (system.executeStep execution outcome).runs = system.runs ∧
      (system.executeStep execution outcome).updates = system.updates := by
  cases outcome with
  | none => exact ⟨rfl, rfl, rfl, rfl⟩
  | some outcome =>
    simp only [executeStep, report, CheckDatabase.getCheckRunInfoByCheckset_eq_none]
    split
    · exact ⟨rfl, rfl, rfl, rfl⟩
    · split <;> exact ⟨rfl, rfl, rfl, rfl⟩

/-- No update was sent and none is on its way. -/
structure Unreported (system : CheckSystem Outcome) : Prop where
  updates : system.updates = []
  github : ∀ checkRunId outcome, .result checkRunId outcome ∉ system.github

theorem step_unreported (unreported : Unreported system) (taken : system.step settings action = some next) :
    Unreported next := by
  cases action with
  | pass info config =>
    simp only [step] at taken
    split at taken
    · cases taken
      exact ⟨unreported.updates, unreported.github⟩
    · cases taken
  | read =>
    simp only [step, readStep] at taken
    split at taken
    · cases taken
    · cases taken
      exact ⟨unreported.updates, unreported.github⟩
    · split at taken
      · cases taken
        exact ⟨unreported.updates, unreported.github⟩
      · cases taken
        exact ⟨unreported.updates, unreported.github⟩
    · cases taken
      refine ⟨unreported.updates, fun checkRunId outcome member => ?_⟩
      rcases mem_snoc.mp member with old | new
      · exact unreported.github checkRunId outcome old
      · cases new
    · cases taken
      split
      · exact ⟨unreported.updates, unreported.github⟩
      · exact ⟨unreported.updates, unreported.github⟩
  | github accepted =>
    simp only [step, githubStep, CheckDatabase.insertCheckRunInfo_eq_none] at taken
    split at taken
    · cases taken
    · rename_i execution checkResultId rest waiting
      have quiet : ∀ checkRunId outcome, CheckMessage.result checkRunId outcome ∉ rest := by
        intro checkRunId outcome member
        exact unreported.github checkRunId outcome (waiting ▸ List.mem_cons_of_mem _ member)
      split at taken <;> cases taken <;> exact ⟨unreported.updates, quiet⟩
    · rename_i waiting
      exact absurd (waiting ▸ List.mem_cons_self) (unreported.github _ _)
  | check outcome | skill outcome =>
    simp only [step] at taken
    split at taken
    · cases taken
    · cases taken
      obtain ⟨-, github, -, updates⟩ := executeStep_frame _ _ outcome
      exact ⟨updates.trans unreported.updates, by rw [github]; exact unreported.github⟩

theorem Unreported.matched_iff (unreported : Unreported system) : system.Matched ↔ system.runs = [] := by
  constructor
  · intro matched
    refine List.eq_nil_iff_forall_not_mem.mpr fun run member => ?_
    obtain ⟨outcome, -, sent⟩ := matched.completed run member
    rw [unreported.updates] at sent
    cases sent
  · intro empty
    constructor
    · intro run member
      rw [empty] at member
      cases member
    · intro update member
      rw [unreported.updates] at member
      cases member

/-- No check run exists, none is announced, and the reader is not at a skill. -/
structure Unannounced (system : CheckSystem Outcome) : Prop where
  runs : system.runs = []
  github : system.github = []
  reader : system.reader = .idle ∨ ∃ info rest, system.reader = .items info rest ∧ ∀ name, rest.head? ≠ some (.skill name)

theorem record_check (db : CheckDatabase) (info : CICheckInfo) (name : String) : record db info (.check name) = none := by
  simp [record, CheckDatabase.insertCheckResult_eq_none]

theorem step_unannounced (unannounced : Unannounced system) (quiet : Quiet settings action)
    (taken : system.step settings action = some next) : Unannounced next := by
  cases action with
  | pass info config =>
    simp only [step] at taken
    split at taken
    · cases taken
      exact ⟨unannounced.runs, unannounced.github, .inr ⟨info, _, rfl, quiet⟩⟩
    · cases taken
  | read =>
    simp only [step, readStep] at taken
    rcases unannounced.reader with idle | ⟨info, rest, items, checks⟩
    · rw [idle] at taken
      cases taken
    · rw [items] at taken
      cases rest with
      | nil =>
        cases taken
        exact ⟨unannounced.runs, unannounced.github, .inl rfl⟩
      | cons item rest =>
        -- The first item is a check, whose result is refused.
        cases item with
        | check name =>
          simp only [record_check] at taken
          cases taken
          exact ⟨unannounced.runs, unannounced.github, .inl rfl⟩
        | skill name => exact absurd rfl (checks name)
  | github accepted =>
    simp only [step, githubStep, unannounced.github] at taken
    cases taken
  | check outcome | skill outcome =>
    simp only [step] at taken
    split at taken
    · cases taken
    · cases taken
      obtain ⟨reader, github, runs, -⟩ := executeStep_frame _ _ outcome
      exact ⟨runs.trans unannounced.runs, github.trans unannounced.github, by rw [reader]; exact unannounced.reader⟩

/-- The promise holds throughout a run none of whose passes gets to a skill, since no
check run is created then; as soon as there is a check run it is broken. -/
theorem run_matched (settings : ReaderSettings) {actions : List (CheckAction Outcome)} {final : CheckSystem Outcome}
    (run : AnyRun (step settings) {} actions final) :
    ((∀ action ∈ actions, Quiet settings action) → final.Matched) ∧ (final.runs ≠ [] → ¬ final.Matched) := by
  have unreported : Unreported final := by
    apply run.invariant (p := Unreported) ⟨rfl, fun _ _ member => nomatch member⟩
    intro system action next unreported _ taken
    exact step_unreported unreported taken
  constructor
  · intro quiet
    have unannounced : Unannounced final := by
      apply exec_invariant (exec_of_run run) (p := Unannounced) ⟨rfl, rfl, .inl rfl⟩
      intro system action next member unannounced taken
      exact step_unannounced unannounced (quiet action member) taken
    exact unreported.matched_iff.mpr unannounced.runs
  · exact fun created matched => created (unreported.matched_iff.mp matched)

def bothExecutors : ReaderSettings where
  checkSender := true
  skillSender := true
  githubSender := true

def headCommit : CICheckInfo where
  commit := "c0ffee"
  baseCommit := some "ba5e"
  owner := "ekala"
  repoName := "corepkgs"

/-- A pass over a check and a skill ends at the check. -/
theorem checkFirst_matched : ∃ final : CheckSystem Bool,
    AnyRun (step bothExecutors) {} [.pass headCommit ⟨["fmt"], ["review"], []⟩, .read] final ∧
      final.Settled ∧ final.Matched := by
  have run : AnyRun (step bothExecutors) ({} : CheckSystem Bool) [.pass headCommit ⟨["fmt"], ["review"], []⟩, .read] _ :=
    run_of_exec rfl
  refine ⟨_, run, ⟨rfl, rfl, rfl, rfl⟩, (run_matched bothExecutors run).1 ?_⟩
  intro action member
  rcases List.mem_cons.mp member with rfl | last
  · intro name skill
    cases skill
  · cases List.mem_singleton.mp last
    trivial

/-- A skill is announced, its check run is created and the skill passes. -/
def skillPasses : List (CheckAction Bool) :=
  [.pass headCommit ⟨[], ["review"], []⟩, .read, .read, .read, .read, .github true, .skill (some true)]

/-- The check run is never completed. -/
theorem skillPasses_not_matched : ¬ ∀ (settings : ReaderSettings) (actions : List (CheckAction Bool))
    (final : CheckSystem Bool), AnyRun (step settings) {} actions final → final.Settled → final.Matched := by
  intro always
  have run : AnyRun (step bothExecutors) {} skillPasses _ := run_of_exec rfl
  have matched := always bothExecutors skillPasses _ run ⟨rfl, rfl, rfl, rfl⟩
  obtain ⟨outcome, -, sent⟩ := matched.completed _ List.mem_cons_self
  cases sent

end CheckSystem

end EkaCI
