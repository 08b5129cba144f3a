import EkaCI.Jobs.Differences
import EkaCI.Lib.Table
import EkaCI.Services.TaskJournal

/-! The gates of a commit: check runs that are in progress while the configuration is
read or a job is evaluated. The service remembers in memory which check run it has
created for a commit, and a later task completes it. -/

namespace EkaCI

open Lib

inductive GateKind where
  | configure
  | eval (jobTitle : String)
  deriving DecidableEq, Repr

/-- A pass over the configuration of a commit, or over one of its jobs. -/
structure GatePass where
  number : Nat
  info : CICheckInfo
  kind : GateKind

/-- The key of a gate in memory: the commit, and the job of an eval gate. -/
structure GateKey where
  commit : String
  kind : GateKind
  deriving DecidableEq

def GatePass.key (pass : GatePass) : GateKey := ⟨pass.info.commit, pass.kind⟩

inductive GateConclusion where
  | success | failure | neutral | cancelled | timedOut | skipped | stale | actionRequired
  deriving DecidableEq, Repr

structure GateOutcome where
  conclusion : GateConclusion
  summary : String
  deriving DecidableEq

/-- A completion, with the pass that has asked for it; a cancellation is of no pass. -/
structure GateClosing where
  outcome : GateOutcome
  pass : Option Nat
  deriving DecidableEq

/-- A gate on the forge, with all its completions. -/
structure GateRun where
  id : Nat
  pass : GatePass
  closings : List GateClosing

/-- Still in progress. -/
def GateRun.Open (gate : GateRun) : Prop := gate.closings = []

inductive GateTask where
  /-- `CreateCIConfigureGate` or `CreateCIEvalJob`. -/
  | createGate (pass : GatePass)
  /-- `CompleteCIConfigureGate` or `CompleteCIEvalJob`. -/
  | completeGate (pass : GatePass) (outcome : GateOutcome)
  | failCIEvalJob (pass : GatePass) (summary : String)
  | cancelCheckRunsForCommit (info : CICheckInfo)

/-- The configure gate always succeeds, with a summary; an eval gate has none. -/
def GatePass.finish (pass : GatePass) (conclusion : GateConclusion) (summary : String) : GateOutcome :=
  match pass.kind with
  | .configure => ⟨.success, summary⟩
  | .eval _ => ⟨conclusion, ""⟩

inductive GateFailure where
  | rateLimited
  | other
  deriving DecidableEq

/-- What the forge and the database answer to one attempt at a task. -/
structure GateAnswers where
  /-- Whether the app is installed for the owner. -/
  installed : Bool
  /-- The request that creates or completes a check run. -/
  call : Except GateFailure Unit
  /-- What a lookup by name comes upon; it may fail as well. -/
  found : Option Nat
  /-- The check runs for which a cancellation is taken. -/
  cancelled : Nat → Bool
  /-- The other check runs of the commit can be read. -/
  queried : Bool

structure GateStore where
  gates : List GateRun
  /-- The number of the next check run. -/
  fresh : Nat
  /-- The two maps in memory, of configure gates and of eval gates. -/
  checks : Table GateKey Nat

abbrev GateResult := Except GateFailure Unit × GateStore

namespace GateStore

variable (store : GateStore)

/-- The check run belongs to the repository. -/
def hasGate (info : CICheckInfo) (id : Nat) : Bool :=
  store.gates.any fun gate =>
    gate.id = id ∧ gate.pass.info.owner = info.owner ∧ gate.pass.info.repoName = info.repoName

def close (id : Nat) (closing : GateClosing) : GateStore :=
  { store with
    gates := store.gates.map fun gate =>
      if gate.id = id then { gate with closings := gate.closings ++ [closing] } else gate }

/-- The forge knows a check run under its own repository only. -/
def update (info : CICheckInfo) (id : Nat) (closing : GateClosing) : Except GateFailure Unit → GateResult
  | .error failure => (.error failure, store)
  | .ok () => if store.hasGate info id then (.ok (), store.close id closing) else (.error .other, store)

def create (pass : GatePass) (closings : List GateClosing) : GateStore :=
  { store with gates := store.gates ++ [⟨store.fresh, pass, closings⟩], fresh := store.fresh + 1 }

def remember (key : GateKey) (id : Nat) : GateStore := { store with checks := store.checks.push key id }

def forget (key : GateKey) : GateStore := { store with checks := store.checks.erase key }

/-- The lookup goes by the commit and the name, which has the title of the job. -/
def findCheckRunByName (pass : GatePass) (found : Option Nat) : Option Nat :=
  found.filter fun id => store.gates.any fun gate =>
    gate.id = id ∧ gate.pass.info.owner = pass.info.owner ∧ gate.pass.info.repoName = pass.info.repoName ∧
      gate.pass.key = pass.key

variable (answers : GateAnswers)

def handleCreateGate (pass : GatePass) : GateResult :=
  if answers.installed then
    match answers.call with
    | .error failure => (.error failure, store)
    | .ok () => (.ok (), (store.create pass []).remember pass.key store.fresh)
  else (.error .other, store)

/-- The entry is removed before the call. Without one an eval gate is looked up on the
forge, and a configure gate is not. -/
def handleCompleteGate (pass : GatePass) (outcome : GateOutcome) : GateResult :=
  let closing : GateClosing := ⟨outcome, some pass.number⟩
  if answers.installed then
    match store.checks.get pass.key with
    | some id => (store.forget pass.key).update pass.info id closing answers.call
    | none =>
      match pass.kind with
      | .configure => (.error .other, store)
      | .eval _ =>
        match store.findCheckRunByName pass answers.found with
        | some id => store.update pass.info id closing answers.call
        | none => (.ok (), store)
  else (.error .other, store)

/-- A check run of its own, completed from the start. -/
def handleFailCIEvalJob (pass : GatePass) (summary : String) : GateResult :=
  if answers.installed then
    match answers.call with
    | .error failure => (.error failure, store)
    | .ok () => (.ok (), store.create pass [⟨⟨.failure, summary⟩, some pass.number⟩])
  else (.error .other, store)

/-- A cancellation that fails is passed over. -/
def cancelGate (info : CICheckInfo) (cancelled : Nat → Bool) (store : GateStore) (key : GateKey) : GateStore :=
  match store.checks.get key with
  | none => store
  | some id =>
    ((store.forget key).update info id ⟨⟨.cancelled, ""⟩, none⟩ (if cancelled id then .ok () else .error .other)).2

/-- The gates under the commit, the configure gate first. -/
def keysOf (commit : String) : List GateKey :=
  ⟨commit, .configure⟩ :: store.checks.keys.filter fun key => key.commit = commit ∧ key.kind ≠ .configure

/-- The gates, before the check runs of jobs. -/
def handleCancelCheckRunsForCommit (info : CICheckInfo) : GateResult :=
  if answers.installed then
    (if answers.queried then .ok () else .error .other,
      (store.keysOf info.commit).foldl (cancelGate info answers.cancelled) store)
  else (.error .other, store)

def handleGithubTask : GateTask → GateResult
  | .createGate pass => store.handleCreateGate answers pass
  | .completeGate pass outcome => store.handleCompleteGate answers pass outcome
  | .failCIEvalJob pass summary => store.handleFailCIEvalJob answers pass summary
  | .cancelCheckRunsForCommit info => store.handleCancelCheckRunsForCommit answers info

/-- A task that is rate limited is handled once more. -/
def handleTask (answers : GateAnswers × GateAnswers) (task : GateTask) : GateResult :=
  match store.handleGithubTask answers.1 task with
  | (.error .rateLimited, limited) => limited.handleGithubTask answers.2 task
  | result => result

end GateStore

structure GateSystem where
  store : GateStore
  queue : List GateTask
  journal : TaskJournal GateTask
  /-- What is still to be handled of the tasks found in the journal. -/
  replaying : List (Nat × GateTask)
  /-- The passes that have begun and not ended. -/
  passes : List GatePass
  nextPass : Nat

inductive GateAction where
  /-- The first task of a pass is sent. -/
  | beginPass (info : CICheckInfo) (kind : GateKind)
  /-- Its last one is sent. -/
  | endPass (index : Nat) (conclusion : GateConclusion) (summary : String)
  /-- An error ends the pass. -/
  | abortPass (index : Nat)
  /-- An evaluation has had errors. -/
  | failEval (info : CICheckInfo) (jobTitle summary : String)
  | cancel (info : CICheckInfo)
  /-- A task goes into the journal, if this can be written, is handled, and if it
  succeeds goes out again, if this can be written. -/
  | dispatch (persisted : Bool) (answers : GateAnswers × GateAnswers) (acknowledged : Bool)
  | replay (answers : GateAnswers × GateAnswers) (acknowledged : Bool)
  | restart

namespace GateSystem

def start : GateSystem where
  store := ⟨[], 1, .empty⟩
  queue := []
  journal := .empty
  replaying := []
  passes := []
  nextPass := 1

def step (system : GateSystem) : GateAction → Option GateSystem
  | .beginPass info kind =>
    let pass : GatePass := ⟨system.nextPass, info, kind⟩
    some { system with
      queue := system.queue ++ [.createGate pass]
      passes := system.passes ++ [pass]
      nextPass := system.nextPass + 1 }
  | .endPass index conclusion summary =>
    system.passes[index]?.map fun pass =>
      { system with
        queue := system.queue ++ [.completeGate pass (pass.finish conclusion summary)]
        passes := system.passes.eraseIdx index }
  | .abortPass index => system.passes[index]?.map fun _ => { system with passes := system.passes.eraseIdx index }
  | .failEval info jobTitle summary =>
    some { system with
      queue := system.queue ++ [.failCIEvalJob ⟨system.nextPass, info, .eval jobTitle⟩ summary]
      nextPass := system.nextPass + 1 }
  | .cancel info => some { system with queue := system.queue ++ [.cancelCheckRunsForCommit info] }
  | .dispatch persisted answers acknowledged =>
    match system.replaying, system.queue with
    | [], task :: rest =>
      let result := system.store.handleTask answers task
      let stored := if persisted then system.journal.persist .gitHub task else system.journal
      some { system with
        store := result.2
        queue := rest
        journal :=
          if persisted ∧ result.1 = .ok () ∧ acknowledged then stored.acknowledge system.journal.nextId else stored }
    | _, _ => none
  | .replay answers acknowledged =>
    match system.replaying with
    | (id, task) :: rest =>
      some { system with
        store := (system.store.handleTask answers task).2
        replaying := rest
        journal := if acknowledged then system.journal.acknowledge id else system.journal }
    | [] => none
  | .restart =>
    some { system with
      store := { system.store with checks := .empty }
      queue := []
      replaying := system.journal.recover .gitHub
      passes := [] }

def tasks (system : GateSystem) : List GateTask := system.replaying.map Prod.snd ++ system.queue

/-- No pass is under way, and all tasks have been handled. -/
def Settled (system : GateSystem) : Prop := system.passes = [] ∧ system.tasks = []

end GateSystem

/-- Completed once, for the pass that it was created for or by a cancellation. -/
def GateRun.Concluded (gate : GateRun) : Prop :=
  ∃ closing, gate.closings = [closing] ∧ (closing.pass = some gate.pass.number ∨ closing = ⟨⟨.cancelled, ""⟩, none⟩)

/-- Every gate that was opened has been closed. -/
def GateSystem.GatesClosed (system : GateSystem) : Prop := system.Settled → ∀ gate ∈ system.store.gates, gate.Concluded

end EkaCI
