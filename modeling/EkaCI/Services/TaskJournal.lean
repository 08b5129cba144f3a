import EkaCI.Lib.Run
import Mathlib.Data.List.Pairwise

/-! The write-ahead journal of the services. A task is stored before its handler runs
and removed after it; what a crash leaves behind is handled again at the next start.
All services share one table and one process. -/

namespace EkaCI

open Lib

/-- The services that keep a journal, by the name of their rows. -/
inductive ServiceName where
  | git | eval | repo | checks | skills | hooks | channels | gitHub | gitLab | gitea | searchIndex
  | ingress | recorder
  deriving DecidableEq, Repr

/-- Who writes the loop of a service: the trait, or the worker itself. -/
inductive ServiceLoop where
  | asyncService
  | ingestRequests
  | recordBuilds
  deriving DecidableEq, Repr

def ServiceName.loop : ServiceName → ServiceLoop
  | .ingress => .ingestRequests
  | .recorder => .recordBuilds
  | _ => .asyncService

/-- Whether a task that was handled again is then removed. The trait's `replay_journal`
does not look at the outcome. -/
def ServiceLoop.removesReplayed : ServiceLoop → Bool → Bool
  | .asyncService, _ => true
  | .ingestRequests, ok => ok
  | .recordBuilds, ok => ok

variable {Task : Type}

structure JournalRow (Task : Type) where
  id : Nat
  service : ServiceName
  task : Task
  deriving DecidableEq

/-- The table. Ids are given out in order and never again. -/
structure TaskJournal (Task : Type) where
  rows : List (JournalRow Task)
  nextId : Nat
  ascending : rows.Pairwise fun first second => first.id < second.id
  fresh : ∀ row ∈ rows, row.id < nextId

namespace TaskJournal

def empty : TaskJournal Task where
  rows := []
  nextId := 1
  ascending := .nil
  fresh := fun _ member => nomatch member

def persist (journal : TaskJournal Task) (service : ServiceName) (task : Task) : TaskJournal Task where
  rows := journal.rows ++ [⟨journal.nextId, service, task⟩]
  nextId := journal.nextId + 1
  ascending := by
    refine List.pairwise_append.mpr ⟨journal.ascending, List.pairwise_singleton _ _, ?_⟩
    intro row member last same
    rw [List.mem_singleton.mp same]
    exact journal.fresh row member
  fresh row member := by
    rcases mem_snoc.mp member with old | new
    · exact Nat.lt_succ_of_lt (journal.fresh row old)
    · rw [new]
      exact Nat.lt_succ_self _

/-- The row is found by its id alone. -/
def acknowledge (journal : TaskJournal Task) (id : Nat) : TaskJournal Task where
  rows := journal.rows.filter (·.id ≠ id)
  nextId := journal.nextId
  ascending := journal.ascending.filter _
  fresh row member := journal.fresh row (List.mem_filter.mp member).1

/-- The rows of a service, in the order of their ids. -/
def rowsOf (journal : TaskJournal Task) (service : ServiceName) : List (JournalRow Task) :=
  journal.rows.filter (·.service = service)

def recover (journal : TaskJournal Task) (service : ServiceName) : List (Nat × Task) :=
  (journal.rowsOf service).map fun row => (row.id, row.task)

end TaskJournal

/-- Where the loop of a service stands. -/
inductive LoopPoint (Task : Type) where
  | down
  /-- Between two recovered tasks. -/
  | replaying (rest : List (Nat × Task))
  | replay (id : Nat) (task : Task) (rest : List (Nat × Task))
  /-- A recovered task is about to be removed. -/
  | replayed (id : Nat) (task : Task) (rest : List (Nat × Task))
  | waiting
  /-- A task was received and is not in the journal yet. -/
  | received (task : Task)
  | handling (id : Nat) (task : Task)
  /-- A handled task is about to be removed. -/
  | finished (id : Nat) (task : Task)

structure ServiceWorker (Task : Type) where
  point : LoopPoint Task
  /-- What the journal held for the service at its last start. -/
  surviving : List (Nat × Task)
  /-- The tasks whose handler has been started since, in order. -/
  started : List (Nat × Task)

structure JournalSystem (Task : Type) where
  journal : TaskJournal Task
  workers : ServiceName → ServiceWorker Task
  /-- Every row whose insertion has returned, in order. -/
  persisted : List (JournalRow Task)
  /-- The rows for which a handler has returned `Ok`. -/
  succeeded : List (JournalRow Task)

inductive JournalAction (Task : Type) where
  | start (service : ServiceName)
  | next (service : ServiceName)
  /-- The handler returns. -/
  | finish (service : ServiceName) (ok : Bool)
  | acknowledge (service : ServiceName)
  | receive (service : ServiceName) (task : Task)
  | persist (service : ServiceName)
  | crash

namespace JournalSystem

def init : JournalSystem Task where
  journal := .empty
  workers _ := ⟨.down, [], []⟩
  persisted := []
  succeeded := []

def setWorker (system : JournalSystem Task) (service : ServiceName) (worker : ServiceWorker Task) : JournalSystem Task :=
  { system with workers := Function.update system.workers service worker }

def setPoint (system : JournalSystem Task) (service : ServiceName) (point : LoopPoint Task) : JournalSystem Task :=
  system.setWorker service { system.workers service with point := point }

/-- A handler begins with a task. -/
def begin (system : JournalSystem Task) (service : ServiceName) (id : Nat) (task : Task) (point : LoopPoint Task) :
    JournalSystem Task :=
  system.setWorker service
    { system.workers service with point := point, started := (system.workers service).started ++ [(id, task)] }

/-- Note the outcome of a handler. -/
def note (system : JournalSystem Task) (row : JournalRow Task) (ok : Bool) : JournalSystem Task :=
  if ok then { system with succeeded := system.succeeded ++ [row] } else system

/-- A task is inserted into the journal. -/
def store (system : JournalSystem Task) (service : ServiceName) (task : Task) : JournalSystem Task :=
  { system with
    journal := system.journal.persist service task
    persisted := system.persisted ++ [⟨system.journal.nextId, service, task⟩] }

/-- A row is removed from the journal. -/
def remove (system : JournalSystem Task) (id : Nat) : JournalSystem Task :=
  { system with journal := system.journal.acknowledge id }

def step (system : JournalSystem Task) : JournalAction Task → Option (JournalSystem Task)
  | .start service =>
    match (system.workers service).point with
    | .down =>
      let recovered := system.journal.recover service
      some (system.setWorker service ⟨.replaying recovered, recovered, []⟩)
    | _ => none
  | .next service =>
    match (system.workers service).point with
    | .replaying [] => some (system.setPoint service .waiting)
    | .replaying ((id, task) :: rest) => some (system.begin service id task (.replay id task rest))
    | _ => none
  | .finish service ok =>
    match (system.workers service).point with
    | .replay id task rest =>
      some ((system.note ⟨id, service, task⟩ ok).setPoint service
        (if service.loop.removesReplayed ok then .replayed id task rest else .replaying rest))
    | .handling id task =>
      some ((system.note ⟨id, service, task⟩ ok).setPoint service (if ok then .finished id task else .waiting))
    | _ => none
  | .acknowledge service =>
    match (system.workers service).point with
    | .replayed id _ rest => some ((system.remove id).setPoint service (.replaying rest))
    | .finished id _ => some ((system.remove id).setPoint service .waiting)
    | _ => none
  | .receive service task =>
    match (system.workers service).point with
    | .waiting => some (system.setPoint service (.received task))
    | _ => none
  | .persist service =>
    match (system.workers service).point with
    | .received task =>
      let id := system.journal.nextId
      some ((system.store service task).begin service id task (.handling id task))
    | _ => none
  | .crash => some { system with workers := fun service => { system.workers service with point := .down } }

/-- The steps, with the point that each starts from. -/
inductive Steps (system : JournalSystem Task) : JournalAction Task → JournalSystem Task → Prop where
  | start {service : ServiceName} (down : (system.workers service).point = .down) :
    Steps system (.start service) (system.setWorker service
      ⟨.replaying (system.journal.recover service), system.journal.recover service, []⟩)
  | wait {service : ServiceName} (point : (system.workers service).point = .replaying []) :
    Steps system (.next service) (system.setPoint service .waiting)
  | next {service : ServiceName} {id : Nat} {task : Task} {rest : List (Nat × Task)}
      (point : (system.workers service).point = .replaying ((id, task) :: rest)) :
    Steps system (.next service) (system.begin service id task (.replay id task rest))
  | replayed {service : ServiceName} {ok : Bool} {id : Nat} {task : Task} {rest : List (Nat × Task)}
      (point : (system.workers service).point = .replay id task rest) :
    Steps system (.finish service ok) ((system.note ⟨id, service, task⟩ ok).setPoint service
      (if service.loop.removesReplayed ok then .replayed id task rest else .replaying rest))
  | handled {service : ServiceName} {ok : Bool} {id : Nat} {task : Task}
      (point : (system.workers service).point = .handling id task) :
    Steps system (.finish service ok) ((system.note ⟨id, service, task⟩ ok).setPoint service
      (if ok then .finished id task else .waiting))
  | dropReplayed {service : ServiceName} {id : Nat} {task : Task} {rest : List (Nat × Task)}
      (point : (system.workers service).point = .replayed id task rest) :
    Steps system (.acknowledge service) ((system.remove id).setPoint service (.replaying rest))
  | dropFinished {service : ServiceName} {id : Nat} {task : Task}
      (point : (system.workers service).point = .finished id task) :
    Steps system (.acknowledge service) ((system.remove id).setPoint service .waiting)
  | receive {service : ServiceName} {task : Task} (point : (system.workers service).point = .waiting) :
    Steps system (.receive service task) (system.setPoint service (.received task))
  | persist {service : ServiceName} {task : Task} (point : (system.workers service).point = .received task) :
    Steps system (.persist service)
      ((system.store service task).begin service system.journal.nextId task (.handling system.journal.nextId task))
  | crash : Steps system .crash
      { system with workers := fun service => { system.workers service with point := .down } }

variable {system next : JournalSystem Task} {action : JournalAction Task}

theorem steps_of (taken : system.step action = some next) : Steps system action next := by
  cases action with
  | start service =>
    simp only [step] at taken
    split at taken <;> cases taken
    exact .start ‹_›
  | next service =>
    simp only [step] at taken
    split at taken <;> cases taken
    · exact .wait ‹_›
    · exact .next ‹_›
  | finish service ok =>
    simp only [step] at taken
    split at taken <;> cases taken
    · exact .replayed ‹_›
    · exact .handled ‹_›
  | acknowledge service =>
    simp only [step] at taken
    split at taken <;> cases taken
    · exact .dropReplayed ‹_›
    · exact .dropFinished ‹_›
  | receive service task =>
    simp only [step] at taken
    split at taken <;> cases taken
    exact .receive ‹_›
  | persist service =>
    simp only [step] at taken
    split at taken <;> cases taken
    exact .persist ‹_›
  | crash =>
    cases taken
    exact .crash

@[simp] theorem setWorker_workers (system : JournalSystem Task) (service : ServiceName) (worker : ServiceWorker Task) :
    (system.setWorker service worker).workers service = worker :=
  Function.update_self ..

theorem setWorker_workers_of_ne {service other : ServiceName} (different : other ≠ service)
    (worker : ServiceWorker Task) : (system.setWorker service worker).workers other = system.workers other :=
  Function.update_of_ne different ..

variable (row : JournalRow Task)

@[simp] theorem note_journal (ok : Bool) : (system.note row ok).journal = system.journal := by
  cases ok <;> rfl

@[simp] theorem note_persisted (ok : Bool) : (system.note row ok).persisted = system.persisted := by
  cases ok <;> rfl

@[simp] theorem note_workers (ok : Bool) : (system.note row ok).workers = system.workers := by
  cases ok <;> rfl

@[simp] theorem remove_workers (id : Nat) : (system.remove id).workers = system.workers := rfl

theorem mem_note_succeeded {row other : JournalRow Task} {ok : Bool} :
    other ∈ (system.note row ok).succeeded ↔ other ∈ system.succeeded ∨ (ok = true ∧ other = row) := by
  cases ok <;> simp [note]

end JournalSystem

end EkaCI
