import EkaCI.Lib.Collect
import EkaCI.Services.TaskJournal

/-! Delivery at least once: what the journal promises about the tasks of a service,
over any number of crashes. -/

namespace EkaCI

open Lib

variable {Task : Type}

namespace LoopPoint

/-- The stored tasks that the loop still has in its hands. -/
def entries : LoopPoint Task → List (Nat × Task)
  | .replaying rest => rest
  | .replay id task rest | .replayed id task rest => (id, task) :: rest
  | .handling id task | .finished id task => [(id, task)]
  | .down | .waiting | .received _ => []

/-- A handler runs on a recovered task. -/
def isReplay : LoopPoint Task → Bool
  | .replay _ _ _ => true
  | _ => false

def removing : LoopPoint Task → Option (Nat × Task)
  | .replayed id task _ | .finished id task => some (id, task)
  | _ => none

end LoopPoint

namespace ServiceWorker

/-- What survived is handled first: in order while the replay lasts, and all of it
before any new task. -/
def Ordered (worker : ServiceWorker Task) : Prop :=
  match worker.point with
  | .down => True
  | .replaying rest | .replay _ _ rest | .replayed _ _ rest => worker.started ++ rest = worker.surviving
  | .waiting | .received _ | .handling _ _ | .finished _ _ => worker.surviving <+: worker.started

end ServiceWorker

namespace JournalSystem

variable {system next : JournalSystem Task} {action : JournalAction Task} {service : ServiceName}

/-- No handler of a service with the trait's loop fails on a task that was recovered. -/
def Heeds (system : JournalSystem Task) : JournalAction Task → Prop
  | .finish service false => service.loop = .asyncService → (system.workers service).point.isReplay = false
  | _ => True

instance (system : JournalSystem Task) : (action : JournalAction Task) → Decidable (system.Heeds action)
  | .finish service false =>
    inferInstanceAs (Decidable (service.loop = .asyncService → (system.workers service).point.isReplay = false))
  | .finish _ true | .start _ | .next _ | .acknowledge _ | .receive _ _ | .persist _ | .crash => isTrue trivial

/-- The bookkeeping behind the promise. -/
structure Delivers (system : JournalSystem Task) : Prop where
  sublist : system.journal.rows.Sublist system.persisted
  ids : system.persisted.Pairwise fun first second => first.id < second.id
  fresh : ∀ row ∈ system.persisted, row.id < system.journal.nextId
  held : ∀ service, ∀ entry ∈ (system.workers service).point.entries, ⟨entry.1, service, entry.2⟩ ∈ system.persisted
  cleared : ∀ service entry, (system.workers service).point.removing = some entry →
    ⟨entry.1, service, entry.2⟩ ∈ system.succeeded
  kept : ∀ row ∈ system.persisted, row ∈ system.journal.rows ∨ row ∈ system.succeeded
  ordered : ∀ service, (system.workers service).Ordered

theorem delivers_init : Delivers (init : JournalSystem Task) where
  sublist := .slnil
  ids := .nil
  fresh := fun _ member => nomatch member
  held := fun _ _ member => nomatch member
  cleared := fun _ _ removing => nomatch removing
  kept := fun _ member => nomatch member
  ordered := fun _ => trivial

namespace Delivers

theorem eq_of_id (delivers : Delivers system) {first second : JournalRow Task} (left : first ∈ system.persisted)
    (right : second ∈ system.persisted) (same : first.id = second.id) : first = second := by
  by_contra different
  have : Std.Symm fun first second : JournalRow Task => first.id ≠ second.id := ⟨fun _ _ apart => apart.symm⟩
  exact (delivers.ids.imp Nat.ne_of_lt).forall left right different same

theorem setWorker (delivers : Delivers system) {worker : ServiceWorker Task}
    (held : ∀ entry ∈ worker.point.entries, ⟨entry.1, service, entry.2⟩ ∈ system.persisted)
    (cleared : ∀ entry, worker.point.removing = some entry → ⟨entry.1, service, entry.2⟩ ∈ system.succeeded)
    (ordered : worker.Ordered) : Delivers (system.setWorker service worker) where
  sublist := delivers.sublist
  ids := delivers.ids
  fresh := delivers.fresh
  held other := by
    by_cases same : other = service
    · subst same
      rw [setWorker_workers]
      exact held
    · rw [setWorker_workers_of_ne same]
      exact delivers.held other
  cleared other := by
    by_cases same : other = service
    · subst same
      rw [setWorker_workers]
      exact cleared
    · rw [setWorker_workers_of_ne same]
      exact delivers.cleared other
  kept := delivers.kept
  ordered other := by
    by_cases same : other = service
    · subst same
      rw [setWorker_workers]
      exact ordered
    · rw [setWorker_workers_of_ne same]
      exact delivers.ordered other

theorem note (delivers : Delivers system) (row : JournalRow Task) (ok : Bool) : Delivers (system.note row ok) where
  sublist := by simpa using delivers.sublist
  ids := by simpa using delivers.ids
  fresh := by simpa using delivers.fresh
  held := by simpa using delivers.held
  cleared other entry removing := by
    rw [note_workers] at removing
    exact mem_note_succeeded.mpr (.inl (delivers.cleared other entry removing))
  kept other member := by
    rw [note_persisted] at member
    rw [note_journal, mem_note_succeeded]
    exact (delivers.kept other member).imp_right .inl
  ordered := by simpa using delivers.ordered

theorem remove (delivers : Delivers system) {row : JournalRow Task} (stored : row ∈ system.persisted)
    (succeeded : row ∈ system.succeeded) : Delivers (system.remove row.id) where
  sublist := List.filter_sublist.trans delivers.sublist
  ids := delivers.ids
  fresh := delivers.fresh
  held := delivers.held
  cleared := delivers.cleared
  kept other member := by
    by_cases same : other.id = row.id
    · exact .inr (delivers.eq_of_id stored member same.symm ▸ succeeded)
    · refine (delivers.kept other member).imp_left fun present => ?_
      exact List.mem_filter.mpr ⟨present, by simpa using same⟩
  ordered := delivers.ordered

theorem store (delivers : Delivers system) (service : ServiceName) (task : Task) :
    Delivers (system.store service task) where
  sublist := delivers.sublist.append (.refl _)
  ids := by
    refine List.pairwise_append.mpr ⟨delivers.ids, List.pairwise_singleton _ _, ?_⟩
    intro row member last same
    rw [List.mem_singleton.mp same]
    exact delivers.fresh row member
  fresh row member := by
    rcases mem_snoc.mp member with old | new
    · exact Nat.lt_succ_of_lt (delivers.fresh row old)
    · rw [new]
      exact Nat.lt_succ_self _
  held other entry member := List.mem_append_left _ (delivers.held other entry member)
  cleared := delivers.cleared
  kept row member := by
    rcases List.mem_append.mp member with old | new
    · exact (delivers.kept row old).imp_left (List.mem_append_left _)
    · exact .inl (List.mem_append_right _ new)
  ordered := delivers.ordered

theorem recovered (delivers : Delivers system) :
    ∀ entry ∈ system.journal.recover service, ⟨entry.1, service, entry.2⟩ ∈ system.persisted := by
  intro entry member
  obtain ⟨row, present, rfl⟩ := List.mem_map.mp member
  obtain ⟨stored, own⟩ := List.mem_filter.mp present
  have same : row.service = service := by simpa using own
  rw [← same]
  exact delivers.sublist.subset stored

theorem here (delivers : Delivers system) {point : LoopPoint Task} (come : (system.workers service).point = point) :
    (∀ entry ∈ point.entries, ⟨entry.1, service, entry.2⟩ ∈ system.persisted) ∧
      (∀ entry, point.removing = some entry → ⟨entry.1, service, entry.2⟩ ∈ system.succeeded) ∧
      ServiceWorker.Ordered { system.workers service with point := point } := by
  subst come
  exact ⟨delivers.held service, delivers.cleared service, delivers.ordered service⟩

end Delivers

theorem Steps.delivers (steps : Steps system action next) (delivers : Delivers system) (heeds : system.Heeds action) :
    Delivers next := by
  cases steps with
  | @start service down =>
    exact delivers.setWorker delivers.recovered (fun _ removing => nomatch removing) rfl
  | @wait service point =>
    refine delivers.setWorker (fun _ member => nomatch member) (fun _ removing => nomatch removing) ?_
    have ordered : (system.workers service).started ++ [] = (system.workers service).surviving := by
      simpa only [ServiceWorker.Ordered, point] using delivers.ordered service
    rw [List.append_nil] at ordered
    exact ⟨[], by rw [List.append_nil]; exact ordered.symm⟩
  | @next service id task rest point =>
    obtain ⟨held, -, ordered⟩ := delivers.here point
    refine delivers.setWorker held (fun _ removing => nomatch removing) ?_
    show (_ ++ [(id, task)]) ++ rest = _
    rw [List.append_assoc]
    exact ordered
  | @replayed service ok id task rest point =>
    obtain ⟨held, -, ordered⟩ := delivers.here point
    refine (delivers.note ⟨id, service, task⟩ ok).setWorker ?_ ?_ ?_
    · rw [note_persisted]
      split
      · exact held
      · exact fun entry member => held entry (List.mem_cons_of_mem _ member)
    · -- The trait's loop removes the task after a failure too, which the condition rules out.
      intro entry removing
      split at removing
      · rename_i removes
        cases removing
        refine mem_note_succeeded.mpr (.inr ⟨?_, rfl⟩)
        cases ok with
        | true => rfl
        | false =>
          have async : service.loop = .asyncService := by
            cases loop : service.loop <;> rw [loop] at removes <;> first | rfl | cases removes
          have elsewhere := heeds async
          rw [point] at elsewhere
          cases elsewhere
      · cases removing
    · rw [note_workers]
      split <;> exact ordered
  | @handled service ok id task point =>
    obtain ⟨held, -, ordered⟩ := delivers.here point
    refine (delivers.note ⟨id, service, task⟩ ok).setWorker ?_ ?_ ?_
    · rw [note_persisted]
      split
      · exact held
      · exact fun _ member => nomatch member
    · intro entry removing
      split at removing
      · cases removing
        exact mem_note_succeeded.mpr (.inr ⟨‹_›, rfl⟩)
      · cases removing
    · rw [note_workers]
      split <;> exact ordered
  | @dropReplayed service id task rest point =>
    obtain ⟨held, cleared, ordered⟩ := delivers.here point
    refine (delivers.remove (held _ List.mem_cons_self) (cleared _ rfl)).setWorker ?_ (fun _ removing => nomatch removing) ordered
    exact fun entry member => held entry (List.mem_cons_of_mem _ member)
  | @dropFinished service id task point =>
    obtain ⟨held, cleared, ordered⟩ := delivers.here point
    exact (delivers.remove (held _ List.mem_cons_self) (cleared _ rfl)).setWorker (fun _ member => nomatch member)
      (fun _ removing => nomatch removing) ordered
  | @receive service task point =>
    obtain ⟨-, -, ordered⟩ := delivers.here point
    exact delivers.setWorker (fun _ member => nomatch member) (fun _ removing => nomatch removing) ordered
  | @persist service task point =>
    obtain ⟨-, -, ordered⟩ := delivers.here point
    refine (delivers.store service task).setWorker ?_ (fun _ removing => nomatch removing) ?_
    · intro entry member
      rw [List.mem_singleton.mp member]
      exact List.mem_append_right _ (List.mem_singleton.mpr rfl)
    · exact ordered.trans (List.prefix_append _ _)
  | crash =>
    exact ⟨delivers.sublist, delivers.ids, delivers.fresh, (fun _ _ member => nomatch member),
      (fun _ _ removing => nomatch removing), delivers.kept, fun _ => trivial⟩

/-- The service that an action belongs to. -/
def actor : JournalAction Task → Option ServiceName
  | .start service | .next service | .finish service _ | .acknowledge service | .receive service _ | .persist service =>
    some service
  | .crash => none

theorem rowsOf_acknowledge (delivers : Delivers system) {id : Nat} {task : Task}
    (stored : ⟨id, service, task⟩ ∈ system.persisted) {other : ServiceName} (different : other ≠ service) :
    (system.journal.acknowledge id).rowsOf other = system.journal.rowsOf other := by
  rw [TaskJournal.rowsOf, TaskJournal.rowsOf, TaskJournal.acknowledge, List.filter_filter]
  refine List.filter_congr fun row member => ?_
  by_cases own : row.service = other
  · have apart : row.id ≠ id := by
      intro same
      have equal := delivers.eq_of_id (delivers.sublist.subset member) stored same
      rw [equal] at own
      exact different own.symm
    simp [own, apart]
  · simp [own]

theorem Steps.rowsOf (steps : Steps system action next) (delivers : Delivers system) {other : ServiceName}
    (different : actor action ≠ some other) : next.journal.rowsOf other = system.journal.rowsOf other := by
  cases steps with
  | start | wait | next | receive | crash => rfl
  | replayed | handled => exact congrArg (TaskJournal.rowsOf · other) (note_journal _ _)
  | @dropReplayed service id task rest point =>
    have held := delivers.held service
    rw [point] at held
    exact rowsOf_acknowledge delivers (held _ List.mem_cons_self) fun same => different (congrArg some same.symm)
  | @dropFinished service id task point =>
    have held := delivers.held service
    rw [point] at held
    exact rowsOf_acknowledge delivers (held _ List.mem_cons_self) fun same => different (congrArg some same.symm)
  | @persist service task point =>
    have apart : service ≠ other := fun same => different (congrArg some same)
    show (system.journal.rows ++ [_]).filter _ = _
    rw [List.filter_append]
    simp [apart, TaskJournal.rowsOf]

theorem recover_eq [DecidableEq Task] (delivers : Delivers system) (service : ServiceName) :
    system.journal.recover service =
      (system.persisted.filter fun row => row ∈ system.journal.rows ∧ row.service = service).map
        fun row => (row.id, row.task) := by
  have distinct : system.persisted.Nodup :=
    delivers.ids.imp fun less same => absurd (congrArg JournalRow.id same) (Nat.ne_of_lt less)
  have rows : system.persisted.filter (· ∈ system.journal.rows) = system.journal.rows :=
    filter_mem_of_sublist delivers.sublist distinct
  rw [TaskJournal.recover, TaskJournal.rowsOf]
  conv_lhs => rw [← rows]
  rw [List.filter_filter]
  congr 1
  refine List.filter_congr fun row _ => ?_
  by_cases own : row.service = service <;> simp [own]

/-- One recovered task is handled. -/
def replayOne (service : ServiceName) (ok : Bool) : List (JournalAction Task) :=
  .next service :: .finish service ok :: if service.loop.removesReplayed ok then [.acknowledge service] else []

/-- A replay in which the handlers end in the given way. -/
def replayActions (service : ServiceName) : List Bool → List (JournalAction Task)
  | [] => [.next service]
  | ok :: rest => replayOne service ok ++ replayActions service rest

theorem exec_replayOne {id : Nat} {task : Task} {rest : List (Nat × Task)}
    (point : (system.workers service).point = .replaying ((id, task) :: rest)) (ok : Bool) :
    ∃ handled, exec step system (replayOne service ok) = some handled ∧
      (handled.workers service).point = .replaying rest ∧
      (handled.workers service).started = (system.workers service).started ++ [(id, task)] := by
  by_cases removes : service.loop.removesReplayed ok = true
  · refine ⟨_, by simp [replayOne, exec, step, point, begin, setPoint, removes]; rfl, ?_, ?_⟩ <;> simp
  · refine ⟨_, by simp [replayOne, exec, step, point, begin, setPoint, removes]; rfl, ?_, ?_⟩ <;> simp

theorem exec_replayActions {rest : List (Nat × Task)} (point : (system.workers service).point = .replaying rest)
    (outcomes : List Bool) (each : outcomes.length = rest.length) :
    ∃ final, exec step system (replayActions service outcomes) = some final ∧
      (final.workers service).point = .waiting ∧
      (final.workers service).started = (system.workers service).started ++ rest := by
  induction outcomes generalizing system rest with
  | nil =>
    have done : rest = [] := List.length_eq_zero_iff.mp each.symm
    subst done
    refine ⟨system.setPoint service .waiting, by simp [replayActions, exec, step, point], ?_, ?_⟩
    · rw [setPoint, setWorker_workers]
    · rw [setPoint, setWorker_workers, List.append_nil]
  | cons ok outcomes ih =>
    obtain ⟨⟨id, task⟩, rest, rfl⟩ : ∃ entry tail, rest = entry :: tail := by
      cases rest with
      | nil => cases each
      | cons entry tail => exact ⟨entry, tail, rfl⟩
    obtain ⟨handled, performed, replaying, started⟩ := exec_replayOne point ok
    obtain ⟨final, finished, waiting, all⟩ := ih replaying (Nat.succ.inj each)
    refine ⟨final, ?_, waiting, ?_⟩
    · rw [replayActions, exec_append, performed, Option.bind_some, finished]
    · rw [all, started, List.append_assoc, List.singleton_append]

/-- The promise of the journal in a state. -/
structure AtLeastOnce [DecidableEq Task] (system : JournalSystem Task) : Prop where
  /-- A task leaves the journal only after a handler returned `Ok` for it. -/
  kept : ∀ row ∈ system.persisted, row ∈ system.journal.rows ∨ row ∈ system.succeeded
  /-- A start finds the surviving tasks of the service, in the order they were persisted. -/
  recovers : ∀ service next, system.step (.start service) = some next →
    (next.workers service).surviving =
      (system.persisted.filter fun row => row ∈ system.journal.rows ∧ row.service = service).map
        fun row => (row.id, row.task)
  /-- They are handled in this order before any new task, -/
  ordered : ∀ service, (system.workers service).Ordered
  /-- and all of them, however the handlers end. -/
  replays : ∀ service rest, (system.workers service).point = .replaying rest →
    ∀ outcomes : List Bool, outcomes.length = rest.length → ∃ final,
      exec step system (replayActions service outcomes) = some final ∧
        (final.workers service).point = .waiting ∧
        (final.workers service).started = (system.workers service).surviving
  /-- No service removes a task of another. -/
  apart : ∀ action next, system.step action = some next → ∀ service, actor action ≠ some service →
    next.journal.rowsOf service = system.journal.rowsOf service

theorem Delivers.atLeastOnce [DecidableEq Task] (delivers : Delivers system) : AtLeastOnce system where
  kept := delivers.kept
  recovers service next taken := by
    have steps := steps_of taken
    cases steps
    rw [setWorker_workers]
    exact recover_eq delivers service
  ordered := delivers.ordered
  replays service rest point outcomes each := by
    obtain ⟨final, performed, waiting, started⟩ := exec_replayActions point outcomes each
    refine ⟨final, performed, waiting, started.trans ?_⟩
    simpa only [ServiceWorker.Ordered, point] using delivers.ordered service
  apart action next taken service different := (steps_of taken).rowsOf delivers different

/-- Delivery at least once, in every run in which no handler with the trait's loop
fails on a recovered task. -/
theorem run_atLeastOnce [DecidableEq Task] {actions : List (JournalAction Task)} {final : JournalSystem Task}
    (run : Run step Heeds init actions final) : AtLeastOnce final := by
  apply Delivers.atLeastOnce
  apply run.invariant (p := Delivers) delivers_init
  intro system action next delivers heeds taken
  exact (steps_of taken).delivers delivers heeds

/-- A task is received and stored. -/
def take (service : ServiceName) (task : Nat) : List (JournalAction Nat) := [.receive service task, .persist service]

/-- The process ends while a task is handled; the next one handles it again. -/
def crashThenReplay : List (JournalAction Nat) :=
  [.start .gitHub, .next .gitHub] ++ take .gitHub 7 ++ [.crash, .start .gitHub] ++ replayActions .gitHub [true] ++
    take .gitHub 8

theorem crashThenReplay_atLeastOnce : ∃ final : JournalSystem Nat,
    Run step Heeds init crashThenReplay final ∧ final.succeeded.length = 1 ∧ AtLeastOnce final :=
  exists_run_and_of_checkRun (by decide) fun _ run => run_atLeastOnce run

/-- A task fails, and fails again when it is recovered. -/
def failTwice : List (JournalAction Nat) :=
  [.start .gitHub, .next .gitHub] ++ take .gitHub 7 ++ [.finish .gitHub false, .crash, .start .gitHub] ++
    replayActions .gitHub [false]

/-- The task is gone although no handler has succeeded. -/
theorem failTwice_not_atLeastOnce : ¬ ∀ (actions : List (JournalAction Nat)) (final : JournalSystem Nat),
    AnyRun step init actions final → AtLeastOnce final := by
  intro always
  obtain ⟨final, run, row, stored, removed, failed⟩ : ∃ final : JournalSystem Nat,
      AnyRun step init failTwice final ∧
        ∃ row ∈ final.persisted, row ∉ final.journal.rows ∧ row ∉ final.succeeded :=
    exists_run_of_exec (by decide)
  rcases (always _ _ run).kept row stored with kept | succeeded
  · exact removed kept
  · exact failed succeeded

end JournalSystem

end EkaCI
