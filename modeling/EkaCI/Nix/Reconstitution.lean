import EkaCI.Lib.Run
import Mathlib.Data.Finset.Erase
import Mathlib.Data.Finset.Insert

/-! Drv files that are no longer in the store are made again by evaluating the job that they are
from. A call that finds the evaluation under way waits for a while and looks again. -/

namespace EkaCI

open Lib

structure JobSetInfo where
  sha : String
  job : String
  owner : String
  repoName : String
  deriving DecidableEq

/-- What an evaluation is known by while it is under way. -/
def JobSetInfo.trackerKey (info : JobSetInfo) : String := info.sha ++ "/" ++ info.job

/-- In seconds. -/
def waitForInFlight : Nat := 10

inductive CallResult where
  | found (exists_ : Bool)
  | failed
  deriving DecidableEq

/-- How far a call has come. -/
inductive ReconstitutePhase where
  | looking
  | evaluating
  | releasing (result : CallResult)
  | sleeping (wakesAt : Nat) (behind : Nat)
  | returned (result : CallResult)
  deriving DecidableEq

namespace ReconstitutePhase

/-- The key is the call's. -/
def Holds : ReconstitutePhase → Prop
  | evaluating | releasing _ => True
  | _ => False

/-- The evaluation of the call has begun, and may have ended. -/
def Begun : ReconstitutePhase → Prop
  | evaluating | releasing _ | returned _ => True
  | _ => False

/-- The store will still be looked at. -/
def Pending : ReconstitutePhase → Prop
  | looking | evaluating | sleeping _ _ => True
  | _ => False

def Answers (result : CallResult) : ReconstitutePhase → Prop
  | releasing given | returned given => given = result
  | _ => False

end ReconstitutePhase

variable {DrvId : Type} [DecidableEq DrvId]

/-- A call of `reconstitute_drv`, with the jobset that the database names for its drv. -/
structure ReconstituteCall (DrvId : Type) where
  drv : DrvId
  context : Option JobSetInfo
  phase : ReconstitutePhase
  /-- The evaluation that was under way when the call was made. -/
  during : Option Nat
  /-- That evaluation has made the drv since. -/
  recreated : Bool
  deriving DecidableEq

namespace ReconstituteCall

def key (call : ReconstituteCall DrvId) : Option String := call.context.map JobSetInfo.trackerKey

end ReconstituteCall

/-- The keys that are taken, each with the call that has taken it. -/
structure Reconstitution (DrvId : Type) where
  now : Nat
  store : Finset DrvId
  inFlight : String → Option Nat
  calls : Nat → Option (ReconstituteCall DrvId)

inductive ReconstituteAction (DrvId : Type) where
  | call (id : Nat) (drv : DrvId) (context : Option JobSetInfo)
  /-- The database has answered, and the key is tried. -/
  | proceed (id : Nat)
  | recreate (id : Nat) (drv : DrvId)
  | finish (id : Nat) (succeeds : Bool)
  | release (id : Nat)
  | wake (id : Nat)
  | advance (time : Nat)
  | create (drv : DrvId)
  | collect (drv : DrvId)

namespace Reconstitution

def start : Reconstitution DrvId := ⟨0, ∅, fun _ => none, fun _ => none⟩

/-- The call that evaluates under a key. -/
def evaluator (state : Reconstitution DrvId) (key : String) : Option Nat :=
  (state.inFlight key).filter fun id => (state.calls id).any fun call => call.phase = .evaluating

def setCall (state : Reconstitution DrvId) (id : Nat) (call : ReconstituteCall DrvId) : Reconstitution DrvId :=
  { state with calls := Function.update state.calls id (some call) }

omit [DecidableEq DrvId] in
theorem setCall_calls_self (state : Reconstitution DrvId) (id : Nat) (call : ReconstituteCall DrvId) :
    (state.setCall id call).calls id = some call :=
  Function.update_self ..

omit [DecidableEq DrvId] in
theorem setCall_calls_of_ne (state : Reconstitution DrvId) {id other : Nat} {call : ReconstituteCall DrvId}
    (different : other ≠ id) : (state.setCall id call).calls other = state.calls other :=
  Function.update_of_ne different ..

/-- A call that has only been made. -/
def asked (state : Reconstitution DrvId) (drv : DrvId) (context : Option JobSetInfo) : ReconstituteCall DrvId where
  drv := drv
  context := context
  phase := .looking
  during := context.bind fun info => state.evaluator info.trackerKey
  recreated := false

def setPhase (state : Reconstitution DrvId) (id : Nat) (call : ReconstituteCall DrvId) (phase : ReconstitutePhase) :
    Reconstitution DrvId :=
  state.setCall id { call with phase := phase }

def setKey (state : Reconstitution DrvId) (key : String) (holder : Option Nat) : Reconstitution DrvId :=
  { state with inFlight := Function.update state.inFlight key holder }

/-- The calls that were made during the evaluation, and whose drv has now been made. -/
def mark (id : Nat) (drv : DrvId) (call : ReconstituteCall DrvId) : ReconstituteCall DrvId :=
  { call with recreated := call.recreated || decide (call.during = some id ∧ call.drv = drv) }

def recreated (state : Reconstitution DrvId) (id : Nat) (drv : DrvId) : Reconstitution DrvId :=
  { state with store := insert drv state.store, calls := fun other => (state.calls other).map (mark id drv) }

def tryAcquire (state : Reconstitution DrvId) (id : Nat) (call : ReconstituteCall DrvId) (info : JobSetInfo) :
    Reconstitution DrvId :=
  match state.inFlight info.trackerKey with
  | some holder => state.setPhase id call (.sleeping (state.now + waitForInFlight) holder)
  | none => (state.setPhase id call .evaluating).setKey info.trackerKey (some id)

def step (state : Reconstitution DrvId) : ReconstituteAction DrvId → Option (Reconstitution DrvId)
  | .call id drv context =>
    match state.calls id with
    | some _ => none
    | none => some (state.setCall id (state.asked drv context))
  | .proceed id =>
    (state.calls id).bind fun call =>
      match call.phase, call.context with
      | .looking, none => some (state.setPhase id call (.returned (.found false)))
      | .looking, some info => some (state.tryAcquire id call info)
      | _, _ => none
  | .recreate id drv =>
    (state.calls id).bind fun call =>
      match call.phase with
      | .evaluating => some (state.recreated id drv)
      | _ => none
  | .finish id succeeds =>
    (state.calls id).bind fun call =>
      match call.phase with
      | .evaluating =>
        some (state.setPhase id call (.releasing (if succeeds then .found (call.drv ∈ state.store) else .failed)))
      | _ => none
  | .release id =>
    (state.calls id).bind fun call =>
      match call.phase, call.context with
      | .releasing result, some info => some ((state.setPhase id call (.returned result)).setKey info.trackerKey none)
      | _, _ => none
  | .wake id =>
    (state.calls id).bind fun call =>
      match call.phase with
      | .sleeping wakesAt _ =>
        if wakesAt ≤ state.now then some (state.setPhase id call (.returned (.found (call.drv ∈ state.store)))) else none
      | _ => none
  | .advance time => if state.now ≤ time then some { state with now := time } else none
  | .create drv => some { state with store := insert drv state.store }
  | .collect drv => some { state with store := state.store.erase drv }

/-- A taken key is that of the same job of the same repository, a call that wakes up finds the
evaluation ended that was under way when it was made, and no drv that is waited for is taken out of
the store. -/
def Calm (state : Reconstitution DrvId) : ReconstituteAction DrvId → Prop
  | .proceed id => ∀ call info holder other, state.calls id = some call → call.context = some info →
      state.inFlight info.trackerKey = some holder → state.calls holder = some other → other.context = some info
  | .wake id => ∀ call evaluation ran, state.calls id = some call → call.during = some evaluation →
      state.calls evaluation = some ran → ran.phase ≠ .evaluating
  | .collect drv => ∀ id call, state.calls id = some call → call.drv = drv → ¬ call.phase.Pending
  | _ => True

/-- One evaluation of a job at a time, no call behind the evaluation of another one, no key with a
call that has returned, and nothing is said to be missing that is made by the evaluation waited for. -/
structure Waited (state : Reconstitution DrvId) : Prop where
  single : ∀ first second one other, state.calls first = some one → state.calls second = some other →
    one.phase = .evaluating → other.phase = .evaluating → one.context = other.context → first = second
  apart : ∀ id call wakesAt holder, state.calls id = some call → call.phase = .sleeping wakesAt holder →
    ∃ other, state.calls holder = some other ∧ other.context = call.context
  released : ∀ key id, state.inFlight key = some id →
    ∃ call, state.calls id = some call ∧ call.key = some key ∧ call.phase.Holds
  awaited : ∀ id call, state.calls id = some call → call.phase = .returned (.found false) → call.recreated = false

structure CallFits (state : Reconstitution DrvId) (id : Nat) (call : ReconstituteCall DrvId) : Prop where
  held : call.phase.Holds → ∃ key, call.key = some key ∧ state.inFlight key = some id
  earlier : ∀ evaluation, call.during = some evaluation → evaluation ≠ id ∧
    ∃ ran key, state.calls evaluation = some ran ∧ ran.key = some key ∧ call.key = some key ∧ ran.phase.Begun
  behind : ∀ wakesAt holder, call.phase = .sleeping wakesAt holder →
    ∃ other, state.calls holder = some other ∧ other.context = call.context
  marked : call.recreated = true → call.during ≠ none
  stored : call.recreated = true → call.phase.Pending → call.drv ∈ state.store
  answered : call.phase.Answers (.found false) → call.recreated = false ∧
    ∀ evaluation ran, call.during = some evaluation → state.calls evaluation = some ran → ran.phase ≠ .evaluating

structure Consistent (state : Reconstitution DrvId) : Prop where
  released : ∀ key id, state.inFlight key = some id →
    ∃ call, state.calls id = some call ∧ call.key = some key ∧ call.phase.Holds
  fits : ∀ id call, state.calls id = some call → state.CallFits id call

variable {state next : Reconstitution DrvId}

omit [DecidableEq DrvId] in
theorem Consistent.waited (consistent : state.Consistent) : state.Waited where
  single first second one other foundOne foundOther evaluates others same := by
    obtain ⟨key, own, taken⟩ := (consistent.fits first one foundOne).held (by rw [evaluates]; trivial)
    obtain ⟨key', own', taken'⟩ := (consistent.fits second other foundOther).held (by rw [others]; trivial)
    rw [ReconstituteCall.key] at own own'
    rw [same, own'] at own
    cases own
    exact Option.some.inj (taken.symm.trans taken')
  apart id call wakesAt holder found sleeps := (consistent.fits id call found).behind wakesAt holder sleeps
  released := consistent.released
  awaited id call found returned := ((consistent.fits id call found).answered (by rw [returned]; rfl)).1

omit [DecidableEq DrvId] in
theorem consistent_start : (start : Reconstitution DrvId).Consistent where
  released _ _ taken := by cases taken
  fits _ _ found := by cases found

/-- One call goes on to another phase, and no evaluation begins a second time. -/
structure Advances (state next : Reconstitution DrvId) (target : Nat) (old : ReconstituteCall DrvId) (phase : ReconstitutePhase) :
    Prop where
  found : state.calls target = some old
  calls : next.calls = Function.update state.calls target (some { old with phase := phase })
  store : next.store = state.store
  once : old.phase.Begun → phase.Begun ∧ phase ≠ .evaluating

section Advance

variable {target id : Nat} {old call : ReconstituteCall DrvId} {phase : ReconstitutePhase}

omit [DecidableEq DrvId]

theorem Advances.self (advances : state.Advances next target old phase) :
    next.calls target = some { old with phase := phase } := by
  rw [advances.calls, Function.update_self]

theorem Advances.other (advances : state.Advances next target old phase) (different : id ≠ target) :
    next.calls id = state.calls id := by
  rw [advances.calls, Function.update_of_ne different]

theorem Advances.context (advances : state.Advances next target old phase) (found : state.calls id = some call) :
    ∃ after, next.calls id = some after ∧ after.context = call.context ∧
      (call.phase.Begun → after.phase.Begun ∧ (after.phase = .evaluating → call.phase = .evaluating)) := by
  by_cases same : id = target
  · subst same
    have known : old = call := Option.some.inj (advances.found.symm.trans found)
    subst known
    refine ⟨_, advances.self, rfl, fun begun => ⟨(advances.once begun).1, fun evaluates => ?_⟩⟩
    exact absurd evaluates (advances.once begun).2
  · exact ⟨call, (advances.other same).trans found, rfl, fun begun => ⟨begun, fun evaluates => evaluates⟩⟩

theorem CallFits.kept (fits : state.CallFits id call) (advances : state.Advances next target old phase) :
    (∀ evaluation, call.during = some evaluation → evaluation ≠ id ∧
      ∃ ran key, next.calls evaluation = some ran ∧ ran.key = some key ∧ call.key = some key ∧ ran.phase.Begun) ∧
    (∀ wakesAt holder, call.phase = .sleeping wakesAt holder →
      ∃ other, next.calls holder = some other ∧ other.context = call.context) ∧
    ∀ evaluation, call.during = some evaluation →
      (∀ ran, state.calls evaluation = some ran → ran.phase ≠ .evaluating) →
        ∀ ran, next.calls evaluation = some ran → ran.phase ≠ .evaluating := by
  refine ⟨fun evaluation known => ?_, fun wakesAt holder sleeps => ?_, fun evaluation known ended ran found => ?_⟩
  · obtain ⟨different, ran, key, found, named, own, begun⟩ := fits.earlier evaluation known
    obtain ⟨after, later, context, keeps⟩ := advances.context found
    refine ⟨different, after, key, later, ?_, own, (keeps begun).1⟩
    rw [ReconstituteCall.key, context]
    exact named
  · obtain ⟨other, found, same⟩ := fits.behind wakesAt holder sleeps
    obtain ⟨after, later, context, -⟩ := advances.context found
    exact ⟨after, later, context.trans same⟩
  · obtain ⟨-, before, key, was, -, -, begun⟩ := fits.earlier evaluation known
    obtain ⟨after, later, -, keeps⟩ := advances.context was
    have same : after = ran := Option.some.inj (later.symm.trans found)
    subst same
    exact fun evaluates => ended before was ((keeps begun).2 evaluates)

theorem CallFits.other (fits : state.CallFits id call) (advances : state.Advances next target old phase)
    (taken : ∀ key, state.inFlight key = some id → next.inFlight key = some id) : next.CallFits id call := by
  obtain ⟨earlier, behind, ended⟩ := fits.kept advances
  refine ⟨fun holds => ?_, earlier, behind, fits.marked, fun marked pending => ?_, fun answers => ?_⟩
  · obtain ⟨key, own, held⟩ := fits.held holds
    exact ⟨key, own, taken key held⟩
  · rw [advances.store]
    exact fits.stored marked pending
  · obtain ⟨unmarked, over_⟩ := fits.answered answers
    exact ⟨unmarked, fun evaluation ran known => ended evaluation known (fun ran => over_ evaluation ran known) ran⟩

theorem Consistent.advance (consistent : state.Consistent) (advances : state.Advances next target old phase)
    (released : ∀ key id, next.inFlight key = some id →
      ∃ call, next.calls id = some call ∧ call.key = some key ∧ call.phase.Holds)
    (taken : ∀ id key, id ≠ target → state.inFlight key = some id → next.inFlight key = some id)
    (own : next.CallFits target { old with phase := phase }) : next.Consistent where
  released := released
  fits id call found := by
    by_cases same : id = target
    · subst same
      have known : { old with phase := phase } = call := Option.some.inj (advances.self.symm.trans found)
      rw [← known]
      exact own
    · rw [advances.other same] at found
      exact (consistent.fits id call found).other advances fun key => taken id key same

theorem Advances.released (advances : state.Advances next target old phase) (consistent : state.Consistent)
    (keeps : old.phase.Holds → phase.Holds) {key : String} (taken : state.inFlight key = some id) :
    ∃ call, next.calls id = some call ∧ call.key = some key ∧ call.phase.Holds := by
  obtain ⟨call, found, own, holds⟩ := consistent.released key id taken
  by_cases same : id = target
  · subst same
    have known : old = call := Option.some.inj (advances.found.symm.trans found)
    subst known
    exact ⟨_, advances.self, own, keeps holds⟩
  · exact ⟨call, (advances.other same).trans found, own, holds⟩

theorem CallFits.ended (fits : state.CallFits id call) (consistent : state.Consistent) (holds : call.phase.Holds) :
    ∀ evaluation ran, call.during = some evaluation → state.calls evaluation = some ran → ran.phase ≠ .evaluating := by
  intro evaluation ran known found evaluates
  obtain ⟨different, before, key, was, named, own, -⟩ := fits.earlier evaluation known
  have same : before = ran := Option.some.inj (was.symm.trans found)
  subst same
  obtain ⟨key', own', taken⟩ := fits.held holds
  obtain ⟨key'', named', taken'⟩ := (consistent.fits evaluation before was).held (by rw [evaluates]; trivial)
  rw [own] at own'
  rw [named] at named'
  cases own'
  cases named'
  exact different (Option.some.inj (taken'.symm.trans taken))

end Advance

section Steps

variable {id : Nat} {call : ReconstituteCall DrvId} {phase : ReconstitutePhase}

section Kept

omit [DecidableEq DrvId]

@[simp] theorem setKey_inFlight_self (state : Reconstitution DrvId) (key : String) (holder : Option Nat) :
    (state.setKey key holder).inFlight key = holder := Function.update_self ..

theorem setKey_inFlight_of_ne (state : Reconstitution DrvId) {key other : String} (different : other ≠ key)
    (holder : Option Nat) : (state.setKey key holder).inFlight other = state.inFlight other :=
  Function.update_of_ne different ..

theorem setPhase_advances (found : state.calls id = some call)
    (once : call.phase.Begun → phase.Begun ∧ phase ≠ .evaluating) :
    state.Advances (state.setPhase id call phase) id call phase :=
  ⟨found, rfl, rfl, once⟩

theorem Consistent.setPhase (consistent : state.Consistent) (found : state.calls id = some call)
    (once : call.phase.Begun → phase.Begun ∧ phase ≠ .evaluating) (holds : call.phase.Holds ↔ phase.Holds)
    (behind : ∀ wakesAt holder, phase = .sleeping wakesAt holder →
      ∃ other, state.calls holder = some other ∧ other.context = call.context)
    (pending : phase.Pending → call.phase.Pending)
    (answered : phase.Answers (.found false) → call.recreated = false ∧
      ∀ evaluation ran, call.during = some evaluation → state.calls evaluation = some ran → ran.phase ≠ .evaluating) :
    (state.setPhase id call phase).Consistent := by
  have advances := setPhase_advances found once
  have fits := consistent.fits id call found
  obtain ⟨earlier, -, ended⟩ := fits.kept advances
  refine consistent.advance advances (fun key id taken => advances.released consistent holds.mp taken)
    (fun _ _ _ taken => taken) ⟨fun own => fits.held (holds.mpr own), earlier, ?_, fits.marked, ?_, ?_⟩
  · intro wakesAt holder sleeps
    obtain ⟨other, known, same⟩ := behind wakesAt holder sleeps
    obtain ⟨after, later, context, -⟩ := advances.context known
    exact ⟨after, later, context.trans same⟩
  · exact fun marked waits => fits.stored marked (pending waits)
  · intro answers
    obtain ⟨unmarked, over_⟩ := answered answers
    exact ⟨unmarked, fun evaluation ran known => ended evaluation known (fun ran => over_ evaluation ran known) ran⟩

theorem Consistent.acquire (consistent : state.Consistent) (found : state.calls id = some call)
    (looks : call.phase = .looking) {info : JobSetInfo} (context : call.context = some info)
    (free : state.inFlight info.trackerKey = none) :
    ((state.setPhase id call .evaluating).setKey info.trackerKey (some id)).Consistent := by
  have fits := consistent.fits id call found
  have advances : state.Advances ((state.setPhase id call .evaluating).setKey info.trackerKey (some id)) id call .evaluating :=
    ⟨found, rfl, rfl, fun begun => by rw [looks] at begun; exact begun.elim⟩
  have key : call.key = some info.trackerKey := by rw [ReconstituteCall.key, context]; rfl
  obtain ⟨earlier, -, -⟩ := fits.kept advances
  refine consistent.advance advances (fun name other taken => ?_) (fun other name _ taken => ?_)
    ⟨fun _ => ⟨info.trackerKey, key, setKey_inFlight_self ..⟩, earlier, nofun, fits.marked, ?_, fun answers => answers.elim⟩
  · by_cases same : name = info.trackerKey
    · subst same
      rw [setKey_inFlight_self] at taken
      cases taken
      exact ⟨_, advances.self, key, trivial⟩
    · rw [setKey_inFlight_of_ne _ same] at taken
      exact advances.released consistent (fun _ => trivial) taken
  · have different : name ≠ info.trackerKey := by
      rintro rfl
      rw [free] at taken
      cases taken
    rw [setKey_inFlight_of_ne _ different]
    exact taken
  · intro marked _
    exact fits.stored marked (by rw [looks]; trivial)

theorem Consistent.release (consistent : state.Consistent) (found : state.calls id = some call) {result : CallResult}
    (releases : call.phase = .releasing result) {info : JobSetInfo} (context : call.context = some info) :
    ((state.setPhase id call (.returned result)).setKey info.trackerKey none).Consistent := by
  have fits := consistent.fits id call found
  have advances : state.Advances ((state.setPhase id call (.returned result)).setKey info.trackerKey none) id call
      (.returned result) :=
    ⟨found, rfl, rfl, fun _ => ⟨trivial, nofun⟩⟩
  have key : call.key = some info.trackerKey := by rw [ReconstituteCall.key, context]; rfl
  have own : state.inFlight info.trackerKey = some id := by
    obtain ⟨name, named, taken⟩ := fits.held (by rw [releases]; trivial)
    rw [key] at named
    cases named
    exact taken
  obtain ⟨earlier, -, ended⟩ := fits.kept advances
  refine consistent.advance advances (fun name other taken => ?_) (fun other name different taken => ?_)
    ⟨fun holds => holds.elim, earlier, nofun, fits.marked, fun _ pending => pending.elim, fun answers => ?_⟩
  · have apart : name ≠ info.trackerKey := by
      rintro rfl
      rw [setKey_inFlight_self] at taken
      cases taken
    rw [setKey_inFlight_of_ne _ apart] at taken
    obtain ⟨holder, known, named, holds⟩ := consistent.released name other taken
    have different : other ≠ id := by
      rintro rfl
      have same : call = holder := Option.some.inj (found.symm.trans known)
      subst same
      rw [key] at named
      exact apart (Option.some.inj named).symm
    exact ⟨holder, (advances.other different).trans known, named, holds⟩
  · have apart : name ≠ info.trackerKey := by
      rintro rfl
      exact different (Option.some.inj (taken.symm.trans own))
    rw [setKey_inFlight_of_ne _ apart]
    exact taken
  · obtain ⟨unmarked, over_⟩ := fits.answered (by rw [releases]; exact answers)
    exact ⟨unmarked, fun evaluation ran known => ended evaluation known (fun ran => over_ evaluation ran known) ran⟩

theorem Consistent.restore (consistent : state.Consistent) {store : Finset DrvId} {now : Nat}
    (kept : ∀ id call, state.calls id = some call → call.phase.Pending → call.drv ∈ state.store → call.drv ∈ store) :
    Consistent { state with store := store, now := now } where
  released := consistent.released
  fits id call found := by
    obtain ⟨held, earlier, behind, marked, stored, answered⟩ := consistent.fits id call found
    exact ⟨held, earlier, behind, marked, fun isMarked waits => kept id call found waits (stored isMarked waits), answered⟩

theorem Consistent.make (consistent : state.Consistent) (fresh : state.calls id = none) (drv : DrvId)
    (context : Option JobSetInfo) :
    (state.setCall id (state.asked drv context)).Consistent := by
  have other {before : Nat} {known : ReconstituteCall DrvId} (found : state.calls before = some known) (value) :
      before ≠ id ∧ Function.update state.calls id value before = some known := by
    have different : before ≠ id := by
      rintro rfl
      rw [fresh] at found
      cases found
    exact ⟨different, (Function.update_of_ne different ..).trans found⟩
  refine ⟨fun key holder taken => ?_, fun place known found => ?_⟩
  · obtain ⟨known, found, own, holds⟩ := consistent.released key holder taken
    exact ⟨known, (other found _).2, own, holds⟩
  · by_cases same : place = id
    · subst same
      rw [setCall_calls_self] at found
      cases found
      refine ⟨fun holds => holds.elim, fun evaluation known => ?_, nofun, nofun, nofun, fun answers => answers.elim⟩
      obtain ⟨info, named, evaluates⟩ := Option.bind_eq_some_iff.mp known
      obtain ⟨taken, running⟩ := Option.filter_eq_some_iff.mp evaluates
      obtain ⟨ran, was, own, -⟩ := consistent.released _ _ taken
      rw [was, Option.any_some, decide_eq_true_eq] at running
      refine ⟨(other was none).1, ran, info.trackerKey, (other was _).2, own, ?_, by rw [running]; trivial⟩
      rw [ReconstituteCall.key, named]
      rfl
    · rw [setCall_calls_of_ne _ same] at found
      obtain ⟨held, earlier, behind, marked, stored, answered⟩ := consistent.fits place known found
      refine ⟨held, fun evaluation during => ?_, fun wakesAt holder sleeps => ?_, marked, stored, fun answers => ?_⟩
      · obtain ⟨different, ran, key, was, own, mine, begun⟩ := earlier evaluation during
        exact ⟨different, ran, key, (other was _).2, own, mine, begun⟩
      · obtain ⟨before, was, alike⟩ := behind wakesAt holder sleeps
        exact ⟨before, (other was _).2, alike⟩
      · obtain ⟨unmarked, over_⟩ := answered answers
        refine ⟨unmarked, fun evaluation ran during later => ?_⟩
        obtain ⟨-, before, -, was, -⟩ := earlier evaluation during
        have same : before = ran := Option.some.inj ((other was _).2.symm.trans later)
        subst same
        exact over_ evaluation before during was

theorem CallFits.unmarked (fits : state.CallFits id call) (pending : call.phase.Pending) (missing : call.drv ∉ state.store) :
    call.recreated = false :=
  Bool.eq_false_iff.mpr fun marked => missing (fits.stored marked pending)

theorem Consistent.giveUp (consistent : state.Consistent) (found : state.calls id = some call)
    (looks : call.phase = .looking) (unknown : call.context = none) :
    (state.setPhase id call (.returned (.found false))).Consistent := by
  have fits := consistent.fits id call found
  have during : call.during = none := by
    refine Option.eq_none_iff_forall_ne_some.mpr fun evaluation known => ?_
    obtain ⟨-, -, key, -, -, own, -⟩ := fits.earlier evaluation known
    rw [ReconstituteCall.key, unknown] at own
    cases own
  refine consistent.setPhase found (fun begun => ?_) ?_ nofun (fun pending => pending.elim) fun _ => ⟨?_, ?_⟩
  · rw [looks] at begun
    exact begun.elim
  · rw [looks]
    exact Iff.rfl
  · exact Bool.eq_false_iff.mpr fun marked => fits.marked marked during
  · intro evaluation ran known
    rw [during] at known
    cases known

theorem Consistent.sleep (consistent : state.Consistent) (found : state.calls id = some call)
    (looks : call.phase = .looking) {holder wakesAt : Nat} {other : ReconstituteCall DrvId}
    (was : state.calls holder = some other) (alike : other.context = call.context) :
    (state.setPhase id call (.sleeping wakesAt holder)).Consistent := by
  refine consistent.setPhase found (fun begun => ?_) ?_ (fun wakesAt behind sleeps => ?_) (fun _ => ?_)
    fun answers => answers.elim
  · rw [looks] at begun
    exact begun.elim
  · rw [looks]
    exact Iff.rfl
  · cases sleeps
    exact ⟨other, was, alike⟩
  · rw [looks]
    trivial

end Kept

theorem Consistent.recreate (consistent : state.Consistent) (found : state.calls id = some call)
    (evaluates : call.phase = .evaluating) (drv : DrvId) :
    (state.recreated id drv).Consistent := by
  refine ⟨fun key holder taken => ?_, fun place known later => ?_⟩
  · obtain ⟨held, was, own, holds⟩ := consistent.released key holder taken
    exact ⟨mark id drv held, Option.map_eq_some_iff.mpr ⟨held, was, rfl⟩, own, holds⟩
  · obtain ⟨before, was, rfl⟩ := Option.map_eq_some_iff.mp later
    obtain ⟨held, earlier, behind, marked, stored, answered⟩ := consistent.fits place before was
    refine ⟨held, fun evaluation during => ?_, fun wakesAt holder sleeps => ?_, fun isMarked => ?_, fun isMarked waits => ?_,
      fun answers => ?_⟩
    · obtain ⟨different, ran, key, known, own, mine, begun⟩ := earlier evaluation during
      exact ⟨different, mark id drv ran, key, Option.map_eq_some_iff.mpr ⟨ran, known, rfl⟩, own, mine, begun⟩
    · obtain ⟨other, known, alike⟩ := behind wakesAt holder sleeps
      exact ⟨mark id drv other, Option.map_eq_some_iff.mpr ⟨other, known, rfl⟩, alike⟩
    · rcases Bool.or_eq_true_iff.mp isMarked with already | now
      · exact marked already
      · have during : before.during = some id := (of_decide_eq_true now).1
        exact fun none => by rw [mark] at none; rw [during] at none; cases none
    · rcases Bool.or_eq_true_iff.mp isMarked with already | now
      · exact Finset.mem_insert_of_mem (stored already waits)
      · exact Finset.mem_insert.mpr (.inl (of_decide_eq_true now).2)
    · obtain ⟨unmarked, over_⟩ := answered answers
      refine ⟨?_, fun evaluation ran during ends => ?_⟩
      · refine Bool.or_eq_false_iff.mpr ⟨unmarked, decide_eq_false fun now => ?_⟩
        exact over_ id call now.1 found evaluates
      · obtain ⟨still, known, rfl⟩ := Option.map_eq_some_iff.mp ends
        exact over_ evaluation still during known

theorem Consistent.finish (consistent : state.Consistent) (found : state.calls id = some call)
    (evaluates : call.phase = .evaluating) (succeeds : Bool) :
    (state.setPhase id call (.releasing (if succeeds then .found (call.drv ∈ state.store) else .failed))).Consistent := by
  have fits := consistent.fits id call found
  refine consistent.setPhase found (fun _ => ⟨trivial, nofun⟩) ?_ nofun (fun pending => pending.elim) fun answers => ⟨?_, ?_⟩
  · rw [evaluates]
    exact Iff.rfl
  · refine fits.unmarked (by rw [evaluates]; trivial) fun stored => ?_
    rw [ReconstitutePhase.Answers] at answers
    split at answers
    · rw [decide_eq_true stored] at answers
      cases answers
    · cases answers
  · exact fits.ended consistent (by rw [evaluates]; trivial)

theorem Consistent.wake (consistent : state.Consistent) (found : state.calls id = some call) {wakesAt holder : Nat}
    (sleeps : call.phase = .sleeping wakesAt holder)
    (over_ : ∀ evaluation ran, call.during = some evaluation → state.calls evaluation = some ran → ran.phase ≠ .evaluating) :
    (state.setPhase id call (.returned (.found (call.drv ∈ state.store)))).Consistent := by
  have fits := consistent.fits id call found
  refine consistent.setPhase found (fun begun => ?_) ?_ nofun (fun pending => pending.elim) fun answers => ⟨?_, over_⟩
  · rw [sleeps] at begun
    exact begun.elim
  · rw [sleeps]
    exact Iff.rfl
  · refine fits.unmarked (by rw [sleeps]; trivial) fun stored => ?_
    rw [ReconstitutePhase.Answers, decide_eq_true stored] at answers
    cases answers

theorem consistent_step (consistent : state.Consistent) {action : ReconstituteAction DrvId} (calm : state.Calm action)
    (taken : state.step action = some next) : next.Consistent := by
  cases action with
  | call id drv context =>
    simp only [step] at taken
    split at taken
    next => cases taken
    next fresh =>
      cases taken
      exact consistent.make fresh drv context
  | proceed id =>
    obtain ⟨call, found, taken⟩ := Option.bind_eq_some_iff.mp taken
    split at taken
    next looks unknown =>
      cases taken
      exact consistent.giveUp found looks unknown
    next info looks known =>
      cases taken
      rw [tryAcquire]
      split
      next holder held =>
        obtain ⟨other, was, -⟩ := consistent.released _ _ held
        exact consistent.sleep found looks was ((calm call info holder other found known held was).trans known.symm)
      next free => exact consistent.acquire found looks known free
    next => cases taken
  | recreate id drv =>
    obtain ⟨call, found, taken⟩ := Option.bind_eq_some_iff.mp taken
    split at taken
    next evaluates =>
      cases taken
      exact consistent.recreate found evaluates drv
    next => cases taken
  | finish id succeeds =>
    obtain ⟨call, found, taken⟩ := Option.bind_eq_some_iff.mp taken
    split at taken
    next evaluates =>
      cases taken
      exact consistent.finish found evaluates succeeds
    next => cases taken
  | release id =>
    obtain ⟨call, found, taken⟩ := Option.bind_eq_some_iff.mp taken
    split at taken
    next result info releases known =>
      cases taken
      exact consistent.release found releases known
    next => cases taken
  | wake id =>
    obtain ⟨call, found, taken⟩ := Option.bind_eq_some_iff.mp taken
    split at taken
    next wakesAt behind sleeps =>
      split at taken
      next =>
        cases taken
        exact consistent.wake found sleeps fun evaluation ran known was => calm call evaluation ran found known was
      next => cases taken
    next => cases taken
  | advance time =>
    simp only [step] at taken
    split at taken
    next =>
      cases taken
      exact consistent.restore fun _ _ _ _ stored => stored
    next => cases taken
  | create drv =>
    cases taken
    exact consistent.restore fun _ _ _ _ stored => Finset.mem_insert_of_mem stored
  | collect drv =>
    cases taken
    refine consistent.restore fun id call found waits stored => Finset.mem_erase.mpr ⟨fun same => ?_, stored⟩
    exact calm id call found same waits

end Steps

/-- In a calm run an evaluation under way is waited for. -/
theorem run_waited {actions : List (ReconstituteAction DrvId)} (run : Run step Calm start actions state) : state.Waited :=
  (run.invariant consistent_start fun _ _ _ consistent calm taken => consistent_step consistent calm taken).waited

def rebuildJob : JobSetInfo := ⟨"4f2a", "release", "owner", "packages"⟩

/-- Two calls during one evaluation: the second looks at the store after the fixed delay, before the
evaluation has made its drv. -/
def impatient : List (ReconstituteAction Nat) :=
  [.call 0 7 (some rebuildJob), .proceed 0, .call 1 8 (some rebuildJob), .proceed 1, .advance 10, .wake 1, .recreate 0 8]

theorem impatient_calls : ((exec step start impatient).bind fun state => state.calls 1) =
    some ⟨8, some rebuildJob, .returned (.found false), some 0, true⟩ := by decide

/-- The waiter that wakes up too early says that its drv cannot be made, although it is. -/
theorem impatient_not_waited : ¬ ∀ (actions : List (ReconstituteAction Nat)) (state : Reconstitution Nat),
    AnyRun step start actions state → state.Waited := by
  intro always
  obtain ⟨final, performed, found⟩ := Option.bind_eq_some_iff.mp impatient_calls
  have unmarked := (always impatient final (run_of_exec performed)).awaited 1 _ found rfl
  cases unmarked

/-- The same two calls, with an evaluation that ends before the second one wakes up. -/
def prompt : List (ReconstituteAction Nat) :=
  [.call 0 7 (some rebuildJob), .proceed 0, .call 1 8 (some rebuildJob), .proceed 1, .recreate 0 8, .finish 0 true,
    .release 0, .advance 10, .wake 1]

theorem run_prompt : ∃ state, Run step Calm start prompt state ∧
    state.calls 1 = some ⟨8, some rebuildJob, .returned (.found true), some 0, true⟩ := by
  refine ⟨_, .cons trivial rfl (.cons ?_ rfl (.cons trivial rfl (.cons ?_ rfl (.cons trivial rfl (.cons trivial rfl
    (.cons trivial rfl (.cons trivial rfl (.cons ?_ rfl .start)))))))), rfl⟩
  · intro call info holder other _ _ taken
    cases taken
  · intro call info holder other found known taken behind
    cases found
    cases known
    cases taken
    cases behind
    rfl
  · intro call evaluation ran found during was
    cases found
    cases during
    cases was
    exact nofun

theorem run_waited_prompt : ∃ state : Reconstitution Nat, Run step Calm start prompt state ∧ state.Waited :=
  run_prompt.imp fun _ run => ⟨run.1, run_waited run.1⟩

end Reconstitution

end EkaCI
