import EkaCI.Build.State
import EkaCI.Lib.Run
import EkaCI.Lib.Table
import Mathlib.Algebra.Ring.Int.Defs

/-! Circuit breakers take a remote builder out of service after repeated connection
failures and probe it once a cool-down has elapsed. The registry is behind a lock,
so its calls take turns; `try_recover` lets go of the lock while the probe runs,
and any other call may come between its two halves. -/

namespace EkaCI

open Lib

/-- Durations, in nanoseconds. -/
abbrev Duration := Int

def second : Duration := 1000000000

inductive BreakerState where
  | closed
  | opened (recoverAt : Instant)
  | halfOpen
  deriving DecidableEq

def BreakerState.isOpened : BreakerState → Bool
  | .opened _ => true
  | _ => false

structure BuilderBreaker where
  state : BreakerState
  recentFailures : List Instant
  backoff : Duration

def failureThreshold : Nat := 3

def failureWindow : Duration := 120 * second

def initialBackoff : Duration := 30 * second

def maxBackoff : Duration := 600 * second

namespace BuilderBreaker

def new : BuilderBreaker where
  state := .closed
  recentFailures := []
  backoff := initialBackoff

/-- The recent failures once a failure is recorded now. -/
def failuresAt (breaker : BuilderBreaker) (now : Instant) : List Instant :=
  breaker.recentFailures.filter (fun failure => now - failure < failureWindow) ++ [now]

/-- Record a connection failure. Returns true if the breaker just tripped. -/
def recordFailure (breaker : BuilderBreaker) (now : Instant) : Bool × BuilderBreaker :=
  let failures := breaker.failuresAt now
  if failureThreshold ≤ failures.length ∧ breaker.state = .closed then
    (true, { breaker with state := .opened (now + breaker.backoff), recentFailures := failures })
  else if breaker.state = .halfOpen then
    let backoff := min (breaker.backoff * 2) maxBackoff
    (true, { state := .opened (now + backoff), recentFailures := failures, backoff := backoff })
  else (false, { breaker with recentFailures := failures })

def recordSuccess (_ : BuilderBreaker) : BuilderBreaker where
  state := .closed
  recentFailures := []
  backoff := initialBackoff

def isAvailable (breaker : BuilderBreaker) (now : Instant) : Bool :=
  match breaker.state with
  | .closed => true
  | .halfOpen => false
  | .opened recoverAt => recoverAt ≤ now

/-- From open, with the cool-down elapsed, to half-open. -/
def tryHalfOpen (breaker : BuilderBreaker) (now : Instant) : Bool × BuilderBreaker :=
  match breaker.state with
  | .opened recoverAt =>
    if recoverAt ≤ now then (true, { breaker with state := .halfOpen }) else (false, breaker)
  | _ => (false, breaker)

variable (breaker : BuilderBreaker)

theorem recordFailure_recentFailures (now : Instant) :
    (breaker.recordFailure now).2.recentFailures = breaker.failuresAt now := by
  rw [recordFailure]
  split
  · rfl
  · split <;> rfl

/-- A closed breaker trips at the threshold, a half-open one at every failure, and
an open one never. -/
theorem recordFailure_cases (now : Instant) :
    (breaker.state = .closed ∧ failureThreshold ≤ (breaker.failuresAt now).length ∧
      (breaker.recordFailure now).2.state = .opened (now + breaker.backoff) ∧
      (breaker.recordFailure now).2.backoff = breaker.backoff) ∨
    (breaker.state = .halfOpen ∧
      (breaker.recordFailure now).2.state = .opened (now + min (breaker.backoff * 2) maxBackoff) ∧
      (breaker.recordFailure now).2.backoff = min (breaker.backoff * 2) maxBackoff) ∨
    ((breaker.state = .closed → (breaker.failuresAt now).length < failureThreshold) ∧
      breaker.state ≠ .halfOpen ∧ (breaker.recordFailure now).2.state = breaker.state ∧
      (breaker.recordFailure now).2.backoff = breaker.backoff) := by
  rw [recordFailure]
  split
  · rename_i trips
    exact .inl ⟨trips.2, trips.1, rfl, rfl⟩
  · rename_i holds
    split
    · rename_i half
      exact .inr (.inl ⟨half, rfl, rfl⟩)
    · rename_i notHalf
      refine .inr (.inr ⟨fun closed => ?_, notHalf, rfl, rfl⟩)
      exact Nat.lt_of_not_le fun reached => holds ⟨reached, closed⟩

theorem tryHalfOpen_cases (now : Instant) :
    (∃ recoverAt, breaker.state = .opened recoverAt ∧ recoverAt ≤ now ∧
      breaker.tryHalfOpen now = (true, { breaker with state := .halfOpen })) ∨
    breaker.tryHalfOpen now = (false, breaker) := by
  cases held : breaker.state with
  | closed | halfOpen => exact .inr (by rw [tryHalfOpen, held])
  | opened recoverAt =>
    by_cases elapsed : recoverAt ≤ now
    · exact .inl ⟨recoverAt, rfl, elapsed, by simp only [tryHalfOpen, held, if_pos elapsed]⟩
    · exact .inr (by simp only [tryHalfOpen, held, if_neg elapsed])

theorem not_available_of_refused {now : Instant} (notClosed : breaker.state ≠ .closed)
    (refused : breaker.tryHalfOpen now = (false, breaker)) : breaker.isAvailable now = false := by
  cases held : breaker.state with
  | closed => exact absurd held notClosed
  | halfOpen => simp only [isAvailable, held]
  | opened recoverAt =>
    simp only [isAvailable, held]
    refine decide_eq_false fun elapsed => ?_
    simp only [tryHalfOpen, held, if_pos elapsed] at refused
    cases (Prod.mk.inj refused).1

end BuilderBreaker

structure CircuitBreakerRegistry where
  inner : Table String BuilderBreaker

/-- How the first half of `try_recover` ends: with an answer, or with a probe to run. -/
inductive RecoveryStart where
  | settled (available : Bool)
  | probe
  deriving DecidableEq

namespace CircuitBreakerRegistry

def new : CircuitBreakerRegistry := ⟨.empty⟩

def register (registry : CircuitBreakerRegistry) (builderName : String) : CircuitBreakerRegistry :=
  if registry.inner.contains builderName then registry else ⟨registry.inner.push builderName .new⟩

def recordFailure (registry : CircuitBreakerRegistry) (now : Instant) (builderName : String) :
    Bool × CircuitBreakerRegistry :=
  match registry.inner.get builderName with
  | some breaker =>
    let (tripped, breaker) := breaker.recordFailure now
    (tripped, ⟨registry.inner.modify builderName fun _ => breaker⟩)
  | none => (false, registry)

def recordSuccess (registry : CircuitBreakerRegistry) (builderName : String) : CircuitBreakerRegistry :=
  ⟨registry.inner.modify builderName (·.recordSuccess)⟩

/-- Builders without a breaker are allowed. -/
def isAvailable (registry : CircuitBreakerRegistry) (now : Instant) (builderName : String) : Bool :=
  match registry.inner.get builderName with
  | some breaker => breaker.isAvailable now
  | none => true

/-- The half of `try_recover` before the probe. -/
def beginTryRecover (registry : CircuitBreakerRegistry) (now : Instant) (builderName : String) :
    RecoveryStart × CircuitBreakerRegistry :=
  match registry.inner.get builderName with
  | none => (.settled true, registry)
  | some breaker =>
    if breaker.state = .closed then (.settled true, registry)
    else match breaker.tryHalfOpen now with
      | (true, breaker) => (.probe, ⟨registry.inner.modify builderName fun _ => breaker⟩)
      | (false, _) => (.settled false, registry)

/-- The half of `try_recover` after the probe; the answer is whether the builder is
available. -/
def finishTryRecover (registry : CircuitBreakerRegistry) (now : Instant) (builderName : String)
    (probeOk : Bool) : Bool × CircuitBreakerRegistry :=
  match registry.inner.get builderName with
  | none => (probeOk, registry)
  | some _ =>
    if probeOk then (true, registry.recordSuccess builderName)
    else (false, (registry.recordFailure now builderName).2)

variable (registry : CircuitBreakerRegistry) (now : Instant) (name other : String)

theorem register_get :
    (registry.register name).inner.get other =
      (registry.inner.get other).or (if other = name then some .new else none) := by
  rw [register]
  by_cases same : other = name
  · subst other
    cases found : registry.inner.get name <;> simp [Table.contains, found]
  · split <;> simp [same, Table.push_get]

theorem foldl_register_get (names : List String) :
    (names.foldl register registry).inner.get name =
      (registry.inner.get name).or (if name ∈ names then some .new else none) := by
  induction names generalizing registry with
  | nil => simp
  | cons head rest ih =>
    rw [List.foldl_cons, ih, register_get, Option.or_assoc]
    by_cases same : name = head <;> simp [same]

theorem recordFailure_get :
    (registry.recordFailure now name).2.inner.get other =
      if other = name then (registry.inner.get other).map fun breaker => (breaker.recordFailure now).2
      else registry.inner.get other := by
  cases found : registry.inner.get name with
  | none =>
    simp only [recordFailure, found]
    exact Table.get_of_fixed (fun _ present => absurd (found.symm.trans present) nofun) other
  | some breaker =>
    simp only [recordFailure, found]
    exact Table.modify_const_get found (fun breaker => (breaker.recordFailure now).2) other

theorem recordSuccess_get :
    (registry.recordSuccess name).inner.get other =
      if other = name then (registry.inner.get other).map (·.recordSuccess)
      else registry.inner.get other :=
  Table.modify_get ..

/-- The first half of `try_recover` answers at once, or it enters the half-open
state and starts a probe. -/
theorem beginTryRecover_cases :
    (registry.beginTryRecover now name = (.settled true, registry) ∧
      ∀ breaker, registry.inner.get name = some breaker → breaker.state = .closed) ∨
    (registry.beginTryRecover now name = (.settled false, registry) ∧
      ∃ breaker, registry.inner.get name = some breaker ∧ breaker.isAvailable now = false ∧
        breaker.tryHalfOpen now = (false, breaker)) ∨
    ∃ breaker recoverAt, registry.inner.get name = some breaker ∧ breaker.state = .opened recoverAt ∧
      breaker.tryHalfOpen now = (true, { breaker with state := .halfOpen }) ∧
      registry.beginTryRecover now name =
        (.probe, ⟨registry.inner.modify name fun _ => { breaker with state := .halfOpen }⟩) := by
  cases found : registry.inner.get name with
  | none => exact .inl ⟨by simp only [beginTryRecover, found], nofun⟩
  | some breaker =>
    by_cases closed : breaker.state = .closed
    · refine .inl ⟨by simp only [beginTryRecover, found, if_pos closed], fun other same => ?_⟩
      exact Option.some.inj same ▸ closed
    · obtain ⟨recoverAt, opened, elapsed, entered⟩ | refused := breaker.tryHalfOpen_cases now
      · refine .inr (.inr ⟨breaker, recoverAt, rfl, opened, entered, ?_⟩)
        simp only [beginTryRecover, found, if_neg closed, entered]
      · refine .inr (.inl ⟨?_, breaker, rfl, breaker.not_available_of_refused closed refused, refused⟩)
        simp only [beginTryRecover, found, if_neg closed, refused]

theorem beginTryRecover_get :
    (registry.beginTryRecover now name).2.inner.get other =
      if other = name then (registry.inner.get other).map fun breaker => (breaker.tryHalfOpen now).2
      else registry.inner.get other := by
  obtain ⟨settled, closed⟩ | ⟨settled, breaker, found, -, refused⟩ | ⟨breaker, recoverAt, found, -, entered, probe⟩ :=
    registry.beginTryRecover_cases now name
  · rw [settled]
    refine Table.get_of_fixed (fun breaker found => ?_) other
    simp only [BuilderBreaker.tryHalfOpen, closed breaker found]
  · rw [settled]
    refine Table.get_of_fixed (fun value present => ?_) other
    cases Option.some.inj (found.symm.trans present)
    rw [refused]
  · have moved := Table.modify_const_get found (fun breaker => (breaker.tryHalfOpen now).2) other
    rw [entered] at moved
    rw [probe]
    exact moved

theorem beginTryRecover_probe {registry : CircuitBreakerRegistry} {now : Instant} {name : String}
    (probes : (registry.beginTryRecover now name).1 = .probe) :
    ∃ breaker, registry.inner.get name = some breaker ∧ breaker.state ≠ .halfOpen ∧
      (breaker.tryHalfOpen now).2.state = .halfOpen := by
  obtain ⟨settled, -⟩ | ⟨settled, -⟩ | ⟨breaker, recoverAt, found, opened, entered, -⟩ :=
    registry.beginTryRecover_cases now name
  · rw [settled] at probes
    cases probes
  · rw [settled] at probes
    cases probes
  · refine ⟨breaker, found, ?_, by rw [entered]⟩
    rw [opened]
    nofun

theorem finishTryRecover_get (probeOk : Bool) :
    (registry.finishTryRecover now name probeOk).2.inner.get other =
      if other = name then (registry.inner.get other).map fun breaker =>
        if probeOk then breaker.recordSuccess else (breaker.recordFailure now).2
      else registry.inner.get other := by
  cases found : registry.inner.get name with
  | none =>
    simp only [finishTryRecover, found]
    exact Table.get_of_fixed (fun _ present => absurd (found.symm.trans present) nofun) other
  | some breaker =>
    simp only [finishTryRecover, found]
    cases probeOk with
    | true => exact registry.recordSuccess_get name other
    | false => exact registry.recordFailure_get now name other

end CircuitBreakerRegistry

inductive BreakerCall where
  | recordFailure
  | recordSuccess
  | isAvailable
  | beginTryRecover
  /-- The probe that was started in a half-open period has ended. -/
  | finishTryRecover (period : Nat) (probeOk : Bool)

namespace BreakerCall

def isFailure : BreakerCall → Bool
  | .recordFailure | .finishTryRecover _ false => true
  | _ => false

def isSuccess : BreakerCall → Bool
  | .recordSuccess | .finishTryRecover _ true => true
  | _ => false

/-- What a call does to the breaker of its builder. -/
def act (call : BreakerCall) (now : Instant) (breaker : BuilderBreaker) : BuilderBreaker :=
  match call with
  | .recordFailure | .finishTryRecover _ false => (breaker.recordFailure now).2
  | .recordSuccess | .finishTryRecover _ true => breaker.recordSuccess
  | .isAvailable => breaker
  | .beginTryRecover => (breaker.tryHalfOpen now).2

end BreakerCall

structure TimedCall where
  now : Instant
  builder : String
  call : BreakerCall

/-- What an observer of one breaker has seen of it. -/
structure BreakerHistory where
  /-- How often it went from half-open to open since the last success. -/
  reopened : Nat
  /-- When it last opened, and the backoff then in force. -/
  openedAt : Instant
  inForce : Duration
  /-- How many half-open periods there have been. -/
  periods : Nat

namespace BreakerHistory

def start : BreakerHistory := ⟨0, 0, 0, 0⟩

/-- The observer compares the breaker before and after a call. -/
def observe (history : BreakerHistory) (now : Instant) (succeeds : Bool) (before after : BuilderBreaker) :
    BreakerHistory :=
  let opens := before.state.isOpened = false ∧ after.state.isOpened = true
  { reopened :=
      if succeeds then 0
      else if before.state = .halfOpen ∧ after.state.isOpened = true then history.reopened + 1
      else history.reopened
    openedAt := if opens then now else history.openedAt
    inForce := if opens then after.backoff else history.inForce
    periods :=
      if before.state ≠ .halfOpen ∧ after.state = .halfOpen then history.periods + 1
      else history.periods }

end BreakerHistory

structure BreakerSystem where
  registry : CircuitBreakerRegistry
  /-- The time of the latest call. -/
  clock : Instant
  /-- The probes under way, each with its builder and half-open period. -/
  probes : List (String × Nat)
  history : String → BreakerHistory

namespace BreakerSystem

/-- The builders are registered before any builds run. -/
def start (names : List String) (now : Instant) : BreakerSystem where
  registry := names.foldl .register .new
  clock := now
  probes := []
  history := fun _ => .start

/-- A call has left the registry behind. -/
def advance (system : BreakerSystem) (call : TimedCall) (registry : CircuitBreakerRegistry) : BreakerSystem where
  registry := registry
  clock := call.now
  probes := system.probes
  history := Function.update system.history call.builder <|
    match system.registry.inner.get call.builder, registry.inner.get call.builder with
    | some before, some after =>
      (system.history call.builder).observe call.now call.call.isSuccess before after
    | _, _ => system.history call.builder

/-- One call; time does not run backwards, and only a probe under way can end. -/
def step (system : BreakerSystem) (call : TimedCall) : Option BreakerSystem :=
  if call.now < system.clock then none
  else match call.call with
  | .recordFailure => some (system.advance call (system.registry.recordFailure call.now call.builder).2)
  | .recordSuccess => some (system.advance call (system.registry.recordSuccess call.builder))
  | .isAvailable => some (system.advance call system.registry)
  | .beginTryRecover =>
    match system.registry.beginTryRecover call.now call.builder with
    | (.settled _, registry) => some (system.advance call registry)
    | (.probe, registry) =>
      let next := system.advance call registry
      some { next with probes := system.probes ++ [(call.builder, (next.history call.builder).periods)] }
  | .finishTryRecover period probeOk =>
    if (call.builder, period) ∈ system.probes then
      let next := system.advance call (system.registry.finishTryRecover call.now call.builder probeOk).2
      some { next with probes := system.probes.erase (call.builder, period) }
    else none

/-- What a call does, whichever it is. -/
structure Stepped (system : BreakerSystem) (call : TimedCall) (next : BreakerSystem) : Prop where
  later : system.clock ≤ call.now
  clock : next.clock = call.now
  breaker : ∀ name, next.registry.inner.get name =
    if name = call.builder then (system.registry.inner.get name).map (call.call.act call.now)
    else system.registry.inner.get name
  history : ∀ name breaker, system.registry.inner.get name = some breaker → next.history name =
    if name = call.builder then (system.history name).observe call.now call.call.isSuccess breaker
      (call.call.act call.now breaker)
    else system.history name
  unseen : ∀ name, system.registry.inner.get name = none → next.history name = system.history name
  probes : next.probes.Sublist system.probes ∨ ∃ breaker, system.registry.inner.get call.builder = some breaker ∧
    breaker.state ≠ .halfOpen ∧ (call.call.act call.now breaker).state = .halfOpen ∧
    next.probes = system.probes ++ [(call.builder, (next.history call.builder).periods)]

variable {system next : BreakerSystem} {call : TimedCall}

theorem advance_history_self (system : BreakerSystem) (call : TimedCall) (registry : CircuitBreakerRegistry) :
    (system.advance call registry).history call.builder =
      match system.registry.inner.get call.builder, registry.inner.get call.builder with
      | some before, some after =>
        (system.history call.builder).observe call.now call.call.isSuccess before after
      | _, _ => system.history call.builder :=
  Function.update_self ..

theorem advance_history_of_ne (system : BreakerSystem) (registry : CircuitBreakerRegistry) {name : String}
    (different : name ≠ call.builder) : (system.advance call registry).history name = system.history name :=
  Function.update_of_ne different ..

theorem advance_stepped (system : BreakerSystem) (call : TimedCall) (registry : CircuitBreakerRegistry)
    (later : system.clock ≤ call.now)
    (acts : ∀ name, registry.inner.get name =
      if name = call.builder then (system.registry.inner.get name).map (call.call.act call.now)
      else system.registry.inner.get name) :
    system.Stepped call (system.advance call registry) := by
  refine ⟨later, rfl, acts, fun name breaker found => ?_, fun name absent => ?_, .inl (.refl _)⟩
  · by_cases same : name = call.builder
    · subst name
      rw [if_pos rfl, advance_history_self, acts, if_pos rfl, found]
      rfl
    · rw [if_neg same, advance_history_of_ne system registry same]
  · by_cases same : name = call.builder
    · subst name
      rw [advance_history_self, absent]
    · rw [advance_history_of_ne system registry same]

theorem stepped (taken : system.step call = some next) : system.Stepped call next := by
  obtain ⟨now, builder, action⟩ := call
  rw [step] at taken
  split at taken
  · cases taken
  rename_i forward
  have later : system.clock ≤ now := Int.not_lt.mp forward
  cases action with
  | recordFailure =>
    cases Option.some.inj taken
    exact system.advance_stepped _ _ later (system.registry.recordFailure_get now builder)
  | recordSuccess =>
    cases Option.some.inj taken
    exact system.advance_stepped _ _ later (system.registry.recordSuccess_get builder)
  | isAvailable =>
    cases Option.some.inj taken
    exact system.advance_stepped _ _ later fun name => Table.get_of_fixed (fun _ _ => rfl) name
  | beginTryRecover =>
    have moved := system.advance_stepped ⟨now, builder, .beginTryRecover⟩ _ later
      (system.registry.beginTryRecover_get now builder)
    simp only at taken
    split at taken
    · rename_i settled
      cases Option.some.inj taken
      rw [settled] at moved
      exact moved
    · rename_i registry probe
      cases Option.some.inj taken
      have found := CircuitBreakerRegistry.beginTryRecover_probe (by rw [probe])
      rw [probe] at moved
      obtain ⟨breaker, present, wasOpen, half⟩ := found
      exact ⟨moved.later, moved.clock, moved.breaker, moved.history, moved.unseen,
        .inr ⟨breaker, present, wasOpen, half, rfl⟩⟩
  | finishTryRecover period probeOk =>
    simp only at taken
    split at taken
    · cases Option.some.inj taken
      have acts := system.registry.finishTryRecover_get now builder
      have moved := system.advance_stepped ⟨now, builder, .finishTryRecover period probeOk⟩
        (system.registry.finishTryRecover now builder probeOk).2 later fun name => by
          rw [acts name probeOk]
          cases probeOk <;> rfl
      exact ⟨moved.later, moved.clock, moved.breaker, moved.history, moved.unseen, .inl List.erase_sublist⟩
    · cases taken

end BreakerSystem

namespace BreakerHistory

/-- What has been seen of a breaker accounts for its value. -/
structure Explains (history : BreakerHistory) (breaker : BuilderBreaker) : Prop where
  below : breaker.state = .closed → breaker.recentFailures.length < failureThreshold
  backoff : breaker.backoff = min (initialBackoff * 2 ^ history.reopened) maxBackoff
  recovers : ∀ recoverAt, breaker.state = .opened recoverAt → recoverAt = history.openedAt + history.inForce
  inForce : breaker.state ≠ .closed → breaker.backoff = history.inForce

theorem start_explains : start.Explains .new :=
  ⟨fun _ => by decide, by decide, nofun, fun notClosed => absurd rfl notClosed⟩

variable {history : BreakerHistory} {breaker next : BuilderBreaker}

theorem observe_same (now : Instant) (same : next.state = breaker.state) :
    history.observe now false breaker next = history := by
  have opens : ¬ (breaker.state.isOpened = false ∧ next.state.isOpened = true) := by
    rw [same]
    rintro ⟨shut, opened⟩
    exact absurd (shut.symm.trans opened) nofun
  have reopens : ¬ (breaker.state = .halfOpen ∧ next.state.isOpened = true) := by
    rw [same]
    rintro ⟨half, opened⟩
    rw [half] at opened
    cases opened
  have enters : ¬ (breaker.state ≠ .halfOpen ∧ next.state = .halfOpen) := by
    rw [same]
    exact fun enters => enters.1 enters.2
  simp only [observe, if_neg opens, if_neg reopens, if_neg enters, Bool.false_eq_true, if_false]

theorem double_backoff (count : Nat) :
    min (min (initialBackoff * 2 ^ count) maxBackoff * 2) maxBackoff =
      min (initialBackoff * 2 ^ (count + 1)) maxBackoff := by
  have capped (value cap : Int) (positive : 0 ≤ cap) : min (min value cap * 2) cap = min (value * 2) cap := by
    omega
  rw [pow_succ, ← Int.mul_assoc]
  exact capped _ maxBackoff (by decide)

theorem Explains.recordFailure (explains : history.Explains breaker) (now : Instant) :
    (history.observe now false breaker (breaker.recordFailure now).2).Explains (breaker.recordFailure now).2 := by
  obtain ⟨closed, -, state, backoff⟩ | ⟨half, state, backoff⟩ | ⟨below, -, state, backoff⟩ :=
    breaker.recordFailure_cases now
  · refine ⟨fun shut => ?_, ?_, fun recoverAt opened => ?_, fun _ => ?_⟩
    · rw [state] at shut
      cases shut
    · simpa [observe, closed, backoff] using explains.backoff
    · rw [state] at opened
      cases opened
      simp [observe, closed, state, backoff, BreakerState.isOpened]
    · simp [observe, closed, state, BreakerState.isOpened]
  · refine ⟨fun shut => ?_, ?_, fun recoverAt opened => ?_, fun _ => ?_⟩
    · rw [state] at shut
      cases shut
    · rw [backoff, explains.backoff, double_backoff]
      simp [observe, half, state, BreakerState.isOpened]
    · rw [state] at opened
      cases opened
      simp [observe, half, state, backoff, BreakerState.isOpened]
    · simp [observe, half, state, BreakerState.isOpened]
  · rw [observe_same now state]
    refine ⟨fun shut => ?_, backoff ▸ explains.backoff, fun recoverAt opened => ?_, fun notClosed => ?_⟩
    · rw [breaker.recordFailure_recentFailures now]
      exact below (state ▸ shut)
    · exact explains.recovers recoverAt (state ▸ opened)
    · rw [backoff]
      exact explains.inForce (state ▸ notClosed)

theorem Explains.recordSuccess (now : Instant) :
    (history.observe now true breaker breaker.recordSuccess).Explains breaker.recordSuccess where
  below _ := show ([] : List Instant).length < failureThreshold by decide
  backoff := show initialBackoff = min (initialBackoff * 2 ^ 0) maxBackoff by decide
  recovers := nofun
  inForce notClosed := absurd rfl notClosed

theorem Explains.tryHalfOpen (explains : history.Explains breaker) (now : Instant) :
    (history.observe now false breaker (breaker.tryHalfOpen now).2).Explains (breaker.tryHalfOpen now).2 := by
  obtain ⟨recoverAt, opened, -, entered⟩ | refused := breaker.tryHalfOpen_cases now
  · rw [entered]
    have notClosed : breaker.state ≠ .closed := by
      rw [opened]
      nofun
    refine ⟨nofun, ?_, nofun, fun _ => ?_⟩
    · simpa [observe, opened] using explains.backoff
    · simpa [observe, opened, BreakerState.isOpened] using explains.inForce notClosed
  · rw [refused, observe_same now rfl]
    exact explains

theorem Explains.act (explains : history.Explains breaker) (call : BreakerCall) (now : Instant) :
    (history.observe now call.isSuccess breaker (call.act now breaker)).Explains (call.act now breaker) := by
  cases call with
  | recordFailure => exact explains.recordFailure now
  | recordSuccess => exact .recordSuccess now
  | isAvailable =>
    have same : history.observe now false breaker breaker = history := observe_same now rfl
    exact same.symm ▸ explains
  | beginTryRecover => exact explains.tryHalfOpen now
  | finishTryRecover period probeOk =>
    cases probeOk with
    | true => exact .recordSuccess now
    | false => exact explains.recordFailure now

theorem periods_le_observe (now : Instant) (succeeds : Bool) :
    history.periods ≤ (history.observe now succeeds breaker next).periods := by
  simp only [observe]
  split
  · exact Nat.le_succ _
  · exact Nat.le_refl _

end BreakerHistory

namespace BreakerSystem

/-- The discipline of the breakers. -/
structure Disciplined (system : BreakerSystem) : Prop where
  below : ∀ name breaker, system.registry.inner.get name = some breaker →
    breaker.state = .closed → breaker.recentFailures.length < 3
  backoff : ∀ name breaker, system.registry.inner.get name = some breaker →
    breaker.backoff = min (30 * second * 2 ^ (system.history name).reopened) (600 * second)
  recovers : ∀ name breaker recoverAt, system.registry.inner.get name = some breaker →
    breaker.state = .opened recoverAt →
      recoverAt = (system.history name).openedAt + (system.history name).inForce
  probes : ∀ name period, system.probes.count (name, period) ≤ 1

/-- Every breaker is explained by its history, and every probe by a period. -/
structure Accounted (system : BreakerSystem) : Prop where
  explained : ∀ name breaker, system.registry.inner.get name = some breaker →
    (system.history name).Explains breaker
  distinct : system.probes.Nodup
  begun : ∀ probe ∈ system.probes, probe.2 ≤ (system.history probe.1).periods

variable {system next : BreakerSystem} {call : TimedCall}

theorem Stepped.explained (step : system.Stepped call next) {name : String} {breaker : BuilderBreaker}
    (explained : ∀ breaker, system.registry.inner.get name = some breaker → (system.history name).Explains breaker)
    (found : next.registry.inner.get name = some breaker) : (next.history name).Explains breaker := by
  rw [step.breaker] at found
  by_cases same : name = call.builder
  · rw [if_pos same] at found
    obtain ⟨before, present, rfl⟩ := Option.map_eq_some_iff.mp found
    rw [step.history name before present, if_pos same]
    exact (explained before present).act call.call call.now
  · rw [if_neg same] at found
    rw [step.history name breaker found, if_neg same]
    exact explained breaker found

theorem Stepped.periods_le (step : system.Stepped call next) (name : String) :
    (system.history name).periods ≤ (next.history name).periods := by
  cases found : system.registry.inner.get name with
  | none => rw [step.unseen name found]
  | some breaker =>
    rw [step.history name breaker found]
    split
    · exact BreakerHistory.periods_le_observe ..
    · exact Nat.le_refl _

theorem Accounted.stepped (accounted : system.Accounted) (step : system.Stepped call next) :
    next.Accounted := by
  refine ⟨fun name breaker => step.explained (accounted.explained name), ?_, ?_⟩
  · obtain fewer | ⟨breaker, found, before, after, probes⟩ := step.probes
    · exact accounted.distinct.sublist fewer
    · -- the period of the new probe has only just begun
      have counted : (next.history call.builder).periods = (system.history call.builder).periods + 1 := by
        rw [step.history _ _ found, if_pos rfl, BreakerHistory.observe]
        exact if_pos ⟨before, after⟩
      rw [probes, List.nodup_append]
      refine ⟨accounted.distinct, List.nodup_singleton _, fun probe old fresh member => ?_⟩
      rw [List.mem_singleton.mp member]
      rintro rfl
      have begun := accounted.begun _ old
      simp only [counted] at begun
      exact absurd begun (Nat.not_succ_le_self _)
  · intro probe member
    obtain fewer | ⟨-, -, -, -, probes⟩ := step.probes
    · exact Nat.le_trans (accounted.begun probe (fewer.subset member)) (step.periods_le probe.1)
    · rw [probes, List.mem_append, List.mem_singleton] at member
      obtain old | rfl := member
      · exact Nat.le_trans (accounted.begun probe old) (step.periods_le probe.1)
      · exact Nat.le_refl _

theorem start_get (names : List String) (now : Instant) (name : String) :
    (start names now).registry.inner.get name = if name ∈ names then some .new else none := by
  rw [start, CircuitBreakerRegistry.foldl_register_get]
  rfl

theorem start_accounted (names : List String) (now : Instant) : (start names now).Accounted := by
  refine ⟨fun name breaker found => ?_, List.nodup_nil, nofun⟩
  rw [start_get] at found
  split at found
  · cases Option.some.inj found
    exact BreakerHistory.start_explains
  · cases found

theorem Accounted.disciplined (accounted : system.Accounted) : system.Disciplined where
  below name breaker found := (accounted.explained name breaker found).below
  backoff name breaker found := (accounted.explained name breaker found).backoff
  recovers name breaker recoverAt found := (accounted.explained name breaker found).recovers recoverAt
  probes name period := List.nodup_iff_count_le_one.mp accounted.distinct (name, period)

/-- In whatever order the calls come, the two halves of `try_recover` among them. -/
theorem run_disciplined (names : List String) (now : Instant) {calls : List TimedCall} {system : BreakerSystem}
    (run : AnyRun step (start names now) calls system) : system.Disciplined :=
  (run.invariant (start_accounted names now) fun _ _ _ accounted _ taken =>
    accounted.stepped (stepped taken)).disciplined

/-- A build fails while the probe of the same builder runs. -/
def failureUnderProbe : List TimedCall :=
  [⟨0, "remote", .recordFailure⟩, ⟨second, "remote", .recordFailure⟩, ⟨2 * second, "remote", .recordFailure⟩,
    ⟨40 * second, "remote", .beginTryRecover⟩, ⟨41 * second, "remote", .recordFailure⟩]

theorem failureUnderProbe_disciplined : ∃ system, AnyRun step (start ["remote"] 0) failureUnderProbe system ∧
    system.probes = [("remote", 1)] ∧ (system.history "remote").reopened = 1 ∧ system.Disciplined := by
  refine exists_run_of_exec_imp (p := fun system => system.probes = [("remote", 1)] ∧
    (system.history "remote").reopened = 1) (by decide) fun system run ⟨probes, reopened⟩ => ?_
  exact ⟨probes, reopened, run_disciplined ["remote"] 0 run⟩

end BreakerSystem

end EkaCI
