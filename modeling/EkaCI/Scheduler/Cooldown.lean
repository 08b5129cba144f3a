import EkaCI.Scheduler.CircuitBreaker

/-! A remote builder that keeps failing is to be taken out of service every time.
An open breaker whose cool-down has elapsed accepts builds again, yet is still
open: unless it is asked to recover first, the failures of these builds do not
trip it. -/

namespace EkaCI

open Lib

/-- Enough failures for a trip, at a breaker that is open with its cool-down elapsed. -/
def BuilderBreaker.failsAfterCooldown (breaker : BuilderBreaker) (now : Instant) : Bool :=
  match breaker.state with
  | .opened recoverAt => recoverAt ≤ now && failureThreshold ≤ (breaker.failuresAt now).length
  | _ => false

namespace BreakerSystem

/-- What is due when a failure at `now` leaves enough recent failures, and the calls
in `after` follow. -/
structure TakesOut (name : String) (system next : BreakerSystem) (now : Instant) (after : List TimedCall) :
    Prop where
  unavailable : next.registry.isAvailable now name = false
  /-- Until a success is recorded or the backoff has elapsed since the latest trip. -/
  stays : ∀ middle rest later breaker instant, after = middle ++ rest →
    (∀ call ∈ middle, call.builder = name → call.call.isSuccess = false) →
    exec step next middle = some later → later.registry.inner.get name = some breaker →
    later.clock ≤ instant → instant < (later.history name).openedAt + breaker.backoff →
      later.registry.isAvailable instant name = false
  /-- A builder that still fails after its cool-down gets a larger backoff, up to the maximum. -/
  longer : ∀ breaker failed, system.registry.inner.get name = some breaker → breaker.state ≠ .closed →
    (system.history name).openedAt + breaker.backoff ≤ now → next.registry.inner.get name = some failed →
      breaker.backoff < failed.backoff ∨ breaker.backoff = maxBackoff

/-- The builder is taken out of service at every failure that leaves enough of them. -/
def AlwaysTakenOut (name : String) (initial : BreakerSystem) (calls : List TimedCall) : Prop :=
  ∀ before call after, calls = before ++ call :: after → ∀ system next failed,
    exec step initial before = some system → system.step call = some next →
    call.builder = name → call.call.isFailure = true → next.registry.inner.get name = some failed →
    failureThreshold ≤ failed.recentFailures.length → TakesOut name system next call.now after

/-- A failure does not come at an open breaker whose cool-down has elapsed, or it
does not fill the window. -/
def Noticed (name : String) (system : BreakerSystem) (call : TimedCall) : Prop :=
  call.builder = name → call.call.isFailure = true → ∀ breaker ∈ system.registry.inner.get name,
    breaker.failsAfterCooldown call.now = false

instance (name : String) (system : BreakerSystem) (call : TimedCall) : Decidable (Noticed name system call) :=
  inferInstanceAs (Decidable (_ → _ → ∀ breaker ∈ _, _))

end BreakerSystem

theorem BreakerCall.act_of_isFailure {call : BreakerCall} (fails : call.isFailure = true) (now : Instant)
    (breaker : BuilderBreaker) : call.act now breaker = (breaker.recordFailure now).2 := by
  cases call with
  | recordFailure => rfl
  | recordSuccess | isAvailable | beginTryRecover => cases fails
  | finishTryRecover period probeOk =>
    cases probeOk with
    | true => cases fails
    | false => rfl

theorem BreakerCall.act_not_closed {call : BreakerCall} (fails : call.isSuccess = false) (now : Instant)
    {breaker : BuilderBreaker} (notClosed : breaker.state ≠ .closed) : (call.act now breaker).state ≠ .closed := by
  have failure : (breaker.recordFailure now).2.state ≠ .closed := by
    obtain ⟨-, -, state, -⟩ | ⟨-, state, -⟩ | ⟨-, -, state, -⟩ := breaker.recordFailure_cases now
    · rw [state]
      nofun
    · rw [state]
      nofun
    · rw [state]
      exact notClosed
  cases call with
  | recordFailure => exact failure
  | recordSuccess => cases fails
  | isAvailable => exact notClosed
  | beginTryRecover =>
    obtain ⟨_, -, -, entered⟩ | refused := breaker.tryHalfOpen_cases now
    · rw [BreakerCall.act, entered]
      nofun
    · rw [BreakerCall.act, refused]
      exact notClosed
  | finishTryRecover period probeOk =>
    cases probeOk with
    | true => cases fails
    | false => exact failure

namespace BreakerHistory.Explains

variable {history : BreakerHistory} {breaker : BuilderBreaker} (explains : history.Explains breaker)

include explains

theorem backoff_pos : 0 < breaker.backoff := by
  rw [explains.backoff]
  refine Int.lt_min.mpr ⟨Int.mul_pos (by decide) (Int.pow_pos (by decide)), by decide⟩

theorem backoff_longer : breaker.backoff < min (breaker.backoff * 2) maxBackoff ∨ breaker.backoff = maxBackoff := by
  have capped : breaker.backoff ≤ maxBackoff := by
    rw [explains.backoff]
    exact Int.min_le_right ..
  have positive := explains.backoff_pos
  have doubled (value cap : Int) (positive : 0 < value) (capped : value ≤ cap) :
      value < min (value * 2) cap ∨ value = cap := by
    omega
  exact doubled _ _ positive capped

theorem isAvailable_eq_false (notClosed : breaker.state ≠ .closed) {now : Instant}
    (early : now < history.openedAt + breaker.backoff) : breaker.isAvailable now = false := by
  cases held : breaker.state with
  | closed => exact absurd held notClosed
  | halfOpen => simp only [BuilderBreaker.isAvailable, held]
  | opened recoverAt =>
    rw [explains.inForce notClosed, ← explains.recovers recoverAt held] at early
    simp only [BuilderBreaker.isAvailable, held]
    exact decide_eq_false (Int.not_le.mpr early)

end BreakerHistory.Explains

theorem BuilderBreaker.failsAfterCooldown_of_opened {breaker : BuilderBreaker} {recoverAt now : Instant}
    (opened : breaker.state = .opened recoverAt) (fills : failureThreshold ≤ (breaker.failuresAt now).length) :
    breaker.failsAfterCooldown now = decide (recoverAt ≤ now) := by
  simp only [failsAfterCooldown, opened, decide_eq_true fills, Bool.and_true]

theorem BuilderBreaker.fills_of_failsAfterCooldown {breaker : BuilderBreaker} {now : Instant}
    (cooled : breaker.failsAfterCooldown now = true) : failureThreshold ≤ (breaker.failuresAt now).length := by
  rw [failsAfterCooldown] at cooled
  split at cooled
  · exact of_decide_eq_true (Bool.and_eq_true_iff.mp cooled).2
  · cases cooled

namespace BreakerSystem

variable {system next : BreakerSystem} {call : TimedCall} {name : String} {breaker failed : BuilderBreaker}

theorem isAvailable_of_get (found : system.registry.inner.get name = some breaker) (now : Instant) :
    system.registry.isAvailable now name = breaker.isAvailable now := by
  rw [CircuitBreakerRegistry.isAvailable, found]

theorem failed_get (taken : system.step call = some next) (named : call.builder = name)
    (fails : call.call.isFailure = true) (found : system.registry.inner.get name = some breaker) :
    next.registry.inner.get name = some (breaker.recordFailure call.now).2 := by
  rw [(stepped taken).breaker, if_pos named.symm, found, Option.map_some, BreakerCall.act_of_isFailure fails]

/-- The breaker has tripped since the last success. -/
def Tripped (name : String) (system : BreakerSystem) : Prop :=
  ∀ breaker, system.registry.inner.get name = some breaker → breaker.state ≠ .closed

theorem Tripped.step (tripped : Tripped name system) (taken : system.step call = some next)
    (failing : call.builder = name → call.call.isSuccess = false) : Tripped name next := by
  intro breaker present
  rw [(stepped taken).breaker] at present
  split at present
  · rename_i same
    obtain ⟨before, found, rfl⟩ := Option.map_eq_some_iff.mp present
    exact BreakerCall.act_not_closed (failing same.symm) call.now (tripped before found)
  · exact tripped breaker present

theorem Tripped.stays (tripped : Tripped name system) (accounted : system.Accounted) {middle : List TimedCall}
    (failing : ∀ call ∈ middle, call.builder = name → call.call.isSuccess = false)
    (performed : exec BreakerSystem.step system middle = some next)
    (found : next.registry.inner.get name = some breaker) {instant : Instant}
    (early : instant < (next.history name).openedAt + breaker.backoff) :
    next.registry.isAvailable instant name = false := by
  have still : Tripped name next ∧ next.Accounted := by
    refine exec_invariant (p := fun system => Tripped name system ∧ system.Accounted) performed ⟨tripped, accounted⟩ fun state call next member holds taken => ?_
    exact ⟨holds.1.step taken (failing call member), holds.2.stepped (stepped taken)⟩
  rw [isAvailable_of_get found]
  exact (still.2.explained name breaker found).isAvailable_eq_false (still.1 breaker found) early

theorem takesOut_of_opened (accounted : next.Accounted) (present : next.registry.inner.get name = some failed)
    {recoverAt now : Instant} (opened : failed.state = .opened recoverAt) (early : now < recoverAt)
    (longer : ∀ breaker, system.registry.inner.get name = some breaker → breaker.state ≠ .closed →
      (system.history name).openedAt + breaker.backoff ≤ now →
        breaker.backoff < failed.backoff ∨ breaker.backoff = maxBackoff)
    (after : List TimedCall) : TakesOut name system next now after := by
  have tripped : Tripped name next := by
    intro breaker found
    rw [← Option.some.inj (present.symm.trans found), opened]
    nofun
  refine ⟨?_, fun middle _ later breaker instant _ failing performed found _ => ?_, fun breaker other found => ?_⟩
  · rw [isAvailable_of_get present]
    simp only [BuilderBreaker.isAvailable, opened]
    exact decide_eq_false (Int.not_le.mpr early)
  · exact tripped.stays accounted failing performed found
  · intro notClosed elapsed same
    cases Option.some.inj (present.symm.trans same)
    exact longer breaker found notClosed elapsed

/-- A failure that leaves enough of them takes the builder out of service, unless
it comes at an open breaker whose cool-down has elapsed. -/
theorem takesOut_iff (accounted : system.Accounted) (taken : system.step call = some next) (named : call.builder = name)
    (fails : call.call.isFailure = true) (found : system.registry.inner.get name = some breaker)
    (fills : failureThreshold ≤ (breaker.failuresAt call.now).length) (after : List TimedCall) :
    TakesOut name system next call.now after ↔ breaker.failsAfterCooldown call.now = false := by
  have explains := accounted.explained name breaker found
  have present := failed_get taken named fails found
  have later := accounted.stepped (stepped taken)
  obtain ⟨closed, -, state, backoff⟩ | ⟨half, state, backoff⟩ | ⟨below, notHalf, state, backoff⟩ :=
    breaker.recordFailure_cases call.now
  · refine iff_of_true ?_ (by simp only [BuilderBreaker.failsAfterCooldown, closed])
    refine takesOut_of_opened later present state (Int.lt_add_of_pos_right _ explains.backoff_pos) ?_ after
    intro other same notClosed
    cases Option.some.inj (found.symm.trans same)
    exact absurd closed notClosed
  · refine iff_of_true ?_ (by simp only [BuilderBreaker.failsAfterCooldown, half])
    have longer := explains.backoff_longer
    refine takesOut_of_opened later present state ?_ ?_ after
    · rw [← backoff]
      exact Int.lt_add_of_pos_right _ (later.explained name _ present).backoff_pos
    · intro other same _ _
      cases Option.some.inj (found.symm.trans same)
      rw [backoff]
      exact longer
  · cases held : breaker.state with
    | closed => exact absurd (below held) (Nat.not_lt.mpr fills)
    | halfOpen => exact absurd held notHalf
    | opened recoverAt =>
      rw [BuilderBreaker.failsAfterCooldown_of_opened held fills, decide_eq_false_iff_not]
      rw [held] at state
      constructor
      · intro takesOut elapsed
        have available := takesOut.unavailable
        rw [isAvailable_of_get present] at available
        simp only [BuilderBreaker.isAvailable, state] at available
        exact absurd elapsed (of_decide_eq_false available)
      · intro early
        refine takesOut_of_opened later present state (Int.not_le.mp early) ?_ after
        intro other same notClosed elapsed
        cases Option.some.inj (found.symm.trans same)
        rw [explains.inForce notClosed, ← explains.recovers recoverAt held] at elapsed
        exact absurd elapsed early

/-- A builder is taken out of service at every failure that leaves enough of them,
exactly if no such failure comes at an open breaker whose cool-down has elapsed. -/
theorem alwaysTakenOut_iff (names : List String) (start : Instant) (name : String) (calls : List TimedCall)
    (final : BreakerSystem) (performed : exec step (.start names start) calls = some final) :
    AlwaysTakenOut name (.start names start) calls ↔ Run step (Noticed name) (.start names start) calls final := by
  have accounted : ∀ {before : List TimedCall} {system : BreakerSystem},
      exec step (.start names start) before = some system → system.Accounted := fun reached =>
    exec_invariant reached (start_accounted names start) fun _ _ _ _ accounted taken =>
      accounted.stepped (stepped taken)
  rw [run_iff performed]
  constructor
  · intro always before call after split system reached named fails breaker found
    rw [split, exec_append, reached, Option.bind_some] at performed
    obtain ⟨next, taken, -⟩ := Option.bind_eq_some_iff.mp performed
    cases cooled : breaker.failsAfterCooldown call.now with
    | false => rfl
    | true =>
      have fills := BuilderBreaker.fills_of_failsAfterCooldown cooled
      have present := failed_get taken named fails found
      have takesOut := always before call after split system next _ reached taken named fails present
        (breaker.recordFailure_recentFailures call.now ▸ fills)
      exact cooled.symm.trans ((takesOut_iff (accounted reached) taken named fails found fills after).mp takesOut)
  · intro noticed before call after split system next failed reached taken named fails present enough
    rw [(stepped taken).breaker, if_pos named.symm] at present
    obtain ⟨breaker, found, rfl⟩ := Option.map_eq_some_iff.mp present
    rw [BreakerCall.act_of_isFailure fails, breaker.recordFailure_recentFailures] at enough
    exact (takesOut_iff (accounted reached) taken named fails found enough after).mpr
      (noticed before call after split system reached named fails breaker found)

/-- Three failures, then a probe after the cool-down, which fails too. -/
def failedProbe : List TimedCall :=
  [⟨0, "remote", .recordFailure⟩, ⟨second, "remote", .recordFailure⟩, ⟨2 * second, "remote", .recordFailure⟩,
    ⟨40 * second, "remote", .beginTryRecover⟩, ⟨41 * second, "remote", .finishTryRecover 1 false⟩]

theorem failedProbe_alwaysTakenOut : AlwaysTakenOut "remote" (start ["remote"] 0) failedProbe := by
  obtain ⟨final, run, -⟩ : ∃ final, Run step (Noticed "remote") (start ["remote"] 0) failedProbe final ∧
      final.probes = [] := exists_run_of_checkRun (by decide)
  exact (alwaysTakenOut_iff ["remote"] 0 "remote" failedProbe final (exec_of_run run)).mpr run

/-- Three failures; when the cool-down has elapsed builds go on, and fail. -/
def failuresAfterCooldown : List TimedCall :=
  [⟨0, "remote", .recordFailure⟩, ⟨second, "remote", .recordFailure⟩, ⟨2 * second, "remote", .recordFailure⟩,
    ⟨40 * second, "remote", .isAvailable⟩, ⟨41 * second, "remote", .recordFailure⟩,
    ⟨42 * second, "remote", .recordFailure⟩]

def lastFailure : TimedCall := ⟨43 * second, "remote", .recordFailure⟩

/-- The builder has failed six times within the window, and is still available. -/
theorem failuresAfterCooldown_not_takenOut :
    ¬ AlwaysTakenOut "remote" (start ["remote"] 0) (failuresAfterCooldown ++ [lastFailure]) := by
  intro always
  have performed : (exec step (start ["remote"] 0) (failuresAfterCooldown ++ [lastFailure])).map (fun system =>
      (system.registry.isAvailable lastFailure.now "remote",
        (system.registry.inner.get "remote").map (·.recentFailures.length))) = some (true, some 6) := by decide
  obtain ⟨next, performed, result⟩ := Option.map_eq_some_iff.mp performed
  obtain ⟨available, failures⟩ := Prod.mk.inj result
  obtain ⟨breaker, found, enough⟩ := Option.map_eq_some_iff.mp failures
  rw [exec_append] at performed
  obtain ⟨system, reached, taken⟩ := Option.bind_eq_some_iff.mp performed
  obtain ⟨other, taken, same⟩ := Option.bind_eq_some_iff.mp taken
  cases Option.some.inj same
  have takesOut := always failuresAfterCooldown lastFailure [] rfl system next breaker reached taken rfl rfl found
    (by rw [enough]; decide)
  exact absurd (available.symm.trans takesOut.unavailable) nofun

end BreakerSystem

end EkaCI
