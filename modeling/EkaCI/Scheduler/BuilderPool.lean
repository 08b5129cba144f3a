import EkaCI.Scheduler.CircuitBreaker
import EkaCI.Scheduler.PlatformQueue

/-! The loop of a builder pool. It finds the builders that are fit for the job at
the front of its buffer once, and then waits for a permit of one of these while
breakers trip and recover and new work comes in. -/

namespace EkaCI

open Lib

variable {DrvId : Type}

inductive LoopPhase where
  | outer
  /-- The builders found so far, and those not yet looked at. -/
  | filtering (compatible rest : List Builder)
  /-- The breaker of a builder has refused; `try_recover` comes next. -/
  | recovering (builder : Builder) (compatible rest : List Builder)
  | probing (builder : Builder) (compatible rest : List Builder)
  /-- The inner loop, which only leaves with a permit. -/
  | waiting (compatible : List Builder)
  deriving DecidableEq

structure BuilderPool (DrvId : Type) where
  /-- Work in the channel of the loop. -/
  incoming : List (Drv DrvId)
  buildBuffer : List (Drv DrvId)
  phase : LoopPhase
  /-- Work in the channels of the builders, by name. -/
  channels : String → List (Drv DrvId)
  registry : CircuitBreakerRegistry
  clock : Instant

inductive PoolAction (DrvId : Type) where
  | receive
  | consider
  | check
  | recover
  | probed (probeOk : Bool)
  | settle
  | dispatch
  /-- From here on it is not the loop that acts. -/
  | submit (work : Drv DrvId)
  | take (builderName : String)
  | elapse (now : Instant)
  | call (builderName : String) (call : BreakerCall)

def PoolAction.isOwn : PoolAction DrvId → Bool
  | .receive | .consider | .check | .recover | .probed _ | .settle => true
  | _ => false

/-- A call at the registry by a build, or by the loop of another pool. -/
def CircuitBreakerRegistry.perform (registry : CircuitBreakerRegistry) (now : Instant) (builderName : String) :
    BreakerCall → CircuitBreakerRegistry
  | .recordFailure => (registry.recordFailure now builderName).2
  | .recordSuccess => registry.recordSuccess builderName
  | .isAvailable => registry
  | .beginTryRecover => (registry.beginTryRecover now builderName).2
  | .finishTryRecover _ probeOk => (registry.finishTryRecover now builderName probeOk).2

namespace BuilderPool

def start (registry : CircuitBreakerRegistry) (now : Instant) : BuilderPool DrvId where
  incoming := []
  buildBuffer := []
  phase := .outer
  channels := fun _ => []
  registry := registry
  clock := now

/-- The channel of a builder has room for `max_jobs` requests. -/
def hasPermit (pool : BuilderPool DrvId) (builder : Builder) : Bool :=
  (pool.channels builder.builderName).length < builder.maxJobs

/-- Breakers are only asked about remote builders. -/
def accepts (pool : BuilderPool DrvId) (builder : Builder) : Bool :=
  builder.remoteUri.isNone || pool.registry.isAvailable pool.clock builder.builderName

/-- The builder that was looked at is taken, or passed over. -/
def judge (pool : BuilderPool DrvId) (fit : Bool) (builder : Builder) (compatible rest : List Builder) :
    BuilderPool DrvId :=
  { pool with phase := .filtering (if fit then compatible ++ [builder] else compatible) rest }

def receive (pool : BuilderPool DrvId) : Option (BuilderPool DrvId) :=
  match pool.phase, pool.incoming with
  | .outer, work :: rest | .waiting _, work :: rest =>
    some { pool with incoming := rest, buildBuffer := pool.buildBuffer ++ [work] }
  | _, _ => none

def consider (builders : List Builder) (pool : BuilderPool DrvId) : Option (BuilderPool DrvId) :=
  match pool.phase, pool.incoming, pool.buildBuffer with
  | .outer, [], _ :: _ => some { pool with phase := .filtering [] builders }
  | _, _, _ => none

def check (pool : BuilderPool DrvId) : Option (BuilderPool DrvId) :=
  match pool.phase, pool.buildBuffer with
  | .filtering compatible (builder :: rest), job :: _ =>
    if builder.canHandle job = false then some (pool.judge false builder compatible rest)
    else if pool.accepts builder = false then some { pool with phase := .recovering builder compatible rest }
    else some (pool.judge true builder compatible rest)
  | _, _ => none

def recover (pool : BuilderPool DrvId) : Option (BuilderPool DrvId) :=
  match pool.phase with
  | .recovering builder compatible rest =>
    match pool.registry.beginTryRecover pool.clock builder.builderName with
    | (.settled available, registry) => some ({ pool with registry := registry }.judge available builder compatible rest)
    | (.probe, registry) => some { pool with registry := registry, phase := .probing builder compatible rest }
  | _ => none

def probed (pool : BuilderPool DrvId) (probeOk : Bool) : Option (BuilderPool DrvId) :=
  match pool.phase with
  | .probing builder compatible rest =>
    let (available, registry) := pool.registry.finishTryRecover pool.clock builder.builderName probeOk
    some ({ pool with registry := registry }.judge available builder compatible rest)
  | _ => none

def settle (pool : BuilderPool DrvId) : Option (BuilderPool DrvId) :=
  match pool.phase with
  | .filtering compatible [] => some { pool with phase := .waiting compatible }
  | _ => none

/-- The first builder with a permit gets the job at the front. -/
def dispatch (pool : BuilderPool DrvId) : Option (BuilderPool DrvId) :=
  match pool.phase, pool.buildBuffer with
  | .waiting compatible, job :: rest =>
    (compatible.find? pool.hasPermit).map fun builder =>
      let queued := pool.channels builder.builderName ++ [job]
      { pool with
        buildBuffer := rest
        phase := .outer
        channels := Function.update pool.channels builder.builderName queued }
  | _, _ => none

/-- The builder thread takes a request from its channel. -/
def take (pool : BuilderPool DrvId) (builderName : String) : Option (BuilderPool DrvId) :=
  match pool.channels builderName with
  | [] => none
  | _ :: rest => some { pool with channels := Function.update pool.channels builderName rest }

def step (builders : List Builder) (pool : BuilderPool DrvId) : PoolAction DrvId → Option (BuilderPool DrvId)
  | .receive => pool.receive
  | .consider => pool.consider builders
  | .check => pool.check
  | .recover => pool.recover
  | .probed probeOk => pool.probed probeOk
  | .settle => pool.settle
  | .dispatch => pool.dispatch
  | .submit work =>
    if pool.incoming.length < 100 then some { pool with incoming := pool.incoming ++ [work] } else none
  | .take builderName => pool.take builderName
  | .elapse now => if pool.clock ≤ now then some { pool with clock := now } else none
  | .call builderName call =>
    some { pool with registry := pool.registry.perform pool.clock builderName call }

/-- The loop can get to a dispatch by steps of its own. -/
def CanDispatch (builders : List Builder) (pool : BuilderPool DrvId) : Prop :=
  ∃ actions ready, (∀ action ∈ actions, PoolAction.isOwn action = true) ∧
    exec (step builders) pool actions = some ready ∧ (dispatch ready).isSome = true

/-- The job at the front does not wait while a builder is free to run it. -/
def NoDeadlock (builders : List Builder) (pool : BuilderPool DrvId) : Prop :=
  ∀ job rest, pool.buildBuffer = job :: rest → ∀ builder ∈ builders, builder.canHandle job = true →
    pool.accepts builder = true → pool.hasPermit builder = true → CanDispatch builders pool

/-- No builder that passes the feature filter is passed over for its breaker, unless
one of those already taken has a permit. -/
def leavesNoneOut (pool : BuilderPool DrvId) : PoolAction DrvId → Bool
  | .recover =>
    match pool.phase with
    | .recovering builder compatible _ =>
      (pool.registry.beginTryRecover pool.clock builder.builderName).1 ≠ .settled false ||
        compatible.any pool.hasPermit
    | _ => true
  | .probed probeOk =>
    match pool.phase with
    | .probing builder compatible _ =>
      (pool.registry.finishTryRecover pool.clock builder.builderName probeOk).1 || compatible.any pool.hasPermit
    | _ => true
  | _ => true

end BuilderPool

/-- The builders taken so far and those still to be looked at, while a job is considered. -/
def LoopPhase.pending : LoopPhase → Option (List Builder × List Builder)
  | .outer => none
  | .filtering compatible rest => some (compatible, rest)
  | .recovering builder compatible rest | .probing builder compatible rest => some (compatible, builder :: rest)
  | .waiting compatible => some (compatible, [])

namespace BuilderPool

/-- While a job is considered, no builder that can handle it has been left out,
unless one of those taken has a permit. -/
structure Covers (builders : List Builder) (pool : BuilderPool DrvId) : Prop where
  considered : ∀ compatible rest, pool.phase.pending = some (compatible, rest) →
    ∃ job others, pool.buildBuffer = job :: others ∧ ∀ builder ∈ builders, builder.canHandle job = true →
      builder ∈ compatible ∨ builder ∈ rest ∨ ∃ taken ∈ compatible, pool.hasPermit taken = true
  remote : ∀ builder compatible rest, pool.phase = .recovering builder compatible rest → builder.remoteUri.isSome

theorem accepts_eq_false {pool : BuilderPool DrvId} {builder : Builder} : pool.accepts builder = false ↔
    builder.remoteUri.isSome = true ∧ pool.registry.isAvailable pool.clock builder.builderName = false := by
  rw [accepts, Bool.or_eq_false_iff, Option.isNone_eq_false_iff]

theorem start_covers (builders : List Builder) (registry : CircuitBreakerRegistry) (now : Instant) :
    Covers builders (start registry now : BuilderPool DrvId) :=
  ⟨nofun, nofun⟩

namespace Covers

variable {builders : List Builder} {pool next : BuilderPool DrvId} (covers : Covers builders pool)

include covers

theorem of_kept (phase : next.phase = pool.phase)
    (front : ∀ job others, pool.buildBuffer = job :: others → ∃ more, next.buildBuffer = job :: more)
    (permits : ∀ builder, pool.hasPermit builder = true → next.hasPermit builder = true) :
    Covers builders next := by
  refine ⟨fun compatible rest pending => ?_, fun builder compatible rest held => ?_⟩
  · rw [phase] at pending
    obtain ⟨job, others, buffer, covered⟩ := covers.considered compatible rest pending
    obtain ⟨more, buffer⟩ := front job others buffer
    refine ⟨job, more, buffer, fun builder member can => ?_⟩
    obtain taken | left | ⟨taken, member, free⟩ := covered builder member can
    · exact .inl taken
    · exact .inr (.inl left)
    · exact .inr (.inr ⟨taken, member, permits taken free⟩)
  · rw [phase] at held
    exact covers.remote builder compatible rest held

theorem withRegistry (registry : CircuitBreakerRegistry) : Covers builders { pool with registry := registry } :=
  covers.of_kept rfl (fun _ others buffer => ⟨others, buffer⟩) fun _ free => free

theorem judge {builder : Builder} {compatible rest : List Builder} {fit : Bool}
    (pending : pool.phase.pending = some (compatible, builder :: rest))
    (allowed : fit = true ∨ (∀ job others, pool.buildBuffer = job :: others → builder.canHandle job = false) ∨
      ∃ taken ∈ compatible, pool.hasPermit taken = true) :
    Covers builders (pool.judge fit builder compatible rest) := by
  refine ⟨?_, nofun⟩
  intro taken left same
  cases Option.some.inj same
  obtain ⟨job, others, buffer, covered⟩ := covers.considered _ _ pending
  refine ⟨job, others, buffer, fun other member can => ?_⟩
  have kept {other : Builder} (taken : other ∈ compatible) :
      other ∈ if fit = true then compatible ++ [builder] else compatible := by
    split
    · exact List.mem_append_left _ taken
    · exact taken
  obtain taken | left | ⟨taken, member, free⟩ := covered other member can
  · exact .inl (kept taken)
  · obtain rfl | left := List.mem_cons.mp left
    · obtain rfl | cannot | ⟨taken, member, free⟩ := allowed
      · exact .inl (List.mem_append_right _ List.mem_cons_self)
      · exact absurd (can.symm.trans (cannot job others buffer)) nofun
      · exact .inr (.inr ⟨taken, kept member, free⟩)
    · exact .inr (.inl left)
  · exact .inr (.inr ⟨taken, kept member, free⟩)

theorem receive (taken : pool.receive = some next) : Covers builders next := by
  rw [BuilderPool.receive] at taken
  split at taken
  · rename_i outer _
    cases Option.some.inj taken
    refine ⟨fun compatible rest pending => ?_, fun builder compatible rest held => ?_⟩
    · simp only [outer] at pending
      cases pending
    · simp only [outer] at held
      cases held
  · cases Option.some.inj taken
    refine covers.of_kept rfl (fun job others buffer => ?_) fun _ free => free
    exact ⟨others ++ [_], by rw [buffer, List.cons_append]⟩
  · cases taken

omit covers in
theorem consider (taken : pool.consider builders = some next) : Covers builders next := by
  rw [BuilderPool.consider] at taken
  split at taken
  · rename_i job others _ _ buffer
    cases Option.some.inj taken
    refine ⟨fun compatible rest pending => ?_, nofun⟩
    cases Option.some.inj pending
    exact ⟨job, others, buffer, fun builder member _ => .inr (.inl member)⟩
  · cases taken

theorem check (taken : pool.check = some next) : Covers builders next := by
  rw [BuilderPool.check] at taken
  split at taken
  · rename_i compatible builder rest job others phase buffer
    have pending : pool.phase.pending = some (compatible, builder :: rest) := by rw [phase, LoopPhase.pending]
    split at taken
    · rename_i cannot
      cases Option.some.inj taken
      refine covers.judge pending (.inr (.inl fun front more same => ?_))
      cases buffer.symm.trans same
      exact cannot
    · split at taken
      · rename_i refused
        cases Option.some.inj taken
        refine ⟨fun compatible rest same => ?_, fun other compatible rest same => ?_⟩
        · exact covers.considered compatible rest (pending.trans same)
        · cases same
          exact (accepts_eq_false.mp refused).1
      · cases Option.some.inj taken
        exact covers.judge pending (.inl rfl)
  · cases taken

theorem recover (keeps : pool.leavesNoneOut .recover = true) (taken : pool.recover = some next) : Covers builders next := by
  rw [BuilderPool.recover] at taken
  split at taken
  · rename_i builder compatible rest phase
    have pending : pool.phase.pending = some (compatible, builder :: rest) := by rw [phase, LoopPhase.pending]
    simp only [leavesNoneOut, phase, Bool.or_eq_true, decide_eq_true_eq, List.any_eq_true] at keeps
    split at taken
    · rename_i available registry settled
      cases Option.some.inj taken
      refine (covers.withRegistry registry).judge pending (keeps.imp (fun recovered => ?_) .inr)
      rw [settled] at recovered
      exact Bool.eq_true_of_not_eq_false fun refused => recovered (by rw [refused])
    · rename_i registry _
      cases Option.some.inj taken
      refine ⟨fun compatible rest same => ?_, nofun⟩
      exact (covers.withRegistry registry).considered compatible rest (pending.trans same)
  · cases taken

theorem probed {probeOk : Bool} (keeps : pool.leavesNoneOut (.probed probeOk) = true) (taken : pool.probed probeOk = some next) :
    Covers builders next := by
  rw [BuilderPool.probed] at taken
  split at taken
  · rename_i builder compatible rest phase
    have pending : pool.phase.pending = some (compatible, builder :: rest) := by rw [phase, LoopPhase.pending]
    simp only [leavesNoneOut, phase, Bool.or_eq_true, List.any_eq_true] at keeps
    cases Option.some.inj taken
    exact (covers.withRegistry _).judge pending (keeps.imp_right .inr)
  · cases taken

theorem settle (taken : pool.settle = some next) : Covers builders next := by
  rw [BuilderPool.settle] at taken
  split at taken
  · rename_i compatible phase
    cases Option.some.inj taken
    refine ⟨fun compatible rest same => ?_, nofun⟩
    refine covers.considered compatible rest (Eq.trans ?_ same)
    rw [phase]
    rfl
  · cases taken

omit covers in
theorem dispatch (taken : pool.dispatch = some next) : Covers builders next := by
  rw [BuilderPool.dispatch] at taken
  split at taken
  · obtain ⟨builder, -, rfl⟩ := Option.map_eq_some_iff.mp taken
    exact ⟨nofun, nofun⟩
  · cases taken

theorem take {name : String} (taken : pool.take name = some next) : Covers builders next := by
  rw [BuilderPool.take] at taken
  split at taken
  · cases taken
  · rename_i work rest queued
    cases Option.some.inj taken
    refine covers.of_kept rfl (fun job others buffer => ⟨others, buffer⟩) fun builder free => ?_
    have shorter : (Function.update pool.channels name rest builder.builderName).length ≤
        (pool.channels builder.builderName).length := by
      by_cases same : builder.builderName = name
      · rw [same, Function.update_self, queued]
        exact Nat.le_succ _
      · rw [Function.update_of_ne same]
    exact decide_eq_true (Nat.lt_of_le_of_lt shorter (of_decide_eq_true free))

theorem step {action : PoolAction DrvId} (keeps : pool.leavesNoneOut action = true)
    (taken : pool.step builders action = some next) : Covers builders next := by
  cases action with
  | receive => exact covers.receive taken
  | consider => exact consider taken
  | check => exact covers.check taken
  | recover => exact covers.recover keeps taken
  | probed probeOk => exact covers.probed keeps taken
  | settle => exact covers.settle taken
  | dispatch => exact dispatch taken
  | submit work =>
    rw [BuilderPool.step] at taken
    split at taken
    · cases Option.some.inj taken
      exact covers.of_kept rfl (fun _ others buffer => ⟨others, buffer⟩) fun _ free => free
    · cases taken
  | take name => exact covers.take taken
  | elapse now =>
    rw [BuilderPool.step] at taken
    split at taken
    · cases Option.some.inj taken
      exact covers.of_kept rfl (fun _ others buffer => ⟨others, buffer⟩) fun _ free => free
    · cases taken
  | call name call =>
    cases Option.some.inj taken
    exact covers.withRegistry _

end Covers

variable {builders : List Builder} {pool next : BuilderPool DrvId}

theorem CanDispatch.own {action : PoolAction DrvId} (own : action.isOwn = true)
    (taken : pool.step builders action = some next) (can : CanDispatch builders next) : CanDispatch builders pool := by
  obtain ⟨actions, ready, all, performed, enabled⟩ := can
  refine ⟨action :: actions, ready, List.forall_mem_cons.mpr ⟨own, all⟩, ?_, enabled⟩
  rw [exec, taken, Option.bind_some, performed]

theorem dispatch_isSome_iff {compatible : List Builder} (phase : pool.phase = .waiting compatible) {job : Drv DrvId}
    {others : List (Drv DrvId)} (buffer : pool.buildBuffer = job :: others) :
    pool.dispatch.isSome = true ↔ ∃ taken ∈ compatible, pool.hasPermit taken = true := by
  simp only [dispatch, phase, buffer, Option.isSome_map, List.find?_isSome]

/-- A builder that was taken has a permit, or one still to be looked at is free to
run the job. -/
def Offers (pool : BuilderPool DrvId) (job : Drv DrvId) (compatible rest : List Builder) : Prop :=
  (∃ taken ∈ compatible, pool.hasPermit taken = true) ∨
    ∃ builder ∈ rest, builder.canHandle job = true ∧ pool.accepts builder = true ∧ pool.hasPermit builder = true

theorem Offers.judge {job : Drv DrvId} {builder : Builder} {compatible rest : List Builder}
    (offers : pool.Offers job compatible (builder :: rest)) (fit : Bool) (registry : CircuitBreakerRegistry)
    (fits : builder.canHandle job = true → pool.accepts builder = true → fit = true)
    (accepting : ∀ other, pool.accepts other = true → accepts { pool with registry := registry } other = true) :
    Offers ({ pool with registry := registry }.judge fit builder compatible rest) job
      (if fit then compatible ++ [builder] else compatible) rest := by
  obtain ⟨taken, member, free⟩ | ⟨other, member, can, accepted, free⟩ := offers
  · refine .inl ⟨taken, ?_, free⟩
    split
    · exact List.mem_append_left _ member
    · exact member
  · obtain rfl | member := List.mem_cons.mp member
    · refine .inl ⟨other, ?_, free⟩
      rw [if_pos (fits can accepted)]
      exact List.mem_append_right _ List.mem_cons_self
    · exact .inr ⟨other, member, can, accepting other accepted, free⟩

end BuilderPool

namespace CircuitBreakerRegistry

variable {registry : CircuitBreakerRegistry} {now : Instant} {name other : String}

theorem isAvailable_of_probed (available : name = other ∨ registry.isAvailable now name = true) :
    (registry.finishTryRecover now other true).2.isAvailable now name = true := by
  rw [isAvailable, finishTryRecover_get]
  by_cases same : name = other
  · rw [if_pos same]
    cases registry.inner.get name <;> rfl
  · rw [if_neg same]
    exact available.resolve_left same

theorem finishTryRecover_true : (registry.finishTryRecover now name true).1 = true := by
  rw [finishTryRecover]
  split <;> rfl

theorem isAvailable_of_begun (different : name ≠ other) (available : registry.isAvailable now name = true) :
    (registry.beginTryRecover now other).2.isAvailable now name = true := by
  rw [isAvailable, beginTryRecover_get, if_neg different]
  exact available

end CircuitBreakerRegistry

namespace BuilderPool

section Alone

variable {builders : List Builder} {pool : BuilderPool DrvId} {job : Drv DrvId} {others : List (Drv DrvId)}
  {builder : Builder} {compatible rest : List Builder}

theorem canDispatch_of_waiting (phase : pool.phase = .waiting compatible) (buffer : pool.buildBuffer = job :: others)
    (free : ∃ taken ∈ compatible, pool.hasPermit taken = true) : CanDispatch builders pool :=
  ⟨[], pool, nofun, rfl, (dispatch_isSome_iff phase buffer).mpr free⟩

/-- With these builders still to be looked at, the loop gets to a dispatch. -/
def Passes (builders : List Builder) (job : Drv DrvId) (others : List (Drv DrvId)) (rest : List Builder) : Prop :=
  ∀ (pool : BuilderPool DrvId) (compatible : List Builder), pool.phase = .filtering compatible rest →
    pool.buildBuffer = job :: others → pool.Offers job compatible rest → CanDispatch builders pool

theorem accepts_of_isAvailable {registry : CircuitBreakerRegistry}
    (available : ∀ name, pool.registry.isAvailable pool.clock name = true → registry.isAvailable pool.clock name = true)
    (other : Builder) (accepted : pool.accepts other = true) :
    accepts { pool with registry := registry } other = true := by
  rw [accepts, Bool.or_eq_true_iff] at accepted ⊢
  exact accepted.imp_right (available other.builderName)

theorem canDispatch_of_probing (later : Passes builders job others rest)
    (phase : pool.phase = .probing builder compatible rest) (buffer : pool.buildBuffer = job :: others)
    (offers : Offers ({ pool with
      registry := (pool.registry.finishTryRecover pool.clock builder.builderName true).2 }.judge true builder
        compatible rest) job (if true then compatible ++ [builder] else compatible) rest) :
    CanDispatch builders pool := by
  have taken : pool.step builders (.probed true) = some ({ pool with
      registry := (pool.registry.finishTryRecover pool.clock builder.builderName true).2 }.judge true builder
        compatible rest) := by
    simp only [step, probed, phase, CircuitBreakerRegistry.finishTryRecover_true]
  exact .own rfl taken (later _ _ rfl buffer offers)

theorem canDispatch_of_recovering (later : Passes builders job others rest)
    (phase : pool.phase = .recovering builder compatible rest) (buffer : pool.buildBuffer = job :: others)
    (remote : builder.remoteUri.isSome = true) (offers : pool.Offers job compatible (builder :: rest)) :
    CanDispatch builders pool := by
  have settled (available : Bool) (registry : CircuitBreakerRegistry)
      (begun : pool.registry.beginTryRecover pool.clock builder.builderName = (.settled available, registry)) :
      pool.step builders .recover = some ({ pool with registry := registry }.judge available builder compatible rest) := by
    rw [step, recover, phase]
    simp only [begun]
  obtain ⟨begun, -⟩ | ⟨begun, breaker, found, refused, -⟩ | ⟨breaker, recoverAt, found, -, -, begun⟩ :=
    pool.registry.beginTryRecover_cases pool.clock builder.builderName
  · exact .own rfl (settled true _ begun) (later _ _ rfl buffer
      (offers.judge true _ (fun _ _ => rfl) fun _ accepted => accepted))
  · refine .own rfl (settled false _ begun) (later _ _ rfl buffer
      (offers.judge false _ (fun _ accepted => ?_) fun _ accepted => accepted))
    have unavailable : pool.registry.isAvailable pool.clock builder.builderName = false := by
      rw [CircuitBreakerRegistry.isAvailable, found]
      exact refused
    exact absurd (accepted.symm.trans (accepts_eq_false.mpr ⟨remote, unavailable⟩)) nofun
  · -- the probe under way comes out well, whatever else is free
    have taken : pool.step builders .recover = some { pool with
        registry := (pool.registry.beginTryRecover pool.clock builder.builderName).2
        phase := .probing builder compatible rest } := by
      simp only [step, recover, phase, begun]
    refine .own rfl taken (canDispatch_of_probing later rfl buffer ?_)
    refine offers.judge true _ (fun _ _ => rfl) (accepts_of_isAvailable fun name available => ?_)
    apply CircuitBreakerRegistry.isAvailable_of_probed
    by_cases same : name = builder.builderName
    · exact .inl same
    · exact .inr (CircuitBreakerRegistry.isAvailable_of_begun same available)

theorem passes (builders : List Builder) (job : Drv DrvId) (others : List (Drv DrvId)) (rest : List Builder) :
    Passes builders job others rest := by
  induction rest with
  | nil =>
    intro pool compatible phase buffer offers
    obtain free | ⟨_, member, -⟩ := offers
    · have taken : pool.step builders .settle = some { pool with phase := .waiting compatible } := by
        rw [step, settle, phase]
      exact .own rfl taken (canDispatch_of_waiting rfl buffer free)
    · cases member
  | cons builder rest ih =>
    intro pool compatible phase buffer offers
    have checked : pool.step builders .check =
        if builder.canHandle job = false then some (pool.judge false builder compatible rest)
        else if pool.accepts builder = false then some { pool with phase := .recovering builder compatible rest }
        else some (pool.judge true builder compatible rest) := by
      simp only [step, check, phase, buffer]
    by_cases cannot : builder.canHandle job = false
    · rw [if_pos cannot] at checked
      refine .own rfl checked (ih _ _ rfl buffer (offers.judge false pool.registry (fun can => ?_) fun _ => id))
      exact absurd (can.symm.trans cannot) nofun
    · rw [if_neg cannot] at checked
      by_cases refused : pool.accepts builder = false
      · rw [if_pos refused] at checked
        exact .own rfl checked (canDispatch_of_recovering ih rfl buffer (accepts_eq_false.mp refused).1 offers)
      · rw [if_neg refused] at checked
        exact .own rfl checked (ih _ _ rfl buffer (offers.judge true pool.registry (fun _ _ => rfl) fun _ => id))

theorem canDispatch_of_outer (phase : pool.phase = .outer) (buffer : pool.buildBuffer = job :: others)
    (offers : pool.Offers job [] builders) : CanDispatch builders pool := by
  induction incoming : pool.incoming generalizing pool others with
  | nil =>
    have taken : pool.step builders .consider = some { pool with phase := .filtering [] builders } := by
      simp only [step, consider, phase, incoming, buffer]
    exact .own rfl taken (passes builders job others builders _ _ rfl buffer offers)
  | cons work rest ih =>
    have taken : pool.step builders .receive =
        some { pool with incoming := rest, buildBuffer := pool.buildBuffer ++ [work] } := by
      simp only [step, receive, phase, incoming]
    have longer : pool.buildBuffer ++ [work] = job :: (others ++ [work]) := by rw [buffer, List.cons_append]
    exact .own rfl taken (ih phase longer offers rfl)

end Alone

theorem Covers.noDeadlock {builders : List Builder} {pool : BuilderPool DrvId} (covers : Covers builders pool) :
    NoDeadlock builders pool := by
  intro job others buffer builder member can accepted free
  -- where the loop is considering the job, the free builder is still among those it knows
  have offers (compatible rest) (pending : pool.phase.pending = some (compatible, rest)) :
      pool.Offers job compatible rest := by
    obtain ⟨front, more, same, covered⟩ := covers.considered compatible rest pending
    cases buffer.symm.trans same
    obtain taken | left | taken := covered builder member can
    · exact .inl ⟨builder, taken, free⟩
    · exact .inr ⟨builder, left, can, accepted, free⟩
    · exact .inl taken
  cases phase : pool.phase with
  | outer => exact canDispatch_of_outer phase buffer (.inr ⟨builder, member, can, accepted, free⟩)
  | filtering compatible rest =>
    exact passes builders job others rest pool compatible phase buffer (offers _ _ (by rw [phase, LoopPhase.pending]))
  | recovering candidate compatible rest =>
    exact canDispatch_of_recovering (passes builders job others rest) phase buffer
      (covers.remote candidate compatible rest phase) (offers _ _ (by rw [phase, LoopPhase.pending]))
  | probing candidate compatible rest =>
    apply canDispatch_of_probing (passes builders job others rest) phase buffer
    refine (offers compatible (candidate :: rest) (by rw [phase, LoopPhase.pending])).judge true _ (fun _ _ => rfl)
      (accepts_of_isAvailable fun name available => ?_)
    exact CircuitBreakerRegistry.isAvailable_of_probed (.inr available)
  | waiting compatible =>
    obtain free | ⟨_, member, -⟩ := offers compatible [] (by rw [phase, LoopPhase.pending])
    · exact canDispatch_of_waiting phase buffer free
    · cases member

/-- As long as no builder is left out for its breaker, the job at the front never
waits while a builder is free to run it. -/
theorem run_noDeadlock (builders : List Builder) (registry : CircuitBreakerRegistry) (now : Instant)
    {actions : List (PoolAction DrvId)} {pool : BuilderPool DrvId}
    (run : Run (step builders) (fun pool action => pool.leavesNoneOut action = true) (start registry now) actions pool) :
    NoDeadlock builders pool :=
  (run.invariant (start_covers builders registry now) fun _ _ _ covers keeps taken =>
    covers.step keeps taken).noDeadlock

def remoteBuilder : Builder := ⟨false, 8, some "ssh://remote", "'ssh://remote x86_64-linux'", [], []⟩

/-- The builder has failed, and is probed before the next job goes to it. -/
def recoveredBuilder : List (PoolAction Nat) :=
  [.call remoteBuilder.builderName .recordFailure, .call remoteBuilder.builderName .recordFailure,
    .call remoteBuilder.builderName .recordFailure, .submit (.plain 0 .buildable), .receive, .consider, .check,
    .elapse (40 * second), .recover, .probed true, .settle]

theorem recoveredBuilder_noDeadlock : ∃ pool, Run (step [remoteBuilder])
    (fun pool action => pool.leavesNoneOut action = true) (start (.register .new remoteBuilder.builderName) 0)
    recoveredBuilder pool ∧ pool.phase = .waiting [remoteBuilder] ∧ NoDeadlock [remoteBuilder] pool := by
  refine exists_run_of_checkRun_imp (p := fun pool => pool.phase = .waiting [remoteBuilder]) (by decide) fun pool run phase => ?_
  exact ⟨phase, run_noDeadlock [remoteBuilder] _ 0 run⟩

theorem permit_of_canDispatch {builders compatible : List Builder} {pool : BuilderPool DrvId}
    (phase : pool.phase = .waiting compatible) (can : CanDispatch builders pool) :
    ∃ taken ∈ compatible, pool.hasPermit taken = true := by
  obtain ⟨actions, ready, own, performed, enabled⟩ := can
  have kept : ready.phase = .waiting compatible ∧ ready.channels = pool.channels := by
    refine exec_invariant (p := fun other => other.phase = .waiting compatible ∧ other.channels = pool.channels)
      performed ⟨phase, rfl⟩ fun state action next member same taken => ?_
    have own := own action member
    cases action with
    | receive =>
      cases incoming : state.incoming with
      | nil => simp only [step, receive, same.1, incoming, reduceCtorEq] at taken
      | cons work rest =>
        simp only [step, receive, same.1, incoming] at taken
        cases Option.some.inj taken
        exact ⟨rfl, same.2⟩
    | consider | check | recover | probed | settle =>
      simp only [step, consider, check, recover, probed, settle, same.1, reduceCtorEq] at taken
    | dispatch | submit | take | elapse | call => cases own
  cases buffer : ready.buildBuffer with
  | nil => simp only [dispatch, kept.1, buffer, Option.isSome_none, Bool.false_eq_true] at enabled
  | cons job others =>
    obtain ⟨taken, member, free⟩ := (dispatch_isSome_iff kept.1 buffer).mp enabled
    rw [hasPermit, kept.2] at free
    exact ⟨taken, member, free⟩

/-- The breaker is open when the job is considered; it never comes back. -/
def waitsForNobody : List (PoolAction Nat) :=
  [.call remoteBuilder.builderName .recordFailure, .call remoteBuilder.builderName .recordFailure,
    .call remoteBuilder.builderName .recordFailure, .submit (.plain 0 .buildable), .receive, .consider, .check,
    .recover, .settle, .elapse (40 * second)]

/-- The builder has been available again for a while, and the job still waits. -/
theorem waitsForNobody_deadlock : ∃ pool, AnyRun (step [remoteBuilder])
    (start (.register .new remoteBuilder.builderName) 0) waitsForNobody pool ∧ ¬ NoDeadlock [remoteBuilder] pool := by
  refine exists_run_of_exec_imp (p := fun pool => pool.phase = .waiting [] ∧ pool.buildBuffer = [.plain 0 .buildable] ∧
      pool.accepts remoteBuilder = true ∧ pool.hasPermit remoteBuilder = true)
    (by decide) fun pool run ⟨phase, buffer, accepted, free⟩ noDeadlock => ?_
  have can := noDeadlock _ [] buffer remoteBuilder List.mem_cons_self (by decide) accepted free
  obtain ⟨taken, member, -⟩ := permit_of_canDispatch phase can
  cases member

end BuilderPool

end EkaCI
