import EkaCI.Sandbox.Attach

/-! Why the program of a filtered sandbox never runs in a network that is still open: what each
process may rely on, and that every step of every process keeps it. -/

namespace EkaCI

open Lib

namespace HelperPhase

/-- The setup helper has not been spawned. -/
def beforeSetup : HelperPhase → Bool
  | spawning | readingInfo | mapping => true
  | _ => false

def beforePasta : HelperPhase → Bool
  | spawning | readingInfo | mapping | joining => true
  | _ => false

end HelperPhase

namespace Attach

variable {setting : AttachSetting} {state next : Attach}

/-- The network is that of the plan and stays so, or nothing can be reached in it. -/
def Closed (setting : AttachSetting) (state : Attach) : Prop :=
  state.pasta = .dead ∨
    (state.pasta = .attached ∧ state.net = setting.attachedNet.withRoutes setting.plan ∧
      (state.setup = .holding ∨ state.setup = .dead))

/-- What the four processes may rely on. -/
structure Guarded (setting : AttachSetting) (state : Attach) : Prop where
  quiet : state.pasta ≠ .attached → state.net.Quiet
  args : ∀ args, state.setup = .entering args → setting.setupArgs = .ok args
  routes : ∀ routes, state.setup = .awaitingDevice routes → routes = setting.plan
  untouched : ∀ routes, state.setup = .awaitingDevice routes → state.pasta = .attached →
    state.net = setting.attachedNet
  entering : ∀ args, state.setup = .entering args → state.pasta = .attached → state.net = setting.attachedNet
  routing : ∀ ifindex rest netlink, state.setup = .routing ifindex rest netlink → state.pasta = .dead ∨
    (state.pasta = .attached ∧ ifindex = setting.device.toNat ∧ netlink.replies = [] ∧
      ∃ done, setting.plan = done ++ rest ∧ state.net = setting.attachedNet.withRoutes done)
  beforeSetup : state.helper.beforeSetup = true → state.setup = .absent ∧ state.events = []
  beforePasta : state.helper.beforePasta = true → state.pasta = .absent
  reported : .routed ∈ state.events ∨ state.setup = .holding ∨ state.helper = .opening ∨ state.helper = .waiting →
    state.Closed setting
  spawning : state.helper = .spawning → state.byte = false ∧ state.blockOpen = true
  opened : state.helper ≠ .killed → state.byte = true ∨ state.blockOpen = false →
    state.Closed setting ∨ state.bwrap = .dead ∨ state.bwrap = .absent
  dropped : state.helper = .droppingBlock → state.bwrap = .dead ∨ state.bwrap = .absent
  running : state.helper ≠ .killed → state.bwrap = .running → state.Closed setting

theorem guarded_start : Guarded setting start where
  quiet := fun _ => SandboxNet.quiet_empty
  args := nofun
  routes := nofun
  untouched := nofun
  entering := nofun
  routing := nofun
  beforeSetup := fun _ => ⟨rfl, rfl⟩
  beforePasta := fun _ => rfl
  reported := by simp [start]
  spawning := fun _ => ⟨rfl, rfl⟩
  opened := by simp [start]
  dropped := nofun
  running := nofun

theorem not_closed_of_pasta (fresh : state.pasta = .absent ∨ state.pasta = .starting) : ¬state.Closed setting := by
  rcases fresh with absent | starting
  · simp [Closed, absent]
  · simp [Closed, starting]

section Helper

variable (guarded : Guarded setting state)
include guarded

theorem Guarded.reported_of {phase : HelperPhase} (shut : phase = .opening ∨ phase = .waiting → state.Closed setting) :
    .routed ∈ state.events ∨ state.setup = .holding ∨ phase = .opening ∨ phase = .waiting → state.Closed setting := by
  rintro (routed | holding | phases)
  · exact guarded.reported (Or.inl routed)
  · exact guarded.reported (Or.inr (Or.inl holding))
  · exact shut phases

theorem Guarded.move (phase : HelperPhase) (setupLater : phase.beforeSetup = true → state.helper.beforeSetup = true)
    (pastaLater : phase.beforePasta = true → state.helper.beforePasta = true)
    (shut : phase = .opening ∨ phase = .waiting → state.Closed setting) (away : phase ≠ .spawning)
    (later : phase ≠ .droppingBlock) (alive : state.helper ≠ .killed) :
    Guarded setting { state with helper := phase } :=
  { guarded with
    beforeSetup := fun before => guarded.beforeSetup (setupLater before)
    beforePasta := fun before => guarded.beforePasta (pastaLater before)
    reported := guarded.reported_of shut
    spawning := fun same => absurd same away
    opened := fun _ => guarded.opened alive
    dropped := fun same => absurd same later
    running := fun _ => guarded.running alive }

theorem Guarded.spawn (phase : state.helper = .spawning) :
    Guarded setting { state with helper := .readingInfo, bwrap := .starting } :=
  have before : state.helper.beforeSetup = true := by rw [phase]; rfl
  have untouched := guarded.spawning phase
  { guarded with
    beforeSetup := fun _ => guarded.beforeSetup before
    beforePasta := fun _ => guarded.beforePasta (by rw [phase]; rfl)
    reported := by
      have early := guarded.beforeSetup before
      rintro (routed | holding | opening | waiting)
      · simp [early.2] at routed
      · simp [early.1] at holding
      · cases opening
      · cases waiting
    spawning := nofun
    opened := by
      rintro - (written | shut)
      · simp [untouched.1] at written
      · simp [untouched.2] at shut
    dropped := nofun
    running := nofun }

theorem Guarded.enter (phase : state.helper = .mapping) {args : List String} (given : setting.setupArgs = .ok args) :
    Guarded setting { state with helper := .joining, setup := .entering args } :=
  have fresh : state.pasta = .absent := guarded.beforePasta (by rw [phase]; rfl)
  have open_ : ¬state.Closed setting := not_closed_of_pasta (Or.inl fresh)
  have alive : state.helper ≠ .killed := by rw [phase]; nofun
  have early := guarded.beforeSetup (by rw [phase]; rfl)
  { guarded with
    args := fun _ same => by cases same; exact given
    routes := nofun
    untouched := nofun
    entering := fun _ _ attached => by rw [fresh] at attached; cases attached
    routing := nofun
    beforeSetup := nofun
    beforePasta := fun _ => fresh
    reported := by
      rintro (routed | holding | opening | waiting)
      · simp [early.2] at routed
      · cases holding
      · cases opening
      · cases waiting
    spawning := nofun
    opened := fun _ touched => (guarded.opened alive touched).imp_left fun closed => absurd closed open_
    dropped := nofun
    running := fun _ runs => absurd (guarded.running alive runs) open_ }

theorem Guarded.join (phase : state.helper = .joining) {rest : List SetupEvent}
    (events : state.events = .joined :: rest) :
    Guarded setting { state with helper := .routing, pasta := .starting, events := rest } :=
  have fresh : state.pasta = .absent := guarded.beforePasta (by rw [phase]; rfl)
  have open_ : ¬state.Closed setting := not_closed_of_pasta (Or.inl fresh)
  have alive : state.helper ≠ .killed := by rw [phase]; nofun
  have quiet := guarded.quiet (by rw [fresh]; nofun)
  { guarded with
    quiet := fun _ => quiet
    untouched := nofun
    entering := nofun
    routing := fun ifindex rest netlink same => by
      rcases guarded.routing ifindex rest netlink same with dead | ⟨attached, -⟩
      · rw [fresh] at dead; cases dead
      · rw [fresh] at attached; cases attached
    beforeSetup := nofun
    beforePasta := nofun
    reported := by
      rintro (routed | holding | opening | waiting)
      · refine absurd (guarded.reported (Or.inl ?_)) open_
        rw [events]
        exact List.mem_cons_of_mem _ routed
      · exact absurd (guarded.reported (Or.inr (Or.inl holding))) open_
      · cases opening
      · cases waiting
    spawning := nofun
    opened := fun _ touched => (guarded.opened alive touched).imp_left fun closed => absurd closed open_
    dropped := nofun
    running := fun _ runs => absurd (guarded.running alive runs) open_ }

theorem Guarded.readRouted (alive : state.helper ≠ .killed) {rest : List SetupEvent}
    (events : state.events = .routed :: rest) :
    Guarded setting { state with helper := .opening, events := rest } :=
  have closed : state.Closed setting := guarded.reported (Or.inl (by rw [events]; exact List.mem_cons_self))
  { guarded with
    beforeSetup := nofun
    beforePasta := nofun
    reported := fun _ => closed
    spawning := nofun
    opened := fun _ => guarded.opened alive
    dropped := nofun
    running := fun _ => guarded.running alive }

theorem Guarded.unblock (closed : state.Closed setting) {phase : HelperPhase} (byte : Bool)
    (end_ : phase = .waiting ∨ phase = .droppingNetwork) :
    Guarded setting { state with helper := phase, byte := byte, blockOpen := false } :=
  { guarded with
    beforeSetup := by rcases end_ with rfl | rfl <;> nofun
    beforePasta := by rcases end_ with rfl | rfl <;> nofun
    reported := fun _ => closed
    spawning := by rcases end_ with rfl | rfl <;> nofun
    opened := fun _ _ => Or.inl closed
    dropped := by rcases end_ with rfl | rfl <;> nofun
    running := fun _ _ => closed }

theorem Guarded.kill : Guarded setting { state with helper := .killed, blockOpen := false } :=
  { guarded with
    beforeSetup := nofun
    beforePasta := nofun
    reported := guarded.reported_of nofun
    spawning := nofun
    opened := fun alive => absurd rfl alive
    dropped := nofun
    running := fun alive => absurd rfl alive }

end Helper

theorem Closed.dropNetwork (closed : state.Closed setting) : state.dropNetwork.Closed setting := by
  have present : state.pasta ≠ .absent := by
    rintro absent
    exact not_closed_of_pasta (Or.inl absent) closed
  exact Or.inl (if_neg present)

theorem setup_dropNetwork (state : Attach) : state.dropNetwork.setup = .absent ∨ state.dropNetwork.setup = .dead := by
  unfold Attach.dropNetwork
  cases state.setup with
  | absent => exact Or.inl rfl
  | _ => exact Or.inr rfl

theorem bwrap_dropSandbox (state : Attach) : state.dropSandbox.bwrap = .dead ∨ state.dropSandbox.bwrap = .absent := by
  by_cases absent : state.bwrap = .absent
  · exact Or.inr (if_pos absent)
  · exact Or.inl (if_neg absent)

section Drop

variable (guarded : Guarded setting state)
include guarded

theorem Guarded.dropNetwork : Guarded setting state.dropNetwork :=
  have ended := setup_dropNetwork state
  { guarded with
    quiet := fun _ => SandboxNet.quiet_withoutDevice state.net
    args := fun args entering => by rcases ended with same | same <;> simp [same] at entering
    routes := fun routes awaiting => by rcases ended with same | same <;> simp [same] at awaiting
    untouched := fun routes awaiting => by rcases ended with same | same <;> simp [same] at awaiting
    entering := fun args entering => by rcases ended with same | same <;> simp [same] at entering
    routing := fun _ _ _ routing => by rcases ended with same | same <;> simp [same] at routing
    beforeSetup := fun before => by
      obtain ⟨absent, silent⟩ := guarded.beforeSetup before
      simp only [Attach.dropNetwork, absent, silent, and_self]
    beforePasta := fun before => if_pos (guarded.beforePasta before)
    reported := by
      rintro (routed | holding | phases)
      · exact (guarded.reported (Or.inl routed)).dropNetwork
      · rcases ended with same | same <;> simp [same] at holding
      · exact (guarded.reported (Or.inr (Or.inr phases))).dropNetwork
    opened := fun alive touched => (guarded.opened alive touched).imp_left Closed.dropNetwork
    running := fun alive runs => (guarded.running alive runs).dropNetwork }

theorem Guarded.dropSandbox {phase : HelperPhase} (end_ : phase = .droppingBlock ∨ phase = .gone) :
    Guarded setting { state.dropSandbox with helper := phase } :=
  { guarded with
    beforeSetup := by rcases end_ with rfl | rfl <;> nofun
    beforePasta := by rcases end_ with rfl | rfl <;> nofun
    reported := guarded.reported_of (by rcases end_ with rfl | rfl <;> nofun)
    spawning := by rcases end_ with rfl | rfl <;> nofun
    opened := fun _ _ => Or.inr (bwrap_dropSandbox state)
    dropped := fun _ => bwrap_dropSandbox state
    running := fun _ runs => by
      rcases bwrap_dropSandbox state with ended | ended
      · rw [ended] at runs
        cases runs
      · rw [ended] at runs
        cases runs }

theorem Guarded.dropBlock (phase : state.helper = .droppingBlock) :
    Guarded setting { state with helper := .gone, blockOpen := false } :=
  { guarded with
    beforeSetup := nofun
    beforePasta := nofun
    reported := guarded.reported_of nofun
    spawning := nofun
    opened := fun _ _ => Or.inr (guarded.dropped phase)
    dropped := nofun
    running := fun _ => guarded.running (by rw [phase]; nofun) }

end Drop

theorem Guarded.stepHelper (guarded : Guarded setting state) (taken : state.stepHelper setting = some next) :
    Guarded setting next := by
  have alive : state.helper ≠ .killed := by
    intro killed
    rw [Attach.stepHelper, killed] at taken
    cases taken
  have giveUp : Guarded setting { state with helper := .droppingNetwork } :=
    guarded.move .droppingNetwork nofun nofun nofun nofun nofun alive
  unfold Attach.stepHelper at taken
  split at taken
  next phase =>
    rw [AttachSetting.setupArgs_eq] at taken
    cases taken
    exact guarded.spawn phase
  next phase =>
    by_cases known : state.info = true
    · rw [if_pos known] at taken
      cases taken
      exact guarded.move .mapping (fun _ => by rw [phase]; rfl) (fun _ => by rw [phase]; rfl) nofun nofun nofun alive
    rw [if_neg known] at taken
    by_cases ended : state.bwrap = .dead
    · rw [if_pos ended] at taken
      cases taken
      exact giveUp
    · rw [if_neg ended] at taken
      cases taken
  next phase =>
    split at taken
    next given =>
      cases taken
      exact guarded.enter phase given
    next => cases taken
  next phase =>
    split at taken
    next events =>
      cases taken
      exact guarded.join phase events
    next =>
      cases taken
      exact giveUp
    next =>
      cases taken
      exact giveUp
    next => cases taken
  next phase =>
    split at taken
    next events =>
      cases taken
      exact guarded.readRouted alive events
    next =>
      cases taken
      exact giveUp
    next =>
      cases taken
      exact giveUp
    next => cases taken
  next phase =>
    have closed := guarded.reported (Or.inr (Or.inr (Or.inl phase)))
    by_cases ended : state.bwrap = .dead
    · rw [if_pos ended] at taken
      cases taken
      exact guarded.unblock closed state.byte (Or.inr rfl)
    · rw [if_neg ended] at taken
      cases taken
      exact guarded.unblock closed true (Or.inl rfl)
  next phase =>
    by_cases ended : state.bwrap = .dead
    · rw [if_pos ended] at taken
      cases taken
      exact giveUp
    · rw [if_neg ended] at taken
      cases taken
  next =>
    cases taken
    exact guarded.dropNetwork.move .droppingSandbox nofun nofun nofun nofun nofun alive
  next =>
    cases taken
    exact guarded.dropSandbox (Or.inl rfl)
  next phase =>
    cases taken
    exact guarded.dropBlock phase
  next => cases taken
  next => cases taken

theorem Guarded.failHelper (guarded : Guarded setting state) (taken : state.failHelper = some next) :
    Guarded setting next := by
  have alive : state.helper ≠ .killed := by
    intro killed
    rw [Attach.failHelper, killed] at taken
    cases taken
  unfold Attach.failHelper at taken
  split at taken
  next => cases taken
  next => cases taken
  next => cases taken
  next => cases taken
  next => cases taken
  next phase =>
    cases taken
    exact guarded.unblock (guarded.reported (Or.inr (Or.inr (Or.inl phase)))) state.byte (Or.inr rfl)
  next =>
    cases taken
    exact guarded.move .droppingNetwork nofun nofun nofun nofun nofun alive

theorem killHelper_cases (taken : state.killHelper = some next) :
    state.helper ≠ .killed ∧ state.helper ≠ .gone ∧ next = { state with helper := .killed, blockOpen := false } := by
  unfold Attach.killHelper at taken
  split at taken
  next => cases taken
  next => cases taken
  next alive present => exact ⟨alive, present, (Option.some.inj taken).symm⟩

theorem Guarded.signalChildren (guarded : Guarded setting state) (taken : state.signalChildren = some next) :
    Guarded setting next := by
  unfold Attach.signalChildren at taken
  split at taken
  next killed =>
    cases taken
    exact guarded.dropNetwork.dropSandbox (Or.inr rfl)
  next => cases taken

theorem Guarded.setBwrap (guarded : Guarded setting state) (phase : BwrapPhase) (info : Bool)
    (opened : state.helper ≠ .killed → state.byte = true ∨ state.blockOpen = false →
      state.Closed setting ∨ phase = .dead ∨ phase = .absent)
    (dropped : state.helper = .droppingBlock → phase = .dead ∨ phase = .absent)
    (running : state.helper ≠ .killed → phase = .running → state.Closed setting) :
    Guarded setting { state with bwrap := phase, info := info } :=
  { guarded with
    opened := opened
    dropped := dropped
    running := running }

theorem Guarded.closed_of_opened (guarded : Guarded setting state) (alive : state.helper ≠ .killed)
    (live : state.bwrap ≠ .dead) (present : state.bwrap ≠ .absent) (touched : state.byte = true ∨ state.blockOpen = false) :
    state.Closed setting := by
  rcases guarded.opened alive touched with closed | dead | absent
  · exact closed
  · exact absurd dead live
  · exact absurd absent present

theorem Guarded.not_dropped (guarded : Guarded setting state) (live : state.bwrap ≠ .dead)
    (present : state.bwrap ≠ .absent) : state.helper ≠ .droppingBlock := by
  intro phase
  rcases guarded.dropped phase with dead | absent
  · exact live dead
  · exact present absent

theorem Guarded.stepBwrap (guarded : Guarded setting state) (taken : state.stepBwrap = some next) :
    Guarded setting next := by
  have later := fun (phase : BwrapPhase) (info : Bool) (live : state.bwrap ≠ .dead)
      (present : state.bwrap ≠ .absent) =>
    guarded.setBwrap phase info (fun alive touched => Or.inl (guarded.closed_of_opened alive live present touched))
      (fun dropping => absurd dropping (guarded.not_dropped live present))
  unfold Attach.stepBwrap at taken
  split at taken
  next phase =>
    cases taken
    exact later .informed true (by rw [phase]; nofun) (by rw [phase]; nofun) nofun
  next phase =>
    cases taken
    exact later .mapped state.info (by rw [phase]; nofun) (by rw [phase]; nofun) nofun
  next phase =>
    have live : state.bwrap ≠ .dead := by rw [phase]; nofun
    have present : state.bwrap ≠ .absent := by rw [phase]; nofun
    by_cases touched : state.byte = true ∨ state.blockOpen = false
    · rw [if_pos touched] at taken
      cases taken
      exact later .running state.info live present fun alive _ => guarded.closed_of_opened alive live present touched
    · rw [if_neg touched] at taken
      cases taken
  next => cases taken

theorem Guarded.bwrapEnd (guarded : Guarded setting state) : Guarded setting { state with bwrap := .dead } :=
  guarded.setBwrap .dead state.info (fun _ _ => Or.inr (Or.inl rfl)) (fun _ => Or.inl rfl) nofun

theorem Closed.dead_of_working (closed : state.Closed setting) (working : state.setup ≠ .holding)
    (alive : state.setup ≠ .dead) : state.pasta = .dead := by
  rcases closed with dead | ⟨-, -, holding | ended⟩
  · exact dead
  · exact absurd holding working
  · exact absurd ended alive

theorem mem_snoc_joined {events : List SetupEvent} (routed : .routed ∈ events ++ [.joined]) : .routed ∈ events := by
  simpa using routed

section Setup

variable (guarded : Guarded setting state)
include guarded

theorem Guarded.not_beforeSetup (spawned : state.setup ≠ .absent) : ¬state.helper.beforeSetup = true :=
  fun before => spawned (guarded.beforeSetup before).1

theorem Guarded.setupEnd (spawned : state.setup ≠ .absent) : Guarded setting { state with setup := .dead } :=
  have still : state.Closed setting → Closed setting { state with setup := .dead } := by
    rintro (dead | ⟨attached, routes, -⟩)
    · exact Or.inl dead
    · exact Or.inr ⟨attached, routes, Or.inr rfl⟩
  { guarded with
    args := nofun
    routes := nofun
    untouched := nofun
    entering := nofun
    routing := nofun
    beforeSetup := fun before => absurd before (guarded.not_beforeSetup spawned)
    reported := by
      rintro (routed | holding | phases)
      · exact still (guarded.reported (Or.inl routed))
      · cases holding
      · exact still (guarded.reported (Or.inr (Or.inr phases)))
    opened := fun alive touched => (guarded.opened alive touched).imp_left still
    running := fun alive runs => still (guarded.running alive runs) }

/-- A setup helper that goes on working, with what it leaves of the network: before it the
network was only closed if pasta had ended. -/
theorem Guarded.setupWork (setup : SetupPhase) {events : List SetupEvent} {net : SandboxNet}
    (spawned : state.setup ≠ .absent) (working : state.setup ≠ .holding) (alive : state.setup ≠ .dead)
    (quiet : state.pasta ≠ .attached → net.Quiet) (args : ∀ args, setup ≠ .entering args)
    (routes : ∀ routes, setup = .awaitingDevice routes →
      routes = setting.plan ∧ (state.pasta = .attached → net = setting.attachedNet))
    (routing : ∀ ifindex rest netlink, setup = .routing ifindex rest netlink → state.pasta = .dead ∨
      (state.pasta = .attached ∧ ifindex = setting.device.toNat ∧ netlink.replies = [] ∧
        ∃ done, setting.plan = done ++ rest ∧ net = setting.attachedNet.withRoutes done))
    (reported : .routed ∈ events → .routed ∉ state.events → Closed setting { state with setup := setup, net := net })
    (holding : setup = .holding → Closed setting { state with setup := setup, net := net }) :
    Guarded setting { state with setup := setup, events := events, net := net } :=
  have still : state.Closed setting → Closed setting { state with setup := setup, events := events, net := net } :=
    fun closed => Or.inl (closed.dead_of_working working alive)
  { guarded with
    quiet := quiet
    args := fun given same => absurd same (args given)
    routes := fun listed same => (routes listed same).1
    untouched := fun listed same => (routes listed same).2
    entering := fun given same => absurd same (args given)
    routing := routing
    beforeSetup := fun before => absurd before (guarded.not_beforeSetup spawned)
    reported := by
      intro cause
      rcases cause with routed | held | phases
      · by_cases before : .routed ∈ state.events
        · exact still (guarded.reported (Or.inl before))
        · exact reported routed before
      · exact holding held
      · exact still (guarded.reported (Or.inr (Or.inr phases)))
    opened := fun alive touched => (guarded.opened alive touched).imp_left still
    running := fun alive runs => still (guarded.running alive runs) }

theorem Guarded.report {event : SetupEvent} {phase : SetupPhase} (spawned : state.setup ≠ .absent)
    (work : Guarded setting { state with setup := phase, events := state.events ++ [event] }) :
    Guarded setting (state.report event phase) := by
  by_cases killed : state.helper = .killed
  · rw [Attach.report, if_pos killed]
    exact guarded.setupEnd spawned
  · rw [Attach.report, if_neg killed]
    exact work

theorem Guarded.stepSetup {fault : Option NetlinkFault} (taken : state.stepSetup setting fault = some next) :
    Guarded setting next := by
  have index : setting.device.toNat < 256 ^ 4 := setting.device.toNat_lt
  unfold Attach.stepSetup at taken
  split at taken
  next args phase =>
    have spawned : state.setup ≠ .absent := by rw [phase]; nofun
    obtain ⟨parsed, read, plan⟩ := AttachSetting.routes_of_setupArgs (guarded.args args phase)
    rw [read] at taken
    cases taken
    apply guarded.report spawned
    apply guarded.setupWork (.awaitingDevice parsed.routes) spawned (by rw [phase]; nofun) (by rw [phase]; nofun)
      guarded.quiet (fun _ => nofun)
    · rintro routes same
      cases same
      exact ⟨plan, guarded.entering args phase⟩
    · exact nofun
    · exact fun routed before => absurd (mem_snoc_joined routed) before
    · exact nofun
  next routes phase =>
    have spawned : state.setup ≠ .absent := by rw [phase]; nofun
    obtain ⟨ifindex, ready, rfl⟩ := Option.map_eq_some_iff.mp taken
    have attached : state.pasta = .attached := by
      by_contra other
      rw [(guarded.quiet other).ready] at ready
      cases ready
    have net := guarded.untouched routes phase attached
    rw [net, AttachSetting.ready_attachedNet] at ready
    cases ready
    apply guarded.setupWork (.routing _ routes _) spawned (by rw [phase]; nofun) (by rw [phase]; nofun)
      guarded.quiet (fun _ => nofun) nofun
    · rintro ifindex rest netlink same
      cases same
      exact Or.inr ⟨attached, rfl, rfl, [], (guarded.routes routes phase).symm, net⟩
    · exact fun routed before => absurd routed before
    · exact nofun
  next ifindex route rest netlink phase =>
    have spawned : state.setup ≠ .absent := by rw [phase]; nofun
    have working : state.setup ≠ .holding := by rw [phase]; nofun
    have alive : state.setup ≠ .dead := by rw [phase]; nofun
    dsimp only at taken
    rcases guarded.routing ifindex (route :: rest) netlink phase with dead | ⟨attached, rfl, idle, done, split, net⟩
    · have quiet := (guarded.quiet (by rw [dead]; nofun)).replace setting.order fault route ifindex netlink
      split at taken
      next =>
        cases taken
        exact guarded.setupWork (.routing ifindex rest _) spawned working alive (fun _ => quiet) (fun _ => nofun) nofun
          (fun _ _ _ _ => Or.inl dead) (fun routed before => absurd routed before) nofun
      next =>
        cases taken
        exact guarded.setupWork .dead spawned working alive (fun _ => quiet) (fun _ => nofun) nofun nofun
          (fun routed before => absurd routed before) nofun
    · have up : state.net.link = some setting.device.toNat := by rw [net]; rfl
      have loud : ∀ {after : SandboxNet}, state.pasta ≠ .attached → after.Quiet := fun other => absurd attached other
      rcases @Netlink.replace_cases setting.order route _ netlink state.net gateway index up idle fault with
        ⟨-, exchanged⟩ | ⟨-, error, after, exchanged, -⟩
      · rw [exchanged] at taken
        cases taken
        apply guarded.setupWork (.routing _ rest _) spawned working alive loud (fun _ => nofun) nofun
        · rintro ifindex later socket same
          cases same
          refine Or.inr ⟨attached, rfl, idle, done ++ [route],
            by rw [split, List.append_assoc, List.singleton_append], ?_⟩
          rw [net, SandboxNet.withRoutes_snoc]
        · exact fun routed before => absurd routed before
        · exact nofun
      · rw [exchanged] at taken
        cases taken
        exact guarded.setupWork .dead spawned working alive loud (fun _ => nofun) nofun nofun
          (fun routed before => absurd routed before) nofun
  next ifindex netlink phase =>
    have spawned : state.setup ≠ .absent := by rw [phase]; nofun
    cases taken
    have closed : Closed setting { state with setup := .holding } := by
      rcases guarded.routing ifindex [] netlink phase with dead | ⟨attached, -, -, done, split, net⟩
      · exact Or.inl dead
      · rw [List.append_nil] at split
        exact Or.inr ⟨attached, by rw [net, split], Or.inl rfl⟩
    apply guarded.report spawned
    exact guarded.setupWork .holding spawned (by rw [phase]; nofun) (by rw [phase]; nofun) guarded.quiet
      (fun _ => nofun) nofun nofun (fun _ _ => closed) (fun _ => closed)
  next phase =>
    split at taken
    next =>
      cases taken
      exact guarded.setupEnd (by rw [phase]; nofun)
    next => cases taken
  next => cases taken
  next => cases taken

end Setup

theorem Guarded.attachPasta (guarded : Guarded setting state) (phase : state.pasta = .starting) :
    Guarded setting { state with pasta := .attached, net := setting.attachedNet } :=
  have open_ : ¬state.Closed setting := not_closed_of_pasta (Or.inr phase)
  { guarded with
    quiet := fun other => absurd rfl other
    untouched := fun _ _ _ => rfl
    entering := fun _ _ _ => rfl
    routing := fun ifindex rest netlink same => by
      rcases guarded.routing ifindex rest netlink same with dead | ⟨attached, -⟩
      · rw [phase] at dead; cases dead
      · rw [phase] at attached; cases attached
    beforePasta := fun before => by
      have absent := guarded.beforePasta before
      rw [phase] at absent
      cases absent
    reported := fun cause => absurd (guarded.reported cause) open_
    opened := fun alive touched => (guarded.opened alive touched).imp_left fun closed => absurd closed open_
    running := fun alive runs => absurd (guarded.running alive runs) open_ }

theorem Guarded.pastaEnd (guarded : Guarded setting state) (present : state.pasta ≠ .absent) :
    Guarded setting { state with pasta := .dead, net := state.net.withoutDevice } :=
  { guarded with
    quiet := fun _ => SandboxNet.quiet_withoutDevice state.net
    untouched := nofun
    entering := nofun
    routing := fun _ _ _ _ => Or.inl rfl
    beforePasta := fun before => absurd (guarded.beforePasta before) present
    reported := fun _ => Or.inl rfl
    opened := fun _ _ => Or.inl (Or.inl rfl)
    running := fun _ _ => Or.inl rfl }

theorem guarded_step {action : AttachAction} (guarded : Guarded setting state)
    (taken : state.step setting action = some next) :
    Guarded setting next := by
  cases action with
  | helper => exact guarded.stepHelper taken
  | helperFail => exact guarded.failHelper taken
  | helperKill =>
    obtain ⟨-, -, rfl⟩ := killHelper_cases taken
    exact guarded.kill
  | deathSignal => exact guarded.signalChildren taken
  | bwrap => exact guarded.stepBwrap taken
  | bwrapEnd =>
    simp only [step] at taken
    split at taken
    next => cases taken
    next =>
      cases taken
      exact guarded.bwrapEnd
  | setup fault => exact guarded.stepSetup taken
  | setupFail =>
    simp only [step] at taken
    split at taken
    next => cases taken
    next => cases taken
    next spawned _ =>
      cases taken
      exact guarded.setupEnd spawned
  | pasta =>
    simp only [step] at taken
    split at taken
    next phase =>
      cases taken
      exact guarded.attachPasta phase
    next => cases taken
  | pastaEnd =>
    simp only [step] at taken
    split at taken
    next => cases taken
    next live =>
      cases taken
      exact guarded.pastaEnd fun absent => live (Or.inl absent)

theorem run_guarded {actions : List AttachAction} (run : AnyRun (step setting) start actions state) :
    Guarded setting state :=
  run.invariant guarded_start fun _ _ _ guarded _ taken => guarded_step guarded taken

section Killed

/-- The helper is not killed between the start of pasta and the line that says that the routes
are in. -/
def Spared (state : Attach) (action : AttachAction) : Prop :=
  action = .helperKill → state.helper ≠ .routing ∧ state.helper ≠ .droppingNetwork

/-- What a helper leaves to a sandbox that reads the end of the pipe: pasta has not begun, or
the network is closed. -/
structure Sheltered (setting : AttachSetting) (state : Attach) : Prop where
  torn : state.helper = .droppingSandbox ∨ state.helper = .droppingBlock → state.pasta = .absent ∨ state.pasta = .dead
  killed : state.helper = .killed → state.pasta = .absent ∨ state.Closed setting

theorem sheltered_start : Sheltered setting start where
  torn := by simp [start]
  killed := nofun

theorem pasta_dropNetwork (state : Attach) :
    state.dropNetwork.pasta = .absent ∨ state.dropNetwork.pasta = .dead := by
  by_cases absent : state.pasta = .absent
  · exact Or.inl (if_pos absent)
  · exact Or.inr (if_neg absent)

/-- A helper that takes a step of its own lives on, and before it drops the sandbox it has
dropped the network. -/
theorem stepHelper_phase (taken : state.stepHelper setting = some next) :
    next.helper ≠ .killed ∧ (next.helper = .droppingSandbox → next.pasta = .absent ∨ next.pasta = .dead) ∧
      (next.helper = .droppingBlock → state.helper = .droppingSandbox ∧ next.pasta = state.pasta) := by
  unfold Attach.stepHelper at taken
  split at taken
  next => split at taken <;> (cases taken; exact ⟨nofun, nofun, nofun⟩)
  next =>
    split at taken
    next => cases taken; exact ⟨nofun, nofun, nofun⟩
    next => split at taken <;> cases taken; exact ⟨nofun, nofun, nofun⟩
  next => split at taken <;> cases taken; exact ⟨nofun, nofun, nofun⟩
  next => split at taken <;> cases taken <;> exact ⟨nofun, nofun, nofun⟩
  next => split at taken <;> cases taken <;> exact ⟨nofun, nofun, nofun⟩
  next => split at taken <;> (cases taken; exact ⟨nofun, nofun, nofun⟩)
  next => split at taken <;> cases taken; exact ⟨nofun, nofun, nofun⟩
  next =>
    cases taken
    exact ⟨nofun, fun _ => pasta_dropNetwork state, nofun⟩
  next phase =>
    cases taken
    exact ⟨nofun, nofun, fun _ => ⟨phase, rfl⟩⟩
  next => cases taken; exact ⟨nofun, nofun, nofun⟩
  next => cases taken
  next => cases taken

theorem failHelper_phase (taken : state.failHelper = some next) : next.helper = .droppingNetwork := by
  unfold Attach.failHelper at taken
  split at taken
  next => cases taken
  next => cases taken
  next => cases taken
  next => cases taken
  next => cases taken
  next =>
    cases taken
    rfl
  next =>
    cases taken
    rfl

theorem report_frame (event : SetupEvent) (phase : SetupPhase) (state : Attach) :
    (state.report event phase).helper = state.helper ∧ (state.report event phase).pasta = state.pasta := by
  unfold Attach.report
  split <;> exact ⟨rfl, rfl⟩

theorem stepSetup_frame {fault : Option NetlinkFault} (taken : state.stepSetup setting fault = some next) :
    next.helper = state.helper ∧ next.pasta = state.pasta ∧ (state.Closed setting → next.Closed setting) := by
  have working : next.helper = state.helper ∧ next.pasta = state.pasta → state.setup ≠ .holding →
      state.setup ≠ .dead →
        next.helper = state.helper ∧ next.pasta = state.pasta ∧ (state.Closed setting → next.Closed setting) := by
    rintro ⟨helper, pasta⟩ atWork alive
    exact ⟨helper, pasta, fun closed => Or.inl (pasta.trans (closed.dead_of_working atWork alive))⟩
  unfold Attach.stepSetup at taken
  split at taken
  next phase =>
    refine working ?_ (by rw [phase]; nofun) (by rw [phase]; nofun)
    split at taken
    next =>
      cases taken
      exact report_frame ..
    next =>
      cases taken
      exact ⟨rfl, rfl⟩
  next phase =>
    obtain ⟨ifindex, -, rfl⟩ := Option.map_eq_some_iff.mp taken
    exact working ⟨rfl, rfl⟩ (by rw [phase]; nofun) (by rw [phase]; nofun)
  next phase =>
    refine working ?_ (by rw [phase]; nofun) (by rw [phase]; nofun)
    dsimp only at taken
    split at taken <;> (cases taken; exact ⟨rfl, rfl⟩)
  next phase =>
    cases taken
    exact working (report_frame ..) (by rw [phase]; nofun) (by rw [phase]; nofun)
  next phase =>
    split at taken
    next =>
      cases taken
      exact ⟨rfl, rfl, fun closed => closed.imp_right fun ⟨attached, net, _⟩ => ⟨attached, net, Or.inr rfl⟩⟩
    next => cases taken
  next => cases taken
  next => cases taken

theorem stepBwrap_frame (taken : state.stepBwrap = some next) :
    ∃ phase info, next = { state with bwrap := phase, info := info } := by
  unfold Attach.stepBwrap at taken
  split at taken
  next =>
    cases taken
    exact ⟨_, _, rfl⟩
  next =>
    cases taken
    exact ⟨_, _, rfl⟩
  next =>
    split at taken
    next =>
      cases taken
      exact ⟨_, _, rfl⟩
    next => cases taken
  next => cases taken

theorem Sheltered.carry (sheltered : Sheltered setting state) (helper : next.helper = state.helper)
    (absent : state.pasta = .absent → next.pasta = .absent) (dead : state.pasta = .dead → next.pasta = .dead)
    (closed : state.Closed setting → next.Closed setting) : Sheltered setting next where
  torn := fun phase => (sheltered.torn (helper ▸ phase)).imp absent dead
  killed := fun phase => (sheltered.killed (helper ▸ phase)).imp absent closed

theorem Sheltered.kill (sheltered : Sheltered setting state) (guarded : Guarded setting state)
    (alive : state.helper ≠ .killed ∧ state.helper ≠ .gone)
    (spared : state.helper ≠ .routing ∧ state.helper ≠ .droppingNetwork) :
    state.pasta = .absent ∨ state.Closed setting := by
  have torn : state.helper = .droppingSandbox ∨ state.helper = .droppingBlock →
      state.pasta = .absent ∨ state.Closed setting := fun phase => (sheltered.torn phase).imp_right Or.inl
  cases phase : state.helper with
  | spawning | readingInfo | mapping | joining => exact Or.inl (guarded.beforePasta (by rw [phase]; rfl))
  | opening => exact Or.inr (guarded.reported (Or.inr (Or.inr (Or.inl phase))))
  | waiting => exact Or.inr (guarded.reported (Or.inr (Or.inr (Or.inr phase))))
  | droppingSandbox => exact torn (Or.inl phase)
  | droppingBlock => exact torn (Or.inr phase)
  | routing => exact absurd phase spared.1
  | droppingNetwork => exact absurd phase spared.2
  | killed => exact absurd phase alive.1
  | gone => exact absurd phase alive.2

theorem sheltered_step {action : AttachAction} (guarded : Guarded setting state)
    (sheltered : Sheltered setting state) (spared : Spared state action)
    (taken : state.step setting action = some next) :
    Sheltered setting next := by
  cases action with
  | helper =>
    obtain ⟨alive, dropping, later⟩ := stepHelper_phase taken
    refine ⟨fun phase => ?_, fun killed => absurd killed alive⟩
    rcases phase with phase | phase
    · exact dropping phase
    · obtain ⟨before, same⟩ := later phase
      rw [same]
      exact sheltered.torn (Or.inl before)
  | helperFail =>
    have phase := failHelper_phase taken
    exact ⟨by simp [phase], by simp [phase]⟩
  | helperKill =>
    obtain ⟨alive, present, rfl⟩ := killHelper_cases taken
    exact ⟨by simp, fun _ => sheltered.kill guarded ⟨alive, present⟩ (spared rfl)⟩
  | deathSignal =>
    simp only [step, Attach.signalChildren] at taken
    split at taken
    next =>
      cases taken
      exact ⟨by simp, nofun⟩
    next => cases taken
  | bwrap =>
    obtain ⟨phase, info, rfl⟩ := stepBwrap_frame taken
    exact sheltered.carry rfl id id id
  | bwrapEnd =>
    simp only [step] at taken
    split at taken
    next => cases taken
    next =>
      cases taken
      exact sheltered.carry rfl id id id
  | setup fault =>
    obtain ⟨helper, pasta, closed⟩ := stepSetup_frame taken
    exact sheltered.carry helper pasta.trans pasta.trans closed
  | setupFail =>
    simp only [step] at taken
    split at taken
    next => cases taken
    next => cases taken
    next =>
      cases taken
      exact sheltered.carry rfl id id
        fun closed => closed.imp_right fun ⟨attached, net, _⟩ => ⟨attached, net, Or.inr rfl⟩
  | pasta =>
    simp only [step] at taken
    split at taken
    next phase =>
      cases taken
      refine sheltered.carry rfl (fun absent => ?_) (fun dead => ?_) fun closed => ?_
      · rw [phase] at absent
        cases absent
      · rw [phase] at dead
        cases dead
      · exact absurd closed (not_closed_of_pasta (Or.inr phase))
    next => cases taken
  | pastaEnd =>
    simp only [step] at taken
    split at taken
    next => cases taken
    next live =>
      cases taken
      exact sheltered.carry rfl (fun absent => absurd (Or.inl absent) live) (fun _ => rfl) fun _ => Or.inl rfl

theorem run_sheltered {actions : List AttachAction} (run : Run (step setting) Spared start actions state) :
    Guarded setting state ∧ Sheltered setting state :=
  run.invariant (p := fun state => Guarded setting state ∧ Sheltered setting state)
    ⟨guarded_start, sheltered_start⟩ fun _ _ _ kept spared taken =>
      ⟨guarded_step kept.1 taken, sheltered_step kept.1 kept.2 spared taken⟩

end Killed

theorem SandboxNet.Quiet.not_reachable {net : SandboxNet} (quiet : net.Quiet) (addr : Ipv4Addr) :
    reachable net.routes addr = false := by
  rw [reachable]
  cases found : net.routes.lookup Ipv4Cidr.cover addr with
  | none => rfl
  | some hop =>
    obtain ⟨key, listed, -, -⟩ := RouteTable.exists_of_lookup found
    have nowhere : hop = .unreachable := quiet.2 _ listed
    rw [nowhere]

end Attach

end EkaCI
