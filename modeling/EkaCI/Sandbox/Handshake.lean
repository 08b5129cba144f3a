import EkaCI.Sandbox.Unblocking

/-! The start of a filtered sandbox as a whole: without a failure the four processes never wait
for each other in a circle, and whenever the program runs it is behind the plan. -/

namespace EkaCI

open Lib

/-- The steps that the helper has before it until the sandbox is unblocked. -/
def HelperPhase.left : HelperPhase → Nat
  | spawning => 6
  | readingInfo => 5
  | mapping => 4
  | joining => 3
  | routing => 2
  | opening => 1
  | _ => 0

def BwrapPhase.left : BwrapPhase → Nat
  | absent | starting => 3
  | informed => 2
  | mapped => 1
  | _ => 0

def SetupPhase.left (routes : Nat) : SetupPhase → Nat
  | absent | entering _ => routes + 3
  | awaitingDevice _ => routes + 2
  | routing _ rest _ => rest.length + 1
  | _ => 0

def PastaPhase.left : PastaPhase → Nat
  | absent | starting => 1
  | _ => 0

namespace Attach

variable {setting : AttachSetting} {state next : Attach}

/-- The steps of a start in which nothing fails and nothing ends. -/
def Smooth (_ : Attach) (action : AttachAction) : Prop :=
  action = .helper ∨ action = .bwrap ∨ action = .setup none ∨ action = .pasta

/-- How many steps of the start are left. -/
def left (setting : AttachSetting) (state : Attach) : Nat :=
  state.helper.left + state.bwrap.left + state.setup.left setting.plan.length + state.pasta.left

/-- The blocking pipe has not been touched. -/
def Blocked (state : Attach) : Prop := state.byte = false ∧ state.blockOpen = true

/-- The setup helper has not been spawned. -/
def Alone (state : Attach) : Prop :=
  state.setup = .absent ∧ state.pasta = .absent ∧ state.events = []

/-- Where the others are when the helper is in a phase. -/
def InStep (state : Attach) : Prop :=
  match state.helper with
  | .spawning => state.bwrap = .absent ∧ state.info = false ∧ state.Alone ∧ state.Blocked
  | .readingInfo =>
    ((state.bwrap = .starting ∧ state.info = false) ∨
      ((state.bwrap = .informed ∨ state.bwrap = .mapped) ∧ state.info = true)) ∧
        state.Alone ∧ state.Blocked
  | .mapping => (state.bwrap = .informed ∨ state.bwrap = .mapped) ∧ state.Alone ∧ state.Blocked
  | .joining =>
    state.bwrap = .mapped ∧ state.pasta = .absent ∧ state.Blocked ∧
      ((∃ args, state.setup = .entering args ∧ state.events = []) ∨
        ∃ routes, state.setup = .awaitingDevice routes ∧ state.events = [.joined])
  | .routing =>
    state.bwrap = .mapped ∧ state.Blocked ∧
      ((∃ routes, state.setup = .awaitingDevice routes ∧ state.events = [] ∧
          (state.pasta = .starting ∨ state.pasta = .attached)) ∨
        (state.pasta = .attached ∧
          ((∃ ifindex rest netlink, state.setup = .routing ifindex rest netlink ∧ state.events = []) ∨
            (state.setup = .holding ∧ state.events = [.routed]))))
  | .opening =>
    state.bwrap = .mapped ∧ state.Blocked ∧ state.setup = .holding ∧ state.pasta = .attached ∧ state.events = []
  | .waiting =>
    ((state.bwrap = .mapped ∧ state.byte = true) ∨ state.bwrap = .running) ∧
      state.setup = .holding ∧ state.pasta = .attached
  | _ => False

theorem inStep_start : InStep start := ⟨rfl, rfl, ⟨rfl, rfl, rfl⟩, rfl, rfl⟩

theorem left_start : left setting start = setting.plan.length + 13 := by
  simp only [left, start, HelperPhase.left, BwrapPhase.left, SetupPhase.left, PastaPhase.left]
  omega

section Steps

variable (inStep : InStep state)
include inStep

theorem InStep.helper (taken : state.stepHelper setting = some next) :
    InStep next ∧ left setting next + 1 = left setting state := by
  unfold stepHelper at taken
  split at taken
  next phase =>
    rw [InStep, phase] at inStep
    obtain ⟨bwrap, info, alone, blocked⟩ := inStep
    rw [AttachSetting.setupArgs_eq] at taken
    cases taken
    refine ⟨⟨Or.inl ⟨rfl, info⟩, alone, blocked⟩, ?_⟩
    simp [left, phase, bwrap, HelperPhase.left, BwrapPhase.left]
    omega
  next phase =>
    rw [InStep, phase] at inStep
    obtain ⟨bwrap, alone, blocked⟩ := inStep
    rcases bwrap with ⟨bwrap, unknown⟩ | ⟨bwrap, known⟩
    · simp [unknown, bwrap] at taken
    · rw [if_pos known] at taken
      cases taken
      exact ⟨⟨bwrap, alone, blocked⟩, by simp [left, phase, HelperPhase.left]; omega⟩
  next phase =>
    rw [InStep, phase] at inStep
    obtain ⟨bwrap, alone, blocked⟩ := inStep
    split at taken
    next mapped _ =>
      cases taken
      refine ⟨⟨mapped, alone.2.1, blocked, Or.inl ⟨_, rfl, alone.2.2⟩⟩, ?_⟩
      simp [left, phase, alone.1, HelperPhase.left, SetupPhase.left]
      omega
    next => cases taken
  next phase =>
    rw [InStep, phase] at inStep
    obtain ⟨bwrap, pasta, blocked, ⟨args, setup, events⟩ | ⟨routes, setup, events⟩⟩ := inStep
    · simp [setup, events] at taken
    · simp only [setup, events] at taken
      cases taken
      refine ⟨⟨bwrap, blocked, Or.inl ⟨routes, rfl, rfl, Or.inl rfl⟩⟩, ?_⟩
      simp [left, phase, setup, pasta, HelperPhase.left, PastaPhase.left]
      omega
  next phase =>
    rw [InStep, phase] at inStep
    obtain ⟨bwrap, blocked, waits⟩ := inStep
    rcases waits with
      ⟨routes, setup, events, -⟩ | ⟨pasta, ⟨ifindex, rest, netlink, setup, events⟩ | ⟨setup, events⟩⟩
    · simp [setup, events] at taken
    · simp [setup, events] at taken
    · simp only [setup, events] at taken
      cases taken
      exact ⟨⟨bwrap, blocked, rfl, pasta, rfl⟩, by simp [left, phase, setup, HelperPhase.left]; omega⟩
  next phase =>
    rw [InStep, phase] at inStep
    obtain ⟨bwrap, blocked, setup, pasta, events⟩ := inStep
    rw [if_neg (by rw [bwrap]; nofun)] at taken
    cases taken
    exact ⟨⟨Or.inl ⟨bwrap, rfl⟩, setup, pasta⟩, by simp [left, phase, HelperPhase.left]; omega⟩
  next phase =>
    rw [InStep, phase] at inStep
    obtain ⟨⟨bwrap, -⟩ | bwrap, -⟩ := inStep
    · simp [bwrap] at taken
    · simp [bwrap] at taken
  all_goals
    rename_i phase
    rw [InStep, phase] at inStep
    exact inStep.elim

theorem InStep.bwrap_cases (live : state.bwrap = .starting ∨ state.bwrap = .informed ∨ state.bwrap = .mapped) :
    (state.helper = .readingInfo ∧ state.Alone ∧ state.Blocked) ∨
      (state.helper = .mapping ∧ state.bwrap ≠ .starting ∧ state.Alone ∧ state.Blocked) ∨
      (state.bwrap = .mapped ∧ state.Blocked) ∨ state.helper = .waiting := by
  cases phase : state.helper with
  | spawning =>
    rw [InStep, phase] at inStep
    simp [inStep.1] at live
  | readingInfo =>
    rw [InStep, phase] at inStep
    exact Or.inl ⟨rfl, inStep.2⟩
  | mapping =>
    rw [InStep, phase] at inStep
    refine Or.inr (Or.inl ⟨rfl, fun starting => ?_, inStep.2⟩)
    simp [starting] at inStep
  | joining =>
    rw [InStep, phase] at inStep
    exact Or.inr (Or.inr (Or.inl ⟨inStep.1, inStep.2.2.1⟩))
  | routing | opening =>
    rw [InStep, phase] at inStep
    exact Or.inr (Or.inr (Or.inl ⟨inStep.1, inStep.2.1⟩))
  | waiting => exact Or.inr (Or.inr (Or.inr rfl))
  | _ =>
    rw [InStep, phase] at inStep
    exact inStep.elim

theorem InStep.bwrap (taken : state.stepBwrap = some next) :
    InStep next ∧ left setting next + 1 = left setting state := by
  unfold stepBwrap at taken
  split at taken
  next live =>
    cases taken
    rcases inStep.bwrap_cases (Or.inl live) with
      ⟨phase, alone, blocked⟩ | ⟨-, other, -⟩ | ⟨other, -⟩ | phase
    · refine ⟨?_, by simp [left, live, BwrapPhase.left]; omega⟩
      rw [InStep, phase]
      exact ⟨Or.inr ⟨Or.inl rfl, rfl⟩, alone, blocked⟩
    · exact absurd live other
    · rw [live] at other
      cases other
    · rw [InStep, phase] at inStep
      simp [live] at inStep
  next live =>
    cases taken
    rcases inStep.bwrap_cases (Or.inr (Or.inl live)) with
      ⟨phase, alone, blocked⟩ | ⟨phase, -, alone, blocked⟩ | ⟨other, -⟩ | phase
    · have known : state.info = true := by
        rw [InStep, phase] at inStep
        simp only [live] at inStep
        simpa using inStep.1
      refine ⟨?_, by simp [left, live, BwrapPhase.left]; omega⟩
      rw [InStep, phase]
      exact ⟨Or.inr ⟨Or.inr rfl, known⟩, alone, blocked⟩
    · refine ⟨?_, by simp [left, live, BwrapPhase.left]; omega⟩
      rw [InStep, phase]
      exact ⟨Or.inr rfl, alone, blocked⟩
    · rw [live] at other
      cases other
    · rw [InStep, phase] at inStep
      simp [live] at inStep
  next live =>
    by_cases touched : state.byte = true ∨ state.blockOpen = false
    · rw [if_pos touched] at taken
      cases taken
      have not_blocked : ¬state.Blocked := by
        rintro ⟨unwritten, writer⟩
        simp [unwritten, writer] at touched
      rcases inStep.bwrap_cases (Or.inr (Or.inr live)) with
        ⟨-, -, blocked⟩ | ⟨-, -, -, blocked⟩ | ⟨-, blocked⟩ | phase
      · exact absurd blocked not_blocked
      · exact absurd blocked not_blocked
      · exact absurd blocked not_blocked
      · refine ⟨?_, by simp [left, live, BwrapPhase.left]; omega⟩
        rw [InStep, phase] at inStep
        rw [InStep, phase]
        exact ⟨Or.inr rfl, inStep.2⟩
    · rw [if_neg touched] at taken
      cases taken
  next => cases taken

theorem InStep.setup_cases (live : state.setup ≠ .absent) :
    (state.helper = .joining ∧ state.bwrap = .mapped ∧ state.pasta = .absent ∧ state.Blocked ∧
        ((∃ args, state.setup = .entering args ∧ state.events = []) ∨
          ∃ routes, state.setup = .awaitingDevice routes ∧ state.events = [.joined])) ∨
      (state.helper = .routing ∧ state.bwrap = .mapped ∧ state.Blocked ∧
        ((∃ routes, state.setup = .awaitingDevice routes ∧ state.events = [] ∧
            (state.pasta = .starting ∨ state.pasta = .attached)) ∨
          (state.pasta = .attached ∧
            ((∃ ifindex rest netlink, state.setup = .routing ifindex rest netlink ∧ state.events = []) ∨
              (state.setup = .holding ∧ state.events = [.routed]))))) ∨
      state.setup = .holding := by
  cases phase : state.helper with
  | spawning =>
    rw [InStep, phase] at inStep
    exact absurd inStep.2.2.1.1 live
  | readingInfo | mapping =>
    rw [InStep, phase] at inStep
    exact absurd inStep.2.1.1 live
  | joining =>
    rw [InStep, phase] at inStep
    exact Or.inl ⟨rfl, inStep⟩
  | routing =>
    rw [InStep, phase] at inStep
    exact Or.inr (Or.inl ⟨rfl, inStep⟩)
  | opening =>
    rw [InStep, phase] at inStep
    exact Or.inr (Or.inr inStep.2.2.1)
  | waiting =>
    rw [InStep, phase] at inStep
    exact Or.inr (Or.inr inStep.2.1)
  | _ =>
    rw [InStep, phase] at inStep
    exact inStep.elim

theorem InStep.alive : state.helper ≠ .killed := by
  intro phase
  rw [InStep, phase] at inStep
  exact inStep

theorem InStep.report_eq (event : SetupEvent) (phase : SetupPhase) :
    state.report event phase = { state with setup := phase, events := state.events ++ [event] } :=
  if_neg inStep.alive

theorem InStep.of_routing {ifindex : Nat} {rest : List Route} {netlink : Netlink}
    (routing : state.setup = .routing ifindex rest netlink) :
    state.helper = .routing ∧ state.bwrap = .mapped ∧ state.Blocked ∧ state.pasta = .attached ∧ state.events = [] := by
  rcases inStep.setup_cases (by rw [routing]; nofun) with
    ⟨-, -, -, -, setup⟩ | ⟨helper, bwrap, blocked, setup⟩ | setup
  · simp [routing] at setup
  · rcases setup with ⟨routes, other, -⟩ | ⟨attached, ⟨-, -, -, -, events⟩ | ⟨other, -⟩⟩
    · rw [routing] at other
      cases other
    · exact ⟨helper, bwrap, blocked, attached, events⟩
    · rw [routing] at other
      cases other
  · simp [routing] at setup

theorem InStep.setup (guarded : Guarded setting state) (taken : state.stepSetup setting none = some next) :
    InStep next ∧ left setting next + 1 = left setting state := by
  unfold stepSetup at taken
  split at taken
  next args phase =>
    obtain ⟨parsed, read, plan⟩ := AttachSetting.routes_of_setupArgs (guarded.args args phase)
    rw [read] at taken
    dsimp only at taken
    rw [inStep.report_eq] at taken
    cases taken
    rcases inStep.setup_cases (by rw [phase]; nofun) with
      ⟨helper, bwrap, pasta, blocked, setup⟩ | ⟨-, -, -, setup⟩ | setup
    · have events : state.events = [] := by
        rcases setup with ⟨-, -, events⟩ | ⟨routes, other, -⟩
        · exact events
        · rw [phase] at other
          cases other
      refine ⟨?_, by simp [left, phase, SetupPhase.left]; omega⟩
      rw [InStep, helper]
      exact ⟨bwrap, pasta, blocked, Or.inr ⟨parsed.routes, rfl, by rw [events]; rfl⟩⟩
    · simp [phase] at setup
    · simp [phase] at setup
  next routes phase =>
    obtain ⟨ifindex, ready, rfl⟩ := Option.map_eq_some_iff.mp taken
    have attached : state.pasta = .attached := by
      by_contra other
      rw [(guarded.quiet other).ready] at ready
      cases ready
    rcases inStep.setup_cases (by rw [phase]; nofun) with
      ⟨-, -, pasta, -⟩ | ⟨helper, bwrap, blocked, setup⟩ | setup
    · rw [attached] at pasta
      cases pasta
    · have events : state.events = [] := by
        rcases setup with ⟨-, -, events, -⟩ | ⟨-, ⟨ifindex, rest, netlink, other, -⟩ | ⟨other, -⟩⟩
        · exact events
        · rw [phase] at other
          cases other
        · rw [phase] at other
          cases other
      refine ⟨?_, by simp [left, phase, SetupPhase.left, guarded.routes routes phase]; omega⟩
      rw [InStep, helper]
      exact ⟨bwrap, blocked, Or.inr ⟨attached, Or.inl ⟨_, _, _, rfl, events⟩⟩⟩
    · simp [phase] at setup
  next ifindex route rest netlink phase =>
    obtain ⟨helper, bwrap, blocked, attached, events⟩ := inStep.of_routing phase
    obtain ⟨rfl, idle, done, -, net⟩ : ifindex = setting.device.toNat ∧ netlink.replies = [] ∧
        ∃ done, setting.plan = done ++ route :: rest ∧ state.net = setting.attachedNet.withRoutes done := by
      rcases guarded.routing ifindex (route :: rest) netlink phase with dead | ⟨-, known⟩
      · rw [attached] at dead
        cases dead
      · exact known
    have up : state.net.link = some setting.device.toNat := by rw [net]; rfl
    have answers := @Netlink.replace_cases setting.order route _ netlink state.net gateway setting.device.toNat_lt up idle none
    rcases answers with ⟨-, exchanged⟩ | ⟨impossible, -⟩
    · dsimp only at taken
      rw [exchanged] at taken
      cases taken
      refine ⟨?_, by simp [left, phase, SetupPhase.left]; omega⟩
      rw [InStep, helper]
      exact ⟨bwrap, blocked, Or.inr ⟨attached, Or.inl ⟨_, _, _, rfl, events⟩⟩⟩
    · exact absurd rfl impossible
  next ifindex netlink phase =>
    obtain ⟨helper, bwrap, blocked, attached, events⟩ := inStep.of_routing phase
    rw [inStep.report_eq] at taken
    cases taken
    refine ⟨?_, by simp [left, phase, SetupPhase.left]; omega⟩
    rw [InStep, helper]
    exact ⟨bwrap, blocked, Or.inr ⟨attached, Or.inr ⟨rfl, by rw [events]; rfl⟩⟩⟩
  next =>
    rw [if_neg inStep.alive] at taken
    cases taken
  next => cases taken
  next => cases taken

theorem InStep.pasta (taken : state.step setting .pasta = some next) :
    InStep next ∧ left setting next + 1 = left setting state := by
  simp only [step] at taken
  split at taken
  next starting =>
    cases taken
    refine ⟨?_, by simp [left, starting, PastaPhase.left]⟩
    cases phase : state.helper with
    | routing =>
      rw [InStep, phase] at inStep
      obtain ⟨bwrap, blocked, ⟨routes, setup, events, -⟩ | ⟨attached, -⟩⟩ := inStep
      · exact ⟨bwrap, blocked, Or.inl ⟨routes, setup, events, Or.inr rfl⟩⟩
      · rw [starting] at attached
        cases attached
    | _ =>
      rw [InStep, phase] at inStep
      simp [starting, Alone] at inStep
  next => cases taken

end Steps

theorem inStep_step {action : AttachAction} (guarded : Guarded setting state) (inStep : InStep state)
    (smooth : Smooth state action) (taken : state.step setting action = some next) :
    InStep next ∧ left setting next + 1 = left setting state := by
  rcases smooth with rfl | rfl | rfl | rfl
  · exact inStep.helper taken
  · exact inStep.bwrap taken
  · exact inStep.setup guarded taken
  · exact inStep.pasta taken

theorem InStep.progress (guarded : Guarded setting state) (inStep : InStep state) (more : left setting state ≠ 0) :
    ∃ action next, Smooth state action ∧ state.step setting action = some next := by
  have byHelper : ∀ {after}, state.stepHelper setting = some after →
      ∃ action next, Smooth state action ∧ state.step setting action = some next :=
    fun taken => ⟨.helper, _, Or.inl rfl, taken⟩
  have byBwrap : ∀ {after}, state.stepBwrap = some after →
      ∃ action next, Smooth state action ∧ state.step setting action = some next :=
    fun taken => ⟨.bwrap, _, Or.inr (Or.inl rfl), taken⟩
  have bySetup : ∀ {after}, state.stepSetup setting none = some after →
      ∃ action next, Smooth state action ∧ state.step setting action = some next :=
    fun taken => ⟨.setup none, _, Or.inr (Or.inr (Or.inl rfl)), taken⟩
  have given := setting.setupArgs_eq
  cases phase : state.helper with
  | spawning => exact byHelper (by simp only [stepHelper, phase, given]; rfl)
  | readingInfo =>
    rw [InStep, phase] at inStep
    obtain ⟨⟨bwrap, -⟩ | ⟨-, known⟩, -⟩ := inStep
    · exact byBwrap (by simp only [stepBwrap, bwrap]; rfl)
    · exact byHelper (by simp only [stepHelper, phase, if_pos known]; rfl)
  | mapping =>
    rw [InStep, phase] at inStep
    obtain ⟨bwrap | bwrap, -⟩ := inStep
    · exact byBwrap (by simp only [stepBwrap, bwrap]; rfl)
    · exact byHelper (by simp only [stepHelper, phase, bwrap, given]; rfl)
  | joining =>
    rw [InStep, phase] at inStep
    obtain ⟨-, -, -, ⟨args, setup, -⟩ | ⟨routes, -, events⟩⟩ := inStep
    · obtain ⟨parsed, read, -⟩ := AttachSetting.routes_of_setupArgs (guarded.args args setup)
      exact bySetup (by simp only [stepSetup, setup, read]; rfl)
    · exact byHelper (by simp only [stepHelper, phase, events]; rfl)
  | routing =>
    rw [InStep, phase] at inStep
    obtain ⟨-, -, waits⟩ := inStep
    rcases waits with
      ⟨routes, setup, -, starting | attached⟩ | ⟨-, ⟨ifindex, rest, netlink, setup, -⟩ | ⟨-, events⟩⟩
    · exact ⟨.pasta, _, Or.inr (Or.inr (Or.inr rfl)), if_pos starting⟩
    · have net := guarded.untouched routes setup attached
      exact bySetup (by simp only [stepSetup, setup, net, AttachSetting.ready_attachedNet]; rfl)
    · cases rest with
      | nil => exact bySetup (by simp only [stepSetup, setup]; rfl)
      | cons route rest =>
        cases result : (netlink.replace setting.order none route ifindex gateway state.net).1 with
        | ok _ => exact bySetup (by simp only [stepSetup, setup, result]; rfl)
        | error _ => exact bySetup (by simp only [stepSetup, setup, result]; rfl)
    · exact byHelper (by simp only [stepHelper, phase, events]; rfl)
  | opening =>
    rw [InStep, phase] at inStep
    have alive : state.bwrap ≠ .dead := fun dead => by rw [inStep.1] at dead; cases dead
    exact byHelper (by simp only [stepHelper, phase, if_neg alive]; rfl)
  | waiting =>
    rw [InStep, phase] at inStep
    obtain ⟨⟨bwrap, byte⟩ | bwrap, setup, pasta⟩ := inStep
    · exact byBwrap (by simp only [stepBwrap, bwrap, if_pos (Or.inl byte)]; rfl)
    · refine absurd ?_ more
      simp only [left, phase, bwrap, setup, pasta, HelperPhase.left, BwrapPhase.left, SetupPhase.left, PastaPhase.left]
  | _ =>
    rw [InStep, phase] at inStep
    exact inStep.elim

theorem InStep.running_iff (inStep : InStep state) : state.bwrap = .running ↔ left setting state = 0 := by
  constructor
  · intro running
    cases phase : state.helper with
    | waiting =>
      rw [InStep, phase] at inStep
      obtain ⟨-, setup, pasta⟩ := inStep
      simp only [left, phase, running, setup, pasta, HelperPhase.left, BwrapPhase.left, SetupPhase.left,
        PastaPhase.left]
    | _ =>
      rw [InStep, phase] at inStep
      simp [running] at inStep
  · intro finished
    have helper : state.helper.left = 0 := by
      rw [left] at finished
      omega
    have bwrap : state.bwrap.left = 0 := by
      rw [left] at finished
      omega
    cases phase : state.helper with
    | waiting =>
      rw [InStep, phase] at inStep
      obtain ⟨⟨mapped, -⟩ | running, -⟩ := inStep
      · rw [mapped] at bwrap
        cases bwrap
      · exact running
    | droppingNetwork | droppingSandbox | droppingBlock | killed | gone => rw [InStep, phase] at inStep; exact inStep.elim
    | _ =>
      rw [phase] at helper
      cases helper

theorem run_smooth {actions : List AttachAction}
    (run : Run (step setting) Smooth start actions state) :
    Guarded setting state ∧ InStep state ∧ actions.length + left setting state = setting.plan.length + 13 := by
  induction run with
  | start =>
    refine ⟨guarded_start, inStep_start, ?_⟩
    rw [left_start, List.length_nil, Nat.zero_add]
  | snoc _ smooth taken ih =>
    obtain ⟨guarded, inStep, count⟩ := ih
    obtain ⟨after, less⟩ := inStep_step guarded inStep smooth taken
    refine ⟨guarded_step guarded taken, after, ?_⟩
    rw [List.length_append, List.length_singleton]
    omega

/-- If nothing fails, the four processes never wait for each other in a circle: whatever the
order of their steps, the program runs after as many steps as the plan has routes and
thirteen more, and until then one of them can take a step. -/
theorem run_unblocks {actions : List AttachAction}
    (run : Run (step setting) Smooth start actions state) :
    actions.length ≤ setting.plan.length + 13 ∧
      (state.bwrap = .running ↔ actions.length = setting.plan.length + 13) ∧
      (state.bwrap ≠ .running → ∃ action next, Smooth state action ∧ state.step setting action = some next) := by
  obtain ⟨guarded, inStep, count⟩ := run_smooth run
  have running_iff := @InStep.running_iff setting state inStep
  refine ⟨by omega, ?_,
    fun stopped => inStep.progress guarded fun finished => stopped (running_iff.mpr finished)⟩
  rw [running_iff]
  constructor
  · intro finished
    omega
  · intro long
    omega

theorem exists_run_smooth (setting : AttachSetting) (count : Nat) (within : count ≤ setting.plan.length + 13) :
    ∃ actions state, Run (step setting) Smooth start actions state ∧ actions.length = count := by
  induction count with
  | zero => exact ⟨[], start, .start, rfl⟩
  | succ count ih =>
    obtain ⟨actions, state, run, long⟩ := ih (by omega)
    obtain ⟨guarded, inStep, total⟩ := run_smooth run
    obtain ⟨action, next, smooth, taken⟩ := inStep.progress guarded (by omega)
    refine ⟨actions ++ [action], next, .snoc run smooth taken, ?_⟩
    rw [List.length_append, List.length_singleton, long]

/-- A policy that allows an address of a network that is denied by default, and denies another. -/
def mixedPolicy : NetworkPolicy := ⟨[.host (.new 10 1 2 3)], [.host (.new 8 8 8 8)]⟩

def plainSetting : AttachSetting :=
  ⟨⟨"pasta", "bwrap", [], "/proc/self/fd/6", "/proc/self/fd/7"⟩, mixedPolicy, [.new 203 0 113 7], .little, 7, 1⟩

theorem plainSetting_unblocks :
    ∃ actions state, Run (step plainSetting) Smooth start actions state ∧ state.bwrap = .running := by
  obtain ⟨actions, state, run, long⟩ := exists_run_smooth plainSetting _ (Nat.le_refl _)
  exact ⟨actions, state, run, (run_unblocks run).2.1.mpr long⟩

/-- What the routes open beyond the policy: `0.0.0.0/0` is denied and nothing else is said
about the address. -/
theorem policyAllows_of_opened {policy : NetworkPolicy} {hostAddrs : List Ipv4Addr} {addr : Ipv4Addr}
    (opened : ∃ cidr ∈ openedPrefixes policy, cidr.contains addr = true ∧
      ∀ denied ∈ deniedPrefixes policy hostAddrs, denied.contains addr = true → denied.prefixLen ≤ cidr.prefixLen) :
    PolicyAllows policy hostAddrs addr ∨
      (everywhere ∈ policy.deny ∧
        (∀ denied ∈ deniedPrefixes policy hostAddrs, denied.contains addr = true → denied = everywhere) ∧
        ∀ cidr ∈ policy.allow, ¬cidr.contains addr = true) := by
  obtain ⟨cidr, member, contains, dominates⟩ := opened
  rcases List.mem_cons.mp member with rfl | named
  swap
  · exact Or.inl (Or.inr ⟨cidr, named, contains, dominates⟩)
  have only : ∀ denied ∈ deniedPrefixes policy hostAddrs, denied.contains addr = true → denied = everywhere :=
    fun denied listed covered => eq_everywhere covered (dominates denied listed covered)
  by_cases denied : everywhere ∈ deniedPrefixes policy hostAddrs
  · by_cases allowed : ∃ cidr ∈ policy.allow, cidr.contains addr = true
    · obtain ⟨cidr, named, covers⟩ := allowed
      refine Or.inl (Or.inr ⟨cidr, List.mem_cons_of_mem _ named, covers, fun other listed covered => ?_⟩)
      rw [only other listed covered]
      exact Nat.zero_le _
    · exact Or.inr ⟨(everywhere_mem_denied policy hostAddrs).mp denied, only,
        fun cidr named covers => allowed ⟨cidr, named, covers⟩⟩
  · exact Or.inl (Or.inl fun other listed covered => denied (only other listed covered ▸ listed))

/-- A network behind the filter: it leads to nothing that the policy does not allow, but for
what a denied `0.0.0.0/0` leaves open, and it leads to all that the policy allows or nowhere
at all. -/
def Filtered (setting : AttachSetting) (net : SandboxNet) : Prop :=
  (∀ addr, reachable net.routes addr = true → PolicyAllows setting.policy setting.hostAddrs addr ∨
      (everywhere ∈ setting.policy.deny ∧
        (∀ denied ∈ deniedPrefixes setting.policy setting.hostAddrs,
          denied.contains addr = true → denied = everywhere) ∧
        ∀ cidr ∈ setting.policy.allow, ¬cidr.contains addr = true)) ∧
    ((∀ addr, PolicyAllows setting.policy setting.hostAddrs addr → reachable net.routes addr = true) ∨
      ∀ addr, reachable net.routes addr = false)

theorem SandboxNet.Quiet.filtered {net : SandboxNet} (quiet : net.Quiet) : Filtered setting net := by
  have cut : ∀ addr, reachable net.routes addr = false := SandboxNet.Quiet.not_reachable quiet
  refine ⟨fun addr reached => ?_, Or.inr cut⟩
  rw [cut addr] at reached
  cases reached

theorem Closed.filtered (closed : state.Closed setting) (guarded : Guarded setting state) :
    Filtered setting state.net := by
  rcases closed with dead | ⟨-, net, -⟩
  · exact SandboxNet.Quiet.filtered (guarded.quiet (by rw [dead]; nofun))
  · have decides := reachable_plan_iff setting.policy setting.hostAddrs
    have table : state.net.routes =
        pastaRoutes.install ((routePlan setting.policy setting.hostAddrs).map Route.entry) := by
      simp only [net, SandboxNet.withRoutes, AttachSetting.attachedNet, AttachSetting.plan]
    rw [Filtered, table]
    exact ⟨fun addr reached => policyAllows_of_opened ((decides addr).mp reached),
      Or.inl fun addr allows =>
        (decides addr).mpr (opened_of_policyAllows setting.policy setting.hostAddrs allows)⟩

/-- Whatever fails and in whatever order the processes work, a program that runs is behind
the filter, unless the helper was killed after it had started pasta and before it read that
the routes are in, and then only until the signal comes that ends them all. -/
theorem run_filtered {actions : List AttachAction} (run : AnyRun (step setting) start actions state)
    (running : state.bwrap = .running) :
    Filtered setting state.net ∨
      (¬Run (step setting) Spared start actions state ∧ state.helper = .killed ∧ state.pasta = .attached ∧
        ∃ next, state.step setting .deathSignal = some next ∧ next.bwrap = .dead ∧ next.net.Quiet) := by
  have guarded := run_guarded run
  by_cases killed : state.helper = .killed
  swap
  · exact Or.inl ((guarded.running killed running).filtered guarded)
  by_cases attached : state.pasta = .attached
  swap
  · exact Or.inl (SandboxNet.Quiet.filtered (guarded.quiet attached))
  by_cases spared : Run (step setting) Spared start actions state
  · rcases (run_sheltered spared).2.killed killed with absent | closed
    · rw [attached] at absent
      cases absent
    · exact Or.inl (closed.filtered guarded)
  · refine Or.inr ⟨spared, killed, attached, { state.dropNetwork.dropSandbox with helper := .gone }, if_pos killed, ?_, ?_⟩
    · exact if_neg fun absent => by rw [Attach.dropNetwork, running] at absent; cases absent
    · exact SandboxNet.quiet_withoutDevice state.net

/-- So it can be: whatever the policy, a helper that is killed at the wrong moment lets a
program run in the network as pasta made it. -/
theorem exists_run_unfiltered (setting : AttachSetting) :
    ∃ actions state, AnyRun (step setting) start actions state ∧ state.bwrap = .running ∧
      state.net = setting.attachedNet := by
  obtain ⟨args, given⟩ : ∃ args, setting.setupArgs = .ok args := ⟨_, setting.setupArgs_eq⟩
  obtain ⟨parsed, read, -⟩ := AttachSetting.routes_of_setupArgs given
  let actions : List AttachAction :=
    [.helper, .bwrap, .helper, .bwrap, .helper, .setup none, .helper, .pasta, .helperKill, .bwrap]
  have performed : exec (step setting) start actions =
      some ⟨.killed, .running, true, .awaitingDevice parsed.routes, .attached, [], false, false,
        setting.attachedNet⟩ := by
    simp [actions, exec, step, stepHelper, stepBwrap, stepSetup, killHelper, report, start, given, read,
      AttachSetting.attachedNet]
  exact ⟨actions, _, run_of_exec performed, rfl, rfl⟩

theorem spared_of_smooth {actions : List AttachAction} (run : Run (step setting) Smooth start actions state) :
    Run (step setting) Spared start actions state := by
  induction run with
  | start => exact .start
  | snoc _ smooth taken ih =>
    refine .snoc ih (fun kill => ?_) taken
    rw [kill] at smooth
    rcases smooth with other | other | other | other <;> cases other

theorem plainSetting_filtered :
    ∃ actions state, AnyRun (step plainSetting) start actions state ∧ state.bwrap = .running ∧
      Filtered plainSetting state.net := by
  obtain ⟨actions, state, run, long⟩ := exists_run_smooth plainSetting _ (Nat.le_refl _)
  obtain ⟨-, inStep, total⟩ := run_smooth run
  have running : state.bwrap = .running := (@InStep.running_iff plainSetting state inStep).mpr (by omega)
  have plain := run_of_exec (exec_of_run run)
  refine ⟨actions, state, plain, running, ?_⟩
  rcases run_filtered plain running with filtered | ⟨unspared, -⟩
  · exact filtered
  · exact absurd (spared_of_smooth run) unspared

end Attach

end EkaCI
