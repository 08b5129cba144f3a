import EkaCI.Lib.Run

/-! Calls that make the clone and the worktrees of one repository at the same time. Looking
whether a directory is there, starting git and removing what git left are separate steps,
and nothing keeps two calls for one path from taking them in any order. -/

namespace EkaCI

open Lib

/-- A directory that a call makes: the master clone, or the worktree of a revision. No
revision lies below another, as `a/b` lies below `a`. -/
inductive Target (Rev : Type) where
  | master
  | worktree (rev : Rev)
  deriving DecidableEq

/-- A directory that git has made and not finished is marked with the call it was started for. -/
inductive Dir where
  | absent
  | started (call : Nat)
  | complete
  deriving DecidableEq

inductive GitProcess where
  | starting
  | writing
  | exited (success : Bool)

def GitProcess.live : GitProcess → Bool
  | .starting => true
  | .writing => true
  | .exited _ => false

inductive CallPhase (Rev : Type) where
  | unused
  | looking (target : Target Rev)
  | fetching (rev : Rev)
  | preparing (target : Target Rev)
  /-- The guard is armed and git has been started. -/
  | waiting (target : Target Rev)
  | ended (ok : Bool)

/-- The path that a call has found missing and is about to make. -/
def CallPhase.target? {Rev : Type} : CallPhase Rev → Option (Target Rev)
  | .fetching rev => some (.worktree rev)
  | .preparing target => some target
  | .waiting target => some target
  | _ => none

/-- Calls, git processes and directories. A call of `ensure_master_clone` wants no worktree,
a call of `create_worktree` wants one. -/
structure CheckoutState (Rev : Type) where
  wants : Nat → Option Rev
  phase : Nat → CallPhase Rev
  git : Nat × Target Rev → Option GitProcess
  dir : Target Rev → Dir
  /-- The paths for which a call has returned `Ok`. -/
  returned : List (Nat × Target Rev)

inductive CheckoutAction (Rev : Type) where
  | call (id : Nat) (wants : Option Rev)
  | look (id : Nat)
  /-- An error before the guard is armed. -/
  | fail (id : Nat)
  | fetched (id : Nat)
  | spawn (id : Nat)
  /-- Git looks at its target and fails if something is there. -/
  | begin (id : Nat) (target : Target Rev)
  /-- Git ends. When it fails it may leave what it has written. -/
  | exit (id : Nat) (target : Target Rev) (success leaves : Bool)
  | reap (id : Nat)
  /-- The call is dropped, or its timeout passes, while it waits. The process of git is not
  killed with it. -/
  | abandon (id : Nat)

variable {Rev : Type}

namespace CheckoutState

def idle : CheckoutState Rev where
  wants := fun _ => none
  phase := fun _ => .unused
  git := fun _ => none
  dir := fun _ => .absent
  returned := []

variable [DecidableEq Rev] (state : CheckoutState Rev)

def setPhase (id : Nat) (phase : CallPhase Rev) : CheckoutState Rev :=
  { state with phase := Function.update state.phase id phase }

def setGit (id : Nat) (target : Target Rev) (process : GitProcess) : CheckoutState Rev :=
  { state with git := Function.update state.git (id, target) (some process) }

def setDir (target : Target Rev) (dir : Dir) : CheckoutState Rev :=
  { state with dir := Function.update state.dir target dir }

/-- The call has its path: `create_worktree` goes on from the clone to the worktree. -/
def succeed (id : Nat) (target : Target Rev) : CheckoutState Rev :=
  let next :=
    match target, state.wants id with
    | .master, some rev => .looking (.worktree rev)
    | _, _ => .ended true
  { state with
    phase := Function.update state.phase id next
    returned := state.returned ++ [(id, target)] }

/-- The guard is dropped while it is armed. -/
def cleanUp (id : Nat) (target : Target Rev) : CheckoutState Rev :=
  (state.setDir target .absent).setPhase id (.ended false)

def missing : Target Rev → CallPhase Rev
  | .master => .preparing .master
  | .worktree rev => .fetching rev

def step (state : CheckoutState Rev) : CheckoutAction Rev → Option (CheckoutState Rev)
  | .call id wants =>
    match state.phase id with
    | .unused => some { state.setPhase id (.looking .master) with wants := Function.update state.wants id wants }
    | _ => none
  | .look id =>
    match state.phase id with
    | .looking target =>
      if state.dir target = .absent then some (state.setPhase id (missing target))
      else some (state.succeed id target)
    | _ => none
  | .fail id =>
    match state.phase id with
    | .fetching _ => some (state.setPhase id (.ended false))
    | .preparing _ => some (state.setPhase id (.ended false))
    | _ => none
  | .fetched id =>
    match state.phase id with
    | .fetching rev => some (state.setPhase id (.preparing (.worktree rev)))
    | _ => none
  | .spawn id =>
    match state.phase id with
    | .preparing target => some ((state.setGit id target .starting).setPhase id (.waiting target))
    | _ => none
  | .begin id target =>
    match state.git (id, target) with
    | some .starting =>
      if state.dir target = .absent then some ((state.setDir target (.started id)).setGit id target .writing)
      else some (state.setGit id target (.exited false))
    | _ => none
  | .exit id target success leaves =>
    match state.git (id, target) with
    | some .starting => if success then none else some (state.setGit id target (.exited false))
    | some .writing =>
      if success then
        if state.dir target = .started id then
          some ((state.setDir target .complete).setGit id target (.exited true))
        else none
      else if state.dir target = .started id ∧ leaves = false then
        some ((state.setDir target .absent).setGit id target (.exited false))
      else some (state.setGit id target (.exited false))
    | _ => none
  | .reap id =>
    match state.phase id with
    | .waiting target =>
      match state.git (id, target) with
      | some (.exited true) => some (state.succeed id target)
      | some (.exited false) => some (state.cleanUp id target)
      | _ => none
    | _ => none
  | .abandon id =>
    match state.phase id with
    | .waiting target => some (state.cleanUp id target)
    | .fetching _ => some (state.setPhase id (.ended false))
    | _ => none

end CheckoutState

section Fields

variable (state : CheckoutState Rev) (id other : Nat) (target place : Target Rev)

namespace CheckoutState

variable (phase : CallPhase Rev) (process : GitProcess) (dir : Dir)

@[simp] theorem setPhase_phase_self : (state.setPhase id phase).phase id = phase := by
  simp [setPhase]

@[simp] theorem setPhase_phase_of_ne (different : other ≠ id) :
    (state.setPhase id phase).phase other = state.phase other := by
  simp [setPhase, different]

@[simp] theorem setPhase_git : (state.setPhase id phase).git = state.git := rfl

@[simp] theorem setPhase_dir : (state.setPhase id phase).dir = state.dir := rfl

@[simp] theorem setPhase_returned : (state.setPhase id phase).returned = state.returned := rfl

@[simp] theorem succeed_git : (state.succeed id target).git = state.git := rfl

@[simp] theorem succeed_dir : (state.succeed id target).dir = state.dir := rfl

@[simp] theorem succeed_returned : (state.succeed id target).returned = state.returned ++ [(id, target)] := rfl

theorem succeed_phase_of_ne (different : other ≠ id) : (state.succeed id target).phase other = state.phase other := by
  simp [succeed, different]

theorem succeed_phase_self :
    (∃ next, (state.succeed id target).phase id = .looking next) ∨ (state.succeed id target).phase id = .ended true := by
  simp only [succeed, Function.update_self]
  split
  · exact Or.inl ⟨_, rfl⟩
  · exact Or.inr rfl

variable [DecidableEq Rev]

@[simp] theorem setGit_phase : (state.setGit id target process).phase = state.phase := rfl

@[simp] theorem setGit_dir : (state.setGit id target process).dir = state.dir := rfl

@[simp] theorem setGit_returned :
    (state.setGit id target process).returned = state.returned := rfl

@[simp] theorem setGit_git_self : (state.setGit id target process).git (id, target) = some process := by
  simp [setGit]

@[simp] theorem setGit_git_of_ne (different : (other, place) ≠ (id, target)) :
    (state.setGit id target process).git (other, place) = state.git (other, place) := by
  rw [setGit]
  exact Function.update_of_ne different _ _

@[simp] theorem setDir_phase : (state.setDir target dir).phase = state.phase := rfl

@[simp] theorem setDir_git : (state.setDir target dir).git = state.git := rfl

@[simp] theorem setDir_returned : (state.setDir target dir).returned = state.returned := rfl

@[simp] theorem setDir_dir_self : (state.setDir target dir).dir target = dir := by
  simp [setDir]

@[simp] theorem setDir_dir_of_ne (different : place ≠ target) :
    (state.setDir target dir).dir place = state.dir place := by
  simp [setDir, different]

end CheckoutState

end Fields

/-- The call has found the path missing and is making it, or git still runs for it. -/
def CheckoutState.Engaged (state : CheckoutState Rev) (id : Nat) (target : Target Rev) : Prop :=
  (state.phase id).target? = some target ∨ ∃ process, state.git (id, target) = some process ∧ process.live = true

/-- Git is writing the directory. -/
def CheckoutState.InProgress (state : CheckoutState Rev) (target : Target Rev) : Prop :=
  ∃ id, state.git (id, target) = some .writing ∧ state.dir target = .started id

/-- No path is taken away for which a call has returned, and no call returns while its path
is still being written. -/
def KeepsFinished (before after : CheckoutState Rev) : Prop :=
  (∀ id target, (id, target) ∈ before.returned → before.dir target ≠ .absent → after.dir target ≠ .absent) ∧
    ∀ id target, (id, target) ∉ before.returned → (id, target) ∈ after.returned → ¬after.InProgress target

/-- A call looks at a path only when no other one is making it and no git runs for it. -/
def LooksAlone (state : CheckoutState Rev) : CheckoutAction Rev → Prop
  | .look id => ∀ target, state.phase id = .looking target → ∀ other, ¬state.Engaged other target
  | _ => True

/-- What holds while every call looks alone. -/
structure Orderly (state : CheckoutState Rev) : Prop where
  alone : ∀ {first second target}, state.Engaged first target → state.Engaged second target → first = second
  child : ∀ {id target process}, state.git (id, target) = some process → process.live = true →
    state.phase id = .waiting target ∨ ∃ ok, state.phase id = .ended ok
  made : ∀ {id target}, state.phase id = .waiting target → state.git (id, target) = some (.exited true) →
    state.dir target ≠ .absent
  kept : ∀ {id target}, (id, target) ∈ state.returned →
    state.dir target ≠ .absent ∧ ∀ other, ¬state.Engaged other target

theorem orderly_idle : Orderly (CheckoutState.idle : CheckoutState Rev) where
  alone := by
    rintro first second target (busy | ⟨process, running, -⟩) _
    · cases busy
    · cases running
  child := by
    intro id target process running
    cases running
  made := by
    intro id target waiting
    cases waiting
  kept := by
    intro id target returned
    cases returned

/-- Steps after which nobody is engaged who was not before, and in which only an engaged call
takes a directory away. -/
theorem Orderly.shrink {state next : CheckoutState Rev} (orderly : Orderly state)
    (engaged : ∀ id target, next.Engaged id target → state.Engaged id target)
    (removed : ∀ target, state.dir target ≠ .absent → next.dir target = .absent → ∃ id, state.Engaged id target)
    (returned : next.returned = state.returned)
    (child : ∀ {id target process}, next.git (id, target) = some process → process.live = true →
      next.phase id = .waiting target ∨ ∃ ok, next.phase id = .ended ok)
    (made : ∀ {id target}, next.phase id = .waiting target → next.git (id, target) = some (.exited true) →
      next.dir target ≠ .absent) : Orderly next where
  alone := by
    intro first second target one other
    exact orderly.alone (engaged first target one) (engaged second target other)
  child := child
  made := made
  kept := by
    intro id target member
    rw [returned] at member
    obtain ⟨present, free⟩ := orderly.kept member
    refine ⟨fun absent => ?_, fun other busy => free other (engaged other target busy)⟩
    obtain ⟨remover, busy⟩ := removed target present absent
    exact free remover busy

theorem target?_missing (target : Target Rev) : (CheckoutState.missing target).target? = some target := by
  cases target <;> rfl

section Steps

variable {state : CheckoutState Rev} (orderly : Orderly state) {id : Nat} {target : Target Rev}

include orderly

theorem Orderly.no_child (notWaiting : ∀ place, state.phase id ≠ .waiting place) (notEnded : ∀ ok, state.phase id ≠ .ended ok)
    {place : Target Rev} {process : GitProcess} (running : state.git (id, place) = some process) :
    process.live = false := by
  refine Bool.eq_false_iff.mpr fun live => ?_
  rcases orderly.child running live with waiting | ⟨ok, ended⟩
  · exact notWaiting place waiting
  · exact notEnded ok ended

theorem Orderly.setPhase {phase : CallPhase Rev}
    (same : ∀ place, phase.target? = some place → (state.phase id).target? = some place)
    (quiet : ∀ place process, state.git (id, place) = some process → process.live = true → ∃ ok, phase = .ended ok)
    (notWaiting : ∀ place, phase ≠ .waiting place) : Orderly (state.setPhase id phase) := by
  refine orderly.shrink ?_ ?_ rfl ?_ ?_
  · rintro other place (busy | running)
    · by_cases self : other = id
      · subst other
        rw [CheckoutState.setPhase_phase_self] at busy
        exact Or.inl (same place busy)
      · rw [CheckoutState.setPhase_phase_of_ne _ _ _ _ self] at busy
        exact Or.inl busy
    · exact Or.inr running
  · exact fun place present absent => absurd absent present
  · intro other place process running live
    by_cases self : other = id
    · subst other
      rw [CheckoutState.setPhase_phase_self]
      exact Or.inr (quiet place process running live)
    · rw [CheckoutState.setPhase_phase_of_ne _ _ _ _ self]
      exact orderly.child running live
  · intro other place waiting exited
    by_cases self : other = id
    · subst other
      rw [CheckoutState.setPhase_phase_self] at waiting
      exact absurd waiting (notWaiting place)
    · rw [CheckoutState.setPhase_phase_of_ne _ _ _ _ self] at waiting
      exact orderly.made waiting exited

theorem Orderly.lookMissing (looking : state.phase id = .looking target) (absent : state.dir target = .absent)
    (free : ∀ other, ¬state.Engaged other target) : Orderly (state.setPhase id (CheckoutState.missing target)) := by
  have childless : ∀ {place : Target Rev} {process : GitProcess}, state.git (id, place) = some process →
      process.live = false :=
    orderly.no_child (fun place => by simp [looking]) (fun ok => by simp [looking])
  have engaged : ∀ other place, (state.setPhase id (CheckoutState.missing target)).Engaged other place →
      state.Engaged other place ∨ (other = id ∧ place = target) := by
    rintro other place (busy | running)
    · by_cases self : other = id
      · subst other
        rw [CheckoutState.setPhase_phase_self, target?_missing] at busy
        exact Or.inr ⟨rfl, (Option.some.inj busy).symm⟩
      · rw [CheckoutState.setPhase_phase_of_ne _ _ _ _ self] at busy
        exact Or.inl (Or.inl busy)
    · exact Or.inl (Or.inr running)
  refine ⟨?_, ?_, ?_, ?_⟩
  · intro first second place one other
    rcases engaged first place one with before | ⟨rfl, rfl⟩
    · rcases engaged second place other with also | ⟨rfl, rfl⟩
      · exact orderly.alone before also
      · exact absurd before (free first)
    · rcases engaged second place other with also | ⟨rfl, -⟩
      · exact absurd also (free second)
      · rfl
  · intro other place process running live
    by_cases self : other = id
    · subst other
      rw [childless running] at live
      cases live
    · rw [CheckoutState.setPhase_phase_of_ne _ _ _ _ self]
      exact orderly.child running live
  · intro other place waiting exited
    by_cases self : other = id
    · subst other
      rw [CheckoutState.setPhase_phase_self] at waiting
      cases target <;> cases waiting
    · rw [CheckoutState.setPhase_phase_of_ne _ _ _ _ self] at waiting
      exact orderly.made waiting exited
  · intro other place member
    obtain ⟨present, unused⟩ := orderly.kept member
    refine ⟨present, fun busy taken => ?_⟩
    rcases engaged busy place taken with before | ⟨-, rfl⟩
    · exact unused busy before
    · exact present absent

theorem Orderly.succeed (childless : ∀ {place process}, state.git (id, place) = some process → process.live = false)
    (present : state.dir target ≠ .absent) (free : ∀ other, other ≠ id → ¬state.Engaged other target) :
    Orderly (state.succeed id target) := by
  have untargeted : ((state.succeed id target).phase id).target? = none := by
    rcases state.succeed_phase_self id target with ⟨next, looking⟩ | ended
    · rw [looking]
      rfl
    · rw [ended]
      rfl
  have engaged : ∀ other place, (state.succeed id target).Engaged other place →
      other ≠ id ∧ state.Engaged other place := by
    rintro other place (busy | ⟨process, running, live⟩)
    · by_cases self : other = id
      · subst other
        rw [untargeted] at busy
        cases busy
      · rw [state.succeed_phase_of_ne _ _ _ self] at busy
        exact ⟨self, Or.inl busy⟩
    · refine ⟨fun self => ?_, Or.inr ⟨process, running, live⟩⟩
      subst other
      rw [childless running] at live
      cases live
  refine ⟨?_, ?_, ?_, ?_⟩
  · intro first second place one other
    exact orderly.alone (engaged first place one).2 (engaged second place other).2
  · intro other place process running live
    by_cases self : other = id
    · subst other
      rw [childless running] at live
      cases live
    · rw [state.succeed_phase_of_ne _ _ _ self]
      exact orderly.child running live
  · intro other place waiting exited
    by_cases self : other = id
    · subst other
      rw [waiting] at untargeted
      cases untargeted
    · rw [state.succeed_phase_of_ne _ _ _ self] at waiting
      exact orderly.made waiting exited
  · intro other place member
    rw [CheckoutState.succeed_returned, List.mem_append, List.mem_singleton] at member
    rcases member with before | new
    · obtain ⟨there, unused⟩ := orderly.kept before
      exact ⟨there, fun busy taken => unused busy (engaged busy place taken).2⟩
    · obtain ⟨rfl, rfl⟩ := Prod.mk.inj new
      exact ⟨present, fun busy taken => free busy (engaged busy place taken).1 (engaged busy place taken).2⟩

variable [DecidableEq Rev]

theorem Orderly.setGit {process : GitProcess} (before : GitProcess) (running : state.git (id, target) = some before)
    (live : before.live = true) (notDone : process = .exited true → state.dir target ≠ .absent) :
    Orderly (state.setGit id target process) := by
  have engaged : state.Engaged id target := Or.inr ⟨before, running, live⟩
  refine orderly.shrink ?_ ?_ rfl ?_ ?_
  · rintro other place (busy | ⟨process, found, alive⟩)
    · exact Or.inl busy
    · by_cases same : (other, place) = (id, target)
      · obtain ⟨rfl, rfl⟩ := Prod.mk.inj same
        exact engaged
      · rw [CheckoutState.setGit_git_of_ne _ _ _ _ _ _ same] at found
        exact Or.inr ⟨process, found, alive⟩
  · exact fun place present absent => absurd absent present
  · intro other place current found alive
    by_cases same : (other, place) = (id, target)
    · obtain ⟨rfl, rfl⟩ := Prod.mk.inj same
      exact orderly.child running live
    · rw [CheckoutState.setGit_git_of_ne _ _ _ _ _ _ same] at found
      exact orderly.child found alive
  · intro other place waiting exited
    by_cases same : (other, place) = (id, target)
    · obtain ⟨rfl, rfl⟩ := Prod.mk.inj same
      rw [CheckoutState.setGit_git_self] at exited
      exact notDone (Option.some.inj exited)
    · rw [CheckoutState.setGit_git_of_ne _ _ _ _ _ _ same] at exited
      exact orderly.made waiting exited

/-- An engaged call changes the directory, to one that is there or with no success of its own
to show for it. -/
theorem Orderly.setDir (dir : Dir) (engaged : state.Engaged id target)
    (unmade : dir = .absent → state.phase id = .waiting target → state.git (id, target) ≠ some (.exited true)) :
    Orderly (state.setDir target dir) := by
  refine orderly.shrink (fun _ _ busy => busy) ?_ rfl orderly.child ?_
  · intro place present absent
    by_cases same : place = target
    · subst place
      exact ⟨id, engaged⟩
    · rw [CheckoutState.setDir_dir_of_ne _ _ _ _ same] at absent
      exact absurd absent present
  · intro other place waiting exited
    by_cases same : place = target
    · subst place
      have busy : state.Engaged other target := Or.inl (by
        rw [show state.phase other = .waiting target from waiting]
        rfl)
      have self : other = id := orderly.alone busy engaged
      subst other
      rw [CheckoutState.setDir_dir_self]
      exact fun absent => unmade absent waiting exited
    · rw [CheckoutState.setDir_dir_of_ne _ _ _ _ same]
      exact orderly.made waiting exited

theorem Orderly.spawn (preparing : state.phase id = .preparing target) :
    Orderly ((state.setGit id target .starting).setPhase id (.waiting target)) := by
  have engaged : state.Engaged id target := Or.inl (by rw [preparing]; rfl)
  have childless : ∀ {place : Target Rev} {process : GitProcess}, state.git (id, place) = some process →
      process.live = false :=
    orderly.no_child (fun place => by simp [preparing]) (fun ok => by simp [preparing])
  have phase : ∀ {other}, other ≠ id →
      ((state.setGit id target .starting).setPhase id (.waiting target)).phase other = state.phase other :=
    fun different => CheckoutState.setPhase_phase_of_ne _ _ _ _ different
  refine orderly.shrink ?_ ?_ rfl ?_ ?_
  · rintro other place (busy | ⟨process, found, alive⟩)
    · by_cases self : other = id
      · subst other
        rw [CheckoutState.setPhase_phase_self] at busy
        obtain rfl := Option.some.inj busy
        exact engaged
      · rw [phase self] at busy
        exact Or.inl busy
    · rw [CheckoutState.setPhase_git] at found
      by_cases same : (other, place) = (id, target)
      · obtain ⟨rfl, rfl⟩ := Prod.mk.inj same
        exact engaged
      · rw [CheckoutState.setGit_git_of_ne _ _ _ _ _ _ same] at found
        exact Or.inr ⟨process, found, alive⟩
  · exact fun place present absent => absurd absent present
  · intro other place process found alive
    rw [CheckoutState.setPhase_git] at found
    by_cases same : (other, place) = (id, target)
    · obtain ⟨rfl, rfl⟩ := Prod.mk.inj same
      exact Or.inl (CheckoutState.setPhase_phase_self _ _ _)
    · rw [CheckoutState.setGit_git_of_ne _ _ _ _ _ _ same] at found
      have self : other ≠ id := by
        intro self
        subst other
        rw [childless found] at alive
        cases alive
      rw [phase self]
      exact orderly.child found alive
  · intro other place waiting exited
    rw [CheckoutState.setPhase_git] at exited
    by_cases self : other = id
    · subst other
      rw [CheckoutState.setPhase_phase_self] at waiting
      obtain rfl := CallPhase.waiting.inj waiting
      rw [CheckoutState.setGit_git_self] at exited
      cases exited
    · rw [phase self] at waiting
      have other : (other, place) ≠ (id, target) := fun same => self (Prod.mk.inj same).1
      rw [CheckoutState.setGit_git_of_ne _ _ _ _ _ _ other] at exited
      exact orderly.made waiting exited

theorem Orderly.cleanUp (waiting : state.phase id = .waiting target) : Orderly (state.cleanUp id target) := by
  have engaged : state.Engaged id target := Or.inl (by rw [waiting]; rfl)
  have released : Orderly (state.setPhase id (.ended false)) :=
    orderly.setPhase (fun place => nofun) (fun _ _ _ _ => ⟨false, rfl⟩) nofun
  refine orderly.shrink ?_ ?_ rfl ?_ ?_
  · rintro other place (busy | running)
    · by_cases self : other = id
      · subst other
        rw [CheckoutState.cleanUp, CheckoutState.setPhase_phase_self] at busy
        cases busy
      · rw [CheckoutState.cleanUp, CheckoutState.setPhase_phase_of_ne _ _ _ _ self] at busy
        exact Or.inl busy
    · exact Or.inr running
  · intro place present absent
    by_cases same : place = target
    · subst place
      exact ⟨id, engaged⟩
    · rw [CheckoutState.cleanUp, CheckoutState.setPhase_dir, CheckoutState.setDir_dir_of_ne _ _ _ _ same] at absent
      exact absurd absent present
  · exact fun found alive => released.child found alive
  · intro other place stillWaiting exited
    have self : other ≠ id := by
      intro self
      subst other
      rw [CheckoutState.cleanUp, CheckoutState.setPhase_phase_self] at stillWaiting
      cases stillWaiting
    rw [CheckoutState.cleanUp, CheckoutState.setPhase_phase_of_ne _ _ _ _ self] at stillWaiting
    have busy : state.Engaged other place := Or.inl (by
      rw [show state.phase other = .waiting place from stillWaiting]
      rfl)
    by_cases same : place = target
    · subst place
      exact absurd (orderly.alone busy engaged) self
    · rw [CheckoutState.cleanUp, CheckoutState.setPhase_dir, CheckoutState.setDir_dir_of_ne _ _ _ _ same]
      exact orderly.made stillWaiting exited

end Steps

section Runs

variable [DecidableEq Rev] {state next : CheckoutState Rev} {id : Nat} {target : Target Rev}

theorem Orderly.called (orderly : Orderly state) {wants : Option Rev} (taken : state.step (.call id wants) = some next) :
    Orderly next := by
  simp only [CheckoutState.step] at taken
  split at taken
  next unused =>
    cases taken
    have released : Orderly (state.setPhase id (.looking .master)) :=
      orderly.setPhase nofun
        (fun _ _ running live => absurd live (by
          simp [orderly.no_child (by simp [unused]) (by simp [unused]) running]))
        nofun
    exact ⟨released.alone, released.child, released.made, released.kept⟩
  next => cases taken

theorem Orderly.begins (orderly : Orderly state) (taken : state.step (.begin id target) = some next) : Orderly next := by
  simp only [CheckoutState.step] at taken
  split at taken
  next starting =>
    split at taken
    next =>
      cases taken
      have made := orderly.setDir (.started id) (Or.inr ⟨_, starting, rfl⟩) nofun
      exact made.setGit .starting starting rfl nofun
    next =>
      cases taken
      exact orderly.setGit .starting starting rfl nofun
  next => cases taken

theorem Orderly.exits (orderly : Orderly state) {success leaves : Bool}
    (taken : state.step (.exit id target success leaves) = some next) : Orderly next := by
  simp only [CheckoutState.step] at taken
  split at taken
  next starting =>
    split at taken
    next => cases taken
    next => cases taken; exact orderly.setGit .starting starting rfl nofun
  next writing =>
    split at taken
    next =>
      split at taken
      next =>
        cases taken
        have made := orderly.setDir .complete (Or.inr ⟨_, writing, rfl⟩) nofun
        exact made.setGit .writing writing rfl fun _ => by simp
      next => cases taken
    next =>
      split at taken
      next =>
        cases taken
        have cleared := orderly.setDir .absent (Or.inr ⟨_, writing, rfl⟩) fun _ _ => by simp [writing]
        exact cleared.setGit .writing writing rfl nofun
      next => cases taken; exact orderly.setGit .writing writing rfl nofun
  next => cases taken

theorem Orderly.reaps (orderly : Orderly state) (taken : state.step (.reap id) = some next) : Orderly next := by
  simp only [CheckoutState.step] at taken
  split at taken
  next target waiting =>
    have engaged : state.Engaged id target := Or.inl (by rw [waiting]; rfl)
    split at taken
    next exited =>
      cases taken
      refine orderly.succeed (fun {place process} running => ?_) (orderly.made waiting exited)
        fun other different busy => different (orderly.alone busy engaged)
      -- Git for another path would have left the call waiting there.
      refine Bool.eq_false_iff.mpr fun live => ?_
      rcases orderly.child running live with elsewhere | ⟨ok, ended⟩
      · obtain rfl := CallPhase.waiting.inj (waiting.symm.trans elsewhere)
        rw [exited] at running
        cases running
        cases live
      · rw [waiting] at ended
        cases ended
    next => cases taken; exact orderly.cleanUp waiting
    next => cases taken
  next => cases taken

theorem orderly_step {action : CheckoutAction Rev} (orderly : Orderly state) (alone : LooksAlone state action)
    (taken : state.step action = some next) : Orderly next := by
  cases action with
  | call id wants => exact orderly.called taken
  | look id =>
    simp only [CheckoutState.step] at taken
    split at taken
    next target looking =>
      split at taken
      next absent =>
        cases taken
        exact orderly.lookMissing looking absent (alone target looking)
      next present =>
        cases taken
        exact orderly.succeed (orderly.no_child (by simp [looking]) (by simp [looking])) present
          fun other _ => alone target looking other
    next => cases taken
  | fail id =>
    simp only [CheckoutState.step] at taken
    split at taken
    next => cases taken; exact orderly.setPhase nofun (fun _ _ _ _ => ⟨false, rfl⟩) nofun
    next => cases taken; exact orderly.setPhase nofun (fun _ _ _ _ => ⟨false, rfl⟩) nofun
    next => cases taken
  | fetched id =>
    simp only [CheckoutState.step] at taken
    split at taken
    next rev fetching =>
      cases taken
      refine orderly.setPhase (fun place named => ?_) (fun _ _ running live => ?_) nofun
      · rw [fetching]
        exact named
      · rw [orderly.no_child (by simp [fetching]) (by simp [fetching]) running] at live
        cases live
    next => cases taken
  | spawn id =>
    simp only [CheckoutState.step] at taken
    split at taken
    next target preparing =>
      cases taken
      exact orderly.spawn preparing
    next => cases taken
  | begin id target => exact orderly.begins taken
  | exit id target success leaves => exact orderly.exits taken
  | reap id => exact orderly.reaps taken
  | abandon id =>
    simp only [CheckoutState.step] at taken
    split at taken
    next target waiting => cases taken; exact orderly.cleanUp waiting
    next => cases taken; exact orderly.setPhase nofun (fun _ _ _ _ => ⟨false, rfl⟩) nofun
    next => cases taken

theorem mem_returned_step {action : CheckoutAction Rev} (taken : state.step action = some next)
    {entry : Nat × Target Rev} (member : entry ∈ state.returned) : entry ∈ next.returned := by
  cases action <;> simp only [CheckoutState.step] at taken <;> repeat' split at taken
  all_goals cases taken
  all_goals first
    | exact member
    | exact List.mem_append_left _ member

/-- When every call looks alone, no step of any call takes a finished checkout away, and no
call returns before the checkout is done. -/
theorem run_keepsFinished {actions : List (CheckoutAction Rev)} {state next : CheckoutState Rev}
    {action : CheckoutAction Rev} (run : Run CheckoutState.step LooksAlone .idle actions state)
    (alone : LooksAlone state action) (taken : state.step action = some next) : KeepsFinished state next := by
  have orderly : Orderly state :=
    run.invariant orderly_idle fun _ _ _ before meets after => orderly_step before meets after
  have after : Orderly next := orderly_step orderly alone taken
  constructor
  · intro id target member _
    exact (after.kept (mem_returned_step taken member)).1
  · rintro id target - member ⟨writer, writing, -⟩
    exact (after.kept member).2 writer (Or.inr ⟨.writing, writing, rfl⟩)

end Runs

/-- A call that comes alone returns with a clone that stays. -/
theorem run_keepsFinished_single :
    ∃ state next : CheckoutState String,
      Run CheckoutState.step LooksAlone .idle
          [.call 0 none, .look 0, .spawn 0, .begin 0 .master, .exit 0 .master true false] state ∧
        state.step (.reap 0) = some next ∧ (0, .master) ∈ next.returned ∧ KeepsFinished state next := by
  have free : LooksAlone ((CheckoutState.idle.step (.call 0 none)).getD .idle) (.look 0 : CheckoutAction String) := by
    rintro target looking other (busy | ⟨process, running, -⟩)
    · by_cases self : other = 0
      · subst other
        cases busy
      · simp [CheckoutState.step, CheckoutState.idle, CheckoutState.setPhase, self, CallPhase.target?] at busy
    · cases running
  have run : Run CheckoutState.step LooksAlone .idle
      [.call 0 none, .look 0, .spawn 0, .begin 0 .master, .exit 0 .master true false] _ :=
    .cons trivial rfl <| .cons free rfl <| .cons trivial rfl <| .cons trivial rfl <| .cons trivial rfl .start
  have alone : ∀ state : CheckoutState String, LooksAlone state (.reap 0) := fun _ => trivial
  exact ⟨_, _, run, rfl, List.mem_cons_self, run_keepsFinished run (alone _) rfl⟩

/-- Two calls that look before either has made the clone: the guard of the second removes
what the first has returned. And a call that looks while git is writing returns at once. -/
theorem overlapping_calls_not_kept :
    (∃ state next : CheckoutState String,
      AnyRun CheckoutState.step .idle
          [.call 0 none, .call 1 none, .look 0, .look 1, .spawn 0, .begin 0 .master, .exit 0 .master true false,
            .reap 0, .spawn 1, .begin 1 .master] state ∧
        state.step (.reap 1) = some next ∧ ¬KeepsFinished state next) ∧
    ∃ state next : CheckoutState String,
      AnyRun CheckoutState.step .idle [.call 0 none, .call 1 none, .look 0, .spawn 0, .begin 0 .master] state ∧
        state.step (.look 1) = some next ∧ ¬KeepsFinished state next := by
  constructor
  · refine ⟨_, _, run_of_exec rfl, rfl, fun kept => ?_⟩
    exact kept.1 0 .master (by decide) (by decide) rfl
  · refine ⟨_, _, run_of_exec rfl, rfl, fun kept => ?_⟩
    exact kept.2 1 .master (by decide) (by decide) ⟨0, rfl, rfl⟩

end EkaCI
