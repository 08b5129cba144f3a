import EkaCI.Forge.Gates

/-! The runs in which every gate is closed. -/

namespace EkaCI

open Lib

/-- The task will complete the gate of a pass, or cancel it. -/
def GateTask.Concludes (pass : GatePass) : GateTask → Prop
  | .completeGate other _ => other = pass
  | .cancelCheckRunsForCommit info =>
    info.commit = pass.info.commit ∧ info.owner = pass.info.owner ∧ info.repoName = pass.info.repoName
  | _ => False

/-- The pass is under way, or a task that is to come concludes it. -/
def Awaited (passes : List GatePass) (tasks : List GateTask) (pass : GatePass) : Prop :=
  pass ∈ passes ∨ ∃ task ∈ tasks, task.Concludes pass

namespace GateStore

variable (store : GateStore) (answers : GateAnswers × GateAnswers)

/-- A gate in progress under the key. -/
def OpenAt (key : GateKey) (gate : GateRun) : Prop := gate ∈ store.gates ∧ gate.Open ∧ gate.pass.key = key

/-- An attempt makes a check run. -/
def Creates : Prop :=
  answers.1.installed = true ∧ (answers.1.call = .ok () ∨
    answers.1.call = .error .rateLimited ∧ answers.2.installed = true ∧ answers.2.call = .ok ())

/-- The check run that was remembered is completed; once the entry is gone, an eval gate
may be found again. -/
def Delivers (gate : GateRun) : Prop :=
  answers.1.call = .ok () ∨ answers.1.call = .error .rateLimited ∧ gate.pass.kind ≠ .configure ∧
    answers.2.installed = true ∧ answers.2.found = some gate.id ∧ answers.2.call = .ok ()

/-- A check run that is found is completed. -/
def ClosesFound (pass : GatePass) : Prop :=
  pass.kind ≠ .configure ∧ (store.findCheckRunByName pass answers.1.found).isSome = true ∧ (answers.1.call = .ok () ∨
    answers.1.call = .error .rateLimited ∧ answers.2.installed = true ∧
      (store.findCheckRunByName pass answers.2.found).isSome = true ∧ answers.2.call = .ok ())

/-- A gate is created where none is in progress under its key, and while its end is to
come. A gate is completed by its own pass, and the call succeeds; without one nothing is
completed. A cancellation reaches the gates under its commit, which are those of its
repository. If the app is not installed, the gates wait for something else. -/
def Fits (passes : List GatePass) (rest : List GateTask) : GateTask → Prop
  | .createGate pass => Creates answers → (∀ gate, ¬ store.OpenAt pass.key gate) ∧ Awaited passes rest pass
  | .completeGate pass _ =>
    if answers.1.installed then
      (∀ gate, store.OpenAt pass.key gate → gate.pass = pass ∧ Delivers answers gate) ∧
        ((∀ gate, ¬ store.OpenAt pass.key gate) → ¬ store.ClosesFound answers pass)
    else ∀ gate ∈ store.gates, gate.Open → gate.pass = pass → Awaited passes rest pass
  | .failCIEvalJob _ _ => True
  | .cancelCheckRunsForCommit info =>
    ∀ gate ∈ store.gates, gate.Open → gate.pass.info.commit = info.commit →
      if answers.1.installed then
        gate.pass.info.owner = info.owner ∧ gate.pass.info.repoName = info.repoName ∧ answers.1.cancelled gate.id = true
      else Awaited passes rest gate.pass

end GateStore

namespace GateSystem

/-- The condition on a step. A pass ends early, and the service starts again, only while
no gate depends on it. -/
def Keeps (system : GateSystem) : GateAction → Prop
  | .abortPass index => ∀ gate ∈ system.store.gates, gate.Open → Awaited (system.passes.eraseIdx index) system.tasks gate.pass
  | .dispatch _ answers _ => ∀ task rest, system.queue = task :: rest → system.store.Fits answers system.passes rest task
  | .replay answers _ => ∀ row rest, system.replaying = row :: rest →
      system.store.Fits answers system.passes (rest.map Prod.snd ++ system.queue) row.2
  | .restart => ∀ gate ∈ system.store.gates, ¬ gate.Open
  | _ => True

end GateSystem

/-- Ids tell the gates apart, the gates in progress are those that are remembered, and the
others are concluded. -/
structure GateStore.Sound (store : GateStore) : Prop where
  distinct : ∀ gate ∈ store.gates, ∀ other ∈ store.gates, gate.id = other.id → gate = other
  below : ∀ gate ∈ store.gates, gate.id < store.fresh
  tracked : ∀ gate ∈ store.gates, gate.Open → store.checks.get gate.pass.key = some gate.id
  remembered : ∀ key id, store.checks.get key = some id → ∃ gate, store.OpenAt key gate ∧ gate.id = id
  concluded : ∀ gate ∈ store.gates, gate.Open ∨ gate.Concluded

namespace GateStore

variable {store : GateStore}
variable {gate : GateRun} {key : GateKey} {pass : GatePass} {outcome : GateOutcome} {closing : GateClosing} {id : Nat}
  {info : CICheckInfo} {attempt : GateAnswers} {cancelled : Nat → Bool}

theorem Sound.openAt_unique (sound : store.Sound) {other : GateRun} (first : store.OpenAt key gate)
    (second : store.OpenAt key other) : gate = other := by
  obtain ⟨member, isOpen, rfl⟩ := first
  obtain ⟨otherMember, otherOpen, same⟩ := second
  have tracked := sound.tracked gate member isOpen
  rw [← same, sound.tracked other otherMember otherOpen] at tracked
  exact (sound.distinct _ otherMember _ member (Option.some.inj tracked)).symm

theorem Sound.get_eq_none (sound : store.Sound) : store.checks.get key = none ↔ ∀ gate, ¬ store.OpenAt key gate := by
  constructor
  · rintro absent gate ⟨member, isOpen, rfl⟩
    rw [sound.tracked gate member isOpen] at absent
    cases absent
  · intro none
    rw [Option.eq_none_iff_forall_ne_some]
    intro id found
    obtain ⟨gate, isOpen, -⟩ := sound.remembered key id found
    exact none gate isOpen

theorem Sound.create_distinct (sound : store.Sound) (pass : GatePass) (closings : List GateClosing) :
    ∀ gate ∈ (store.create pass closings).gates, ∀ other ∈ (store.create pass closings).gates,
      gate.id = other.id → gate = other := by
  intro gate member other otherMember same
  rcases mem_snoc.mp member with old | new <;> rcases mem_snoc.mp otherMember with otherOld | otherNew
  · exact sound.distinct gate old other otherOld same
  · have less := sound.below gate old
    rw [same, otherNew] at less
    exact absurd less (Nat.lt_irrefl _)
  · have less := sound.below other otherOld
    rw [← same, new] at less
    exact absurd less (Nat.lt_irrefl _)
  · rw [new, otherNew]

theorem Sound.create_below (sound : store.Sound) (pass : GatePass) (closings : List GateClosing) :
    ∀ gate ∈ (store.create pass closings).gates, gate.id < (store.create pass closings).fresh := by
  intro gate member
  rcases mem_snoc.mp member with old | new
  · exact Nat.lt_succ_of_lt (sound.below gate old)
  · rw [new]
    exact Nat.lt_succ_self _

theorem Sound.create (sound : store.Sound) (free : ∀ gate, ¬ store.OpenAt pass.key gate) :
    ((store.create pass []).remember pass.key store.fresh).Sound where
  distinct := sound.create_distinct pass []
  below := sound.create_below pass []
  tracked gate member isOpen := by
    rw [remember, Table.push_get]
    rcases mem_snoc.mp member with old | new
    · have other : gate.pass.key ≠ pass.key := fun same => free gate ⟨old, isOpen, same⟩
      rw [if_neg other]
      exact sound.tracked gate old isOpen
    · rw [new, if_pos rfl]
  remembered key id found := by
    rw [remember, Table.push_get] at found
    split at found
    · rename_i same
      cases found
      exact ⟨⟨store.fresh, pass, []⟩, ⟨List.mem_append_right _ (List.mem_singleton_self _), rfl, same.symm⟩, rfl⟩
    · obtain ⟨gate, ⟨member, isOpen, same⟩, rfl⟩ := sound.remembered key id found
      exact ⟨gate, ⟨List.mem_append_left _ member, isOpen, same⟩, rfl⟩
  concluded gate member := by
    rcases mem_snoc.mp member with old | new
    · exact sound.concluded gate old
    · rw [new]
      exact Or.inl rfl

theorem Sound.fail (sound : store.Sound) : (store.create pass [⟨outcome, some pass.number⟩]).Sound where
  distinct := sound.create_distinct pass _
  below := sound.create_below pass _
  tracked gate member isOpen := by
    rcases mem_snoc.mp member with old | new
    · exact sound.tracked gate old isOpen
    · rw [new] at isOpen
      cases isOpen
  remembered key id found := by
    obtain ⟨gate, ⟨member, isOpen, same⟩, rfl⟩ := sound.remembered key id found
    exact ⟨gate, ⟨List.mem_append_left _ member, isOpen, same⟩, rfl⟩
  concluded gate member := by
    rcases mem_snoc.mp member with old | new
    · exact sound.concluded gate old
    · rw [new]
      exact Or.inr ⟨_, rfl, Or.inl rfl⟩

theorem mem_close : gate ∈ (store.close id closing).gates ↔
    ∃ before ∈ store.gates, gate = if before.id = id then { before with closings := before.closings ++ [closing] } else before := by
  rw [close, List.mem_map]
  exact exists_congr fun before => and_congr_right fun _ => eq_comm

theorem open_of_close (member : gate ∈ (store.close id closing).gates) (isOpen : gate.Open) :
    gate ∈ store.gates ∧ gate.id ≠ id := by
  obtain ⟨before, listed, rfl⟩ := mem_close.mp member
  split at isOpen
  · rw [GateRun.Open] at isOpen
    exact absurd isOpen (List.append_ne_nil_of_right_ne_nil _ (List.cons_ne_nil _ _))
  · rename_i other
    rw [if_neg other]
    exact ⟨listed, other⟩

theorem Sound.close (sound : store.Sound) (isOpen : store.OpenAt key gate)
    (right : closing.pass = some gate.pass.number ∨ closing = ⟨⟨.cancelled, ""⟩, none⟩) :
    ((store.forget key).close gate.id closing).Sound where
  distinct first member second otherMember same := by
    obtain ⟨before, listed, rfl⟩ := mem_close.mp member
    obtain ⟨other, otherListed, rfl⟩ := mem_close.mp otherMember
    have unchanged : ∀ run : GateRun,
        (if run.id = gate.id then { run with closings := run.closings ++ [closing] } else run).id = run.id := by
      intro run
      split <;> rfl
    rw [unchanged, unchanged] at same
    rw [sound.distinct before listed other otherListed same]
  below run member := by
    obtain ⟨before, listed, rfl⟩ := mem_close.mp member
    split
    · exact sound.below before listed
    · exact sound.below before listed
  tracked run member stillOpen := by
    obtain ⟨listed, other⟩ := open_of_close member stillOpen
    have elsewhere : run.pass.key ≠ key :=
      fun same => other (congrArg GateRun.id (sound.openAt_unique ⟨listed, stillOpen, same⟩ isOpen))
    have kept : ((store.forget key).close gate.id closing).checks.get run.pass.key = store.checks.get run.pass.key := by
      rw [GateStore.close, forget, Table.erase_get, if_neg elsewhere]
    rw [kept]
    exact sound.tracked run listed stillOpen
  remembered other id found := by
    have erased : (store.checks.erase key).get other = some id := found
    rw [Table.erase_get] at erased
    split at erased
    · cases erased
    · rename_i elsewhere
      obtain ⟨run, ⟨member, stillOpen, rfl⟩, rfl⟩ := sound.remembered other id erased
      have different : run.id ≠ gate.id := by
        intro same
        obtain rfl := sound.distinct run member gate isOpen.1 same
        exact elsewhere isOpen.2.2
      refine ⟨run, ⟨mem_close.mpr ⟨run, member, ?_⟩, stillOpen, rfl⟩, rfl⟩
      rw [if_neg different]
  concluded run member := by
    obtain ⟨before, listed, rfl⟩ := mem_close.mp member
    split
    · rename_i same
      obtain rfl := sound.distinct before listed gate isOpen.1 same
      refine Or.inr ⟨closing, ?_, right⟩
      have none : before.closings = [] := isOpen.2.1
      rw [none, List.nil_append]
    · exact sound.concluded before listed

theorem hasGate_of_mem (member : gate ∈ store.gates) (owner : gate.pass.info.owner = info.owner)
    (repo : gate.pass.info.repoName = info.repoName) : store.hasGate info gate.id = true := by
  rw [hasGate, List.any_eq_true]
  exact ⟨gate, member, decide_eq_true ⟨rfl, owner, repo⟩⟩

theorem update_ok (member : gate ∈ store.gates) (owner : gate.pass.info.owner = info.owner)
    (repo : gate.pass.info.repoName = info.repoName) (closing : GateClosing) :
    store.update info gate.id closing (.ok ()) = (.ok (), store.close gate.id closing) := by
  rw [update, if_pos (hasGate_of_mem member owner repo)]

/-- The store is sound, and each gate in progress has something to wait for. -/
structure Ready (store : GateStore) (passes : List GatePass) (tasks : List GateTask) : Prop where
  sound : store.Sound
  awaited : ∀ gate ∈ store.gates, gate.Open → Awaited passes tasks gate.pass

variable {passes : List GatePass} {rest : List GateTask} {task : GateTask} {answers : GateAnswers × GateAnswers}

theorem awaited_of_cons (awaited : Awaited passes (task :: rest) pass)
    (other : task.Concludes pass → Awaited passes rest pass) : Awaited passes rest pass := by
  rcases awaited with begun | ⟨last, member, concludes⟩
  · exact Or.inl begun
  · rcases List.mem_cons.mp member with rfl | later
    · exact other concludes
    · exact Or.inr ⟨last, later, concludes⟩

theorem Ready.drop (ready : store.Ready passes (task :: rest))
    (other : ∀ gate ∈ store.gates, gate.Open → task.Concludes gate.pass → Awaited passes rest gate.pass) :
    store.Ready passes rest where
  sound := ready.sound
  awaited gate member isOpen := awaited_of_cons (ready.awaited gate member isOpen) (other gate member isOpen)

theorem handleTask_makes {made : GateStore}
    (attempts : ∀ attempt : GateAnswers, store.handleGithubTask attempt task =
      if attempt.installed then
        match attempt.call with
        | .error failure => (.error failure, store)
        | .ok () => (.ok (), made)
      else (.error .other, store)) :
    (store.handleTask answers task).2 = store ∨ Creates answers ∧ (store.handleTask answers task).2 = made := by
  obtain ⟨⟨installed, call, _, _, _⟩, ⟨again, retried, _, _, _⟩⟩ := answers
  rw [handleTask, attempts]
  cases installed with
  | false => exact Or.inl rfl
  | true =>
    rcases call with (_ | _) | _
    · -- rate limited, so handled once more
      rw [if_pos rfl]
      dsimp only
      rw [attempts]
      cases again with
      | false => exact Or.inl rfl
      | true =>
        rcases retried with failure | _
        · exact Or.inl rfl
        · exact Or.inr ⟨⟨rfl, Or.inr ⟨rfl, rfl, rfl⟩⟩, rfl⟩
    · exact Or.inl rfl
    · exact Or.inr ⟨⟨rfl, Or.inl rfl⟩, rfl⟩

theorem Ready.create (ready : store.Ready passes (.createGate pass :: rest))
    (fits : store.Fits answers passes rest (.createGate pass)) :
    (store.handleTask answers (.createGate pass)).2.Ready passes rest := by
  have dropped : store.Ready passes rest := ready.drop fun _ _ _ concludes => concludes.elim
  rcases @handleTask_makes store (.createGate pass) answers _ fun _ => rfl with same | ⟨creates, same⟩
  · rw [same]
    exact dropped
  · rw [same]
    obtain ⟨free, awaited⟩ := fits creates
    refine ⟨ready.sound.create free, fun gate member isOpen => ?_⟩
    rcases mem_snoc.mp member with old | new
    · exact dropped.awaited gate old isOpen
    · rw [new]
      exact awaited

theorem Ready.fail {summary : String} (ready : store.Ready passes (.failCIEvalJob pass summary :: rest)) :
    (store.handleTask answers (.failCIEvalJob pass summary)).2.Ready passes rest := by
  have dropped : store.Ready passes rest := ready.drop fun _ _ _ concludes => concludes.elim
  rcases @handleTask_makes store (.failCIEvalJob pass summary) answers _ fun _ => rfl with same | ⟨-, same⟩
  · rw [same]
    exact dropped
  · rw [same]
    refine ⟨ready.sound.fail, fun gate member isOpen => ?_⟩
    rcases mem_snoc.mp member with old | new
    · exact dropped.awaited gate old isOpen
    · rw [new] at isOpen
      cases isOpen

theorem handleCompleteGate_remembered (outcome : GateOutcome) (installed : attempt.installed = true)
    (found : store.checks.get pass.key = some id) :
    store.handleGithubTask attempt (.completeGate pass outcome) =
      (store.forget pass.key).update pass.info id ⟨outcome, some pass.number⟩ attempt.call := by
  rw [handleGithubTask, handleCompleteGate, if_pos installed, found]

theorem handleCompleteGate_found (outcome : GateOutcome) (installed : attempt.installed = true)
    (absent : store.checks.get pass.key = none) (eval : pass.kind ≠ .configure)
    (found : store.findCheckRunByName pass attempt.found = some id) :
    store.handleGithubTask attempt (.completeGate pass outcome) =
      store.update pass.info id ⟨outcome, some pass.number⟩ attempt.call := by
  rw [handleGithubTask, handleCompleteGate, if_pos installed, absent]
  dsimp only
  split
  · rename_i configure
    exact absurd configure eval
  · rw [found]

theorem handleTask_complete (outcome : GateOutcome) (installed : answers.1.installed = true)
    (member : gate ∈ store.gates) (entry : store.checks.get gate.pass.key = some gate.id)
    (delivers : Delivers answers gate) :
    (store.handleTask answers (.completeGate gate.pass outcome)).2 =
      (store.forget gate.pass.key).close gate.id ⟨outcome, some gate.pass.number⟩ := by
  have listed : gate ∈ (store.forget gate.pass.key).gates := member
  rw [handleTask, handleCompleteGate_remembered outcome installed entry]
  rcases delivers with ok | ⟨limited, eval, again, found, ok⟩
  · rw [ok, update_ok listed rfl rfl]
  · have absent : (store.forget gate.pass.key).checks.get gate.pass.key = none := Table.erase_get_self _ _
    have sighted : (store.forget gate.pass.key).findCheckRunByName gate.pass answers.2.found = some gate.id := by
      rw [found, findCheckRunByName, Option.filter_some, if_pos]
      exact List.any_eq_true.mpr ⟨gate, listed, decide_eq_true ⟨rfl, rfl, rfl, rfl⟩⟩
    rw [limited, update]
    dsimp only
    rw [handleCompleteGate_found outcome again absent eval sighted, ok, update_ok listed rfl rfl]

theorem handleCompleteGate_unfound (outcome : GateOutcome) (absent : store.checks.get pass.key = none)
    (unfound : ¬ (attempt.installed = true ∧ pass.kind ≠ .configure ∧
      (store.findCheckRunByName pass attempt.found).isSome = true)) :
    (store.handleGithubTask attempt (.completeGate pass outcome)).2 = store ∧
      (store.handleGithubTask attempt (.completeGate pass outcome)).1 ≠ .error .rateLimited := by
  rw [handleGithubTask, handleCompleteGate]
  split
  · rename_i installed
    rw [absent]
    dsimp only
    split
    · exact ⟨rfl, nofun⟩
    · rename_i title eval
      split
      · rename_i id found
        exact absurd ⟨installed, by rw [eval]; exact nofun, by rw [found]; rfl⟩ unfound
      · exact ⟨rfl, nofun⟩
  · exact ⟨rfl, nofun⟩

theorem handleTask_of_ne (once : (store.handleGithubTask answers.1 task).1 ≠ .error .rateLimited) :
    store.handleTask answers task = store.handleGithubTask answers.1 task := by
  rw [handleTask]
  split
  · rename_i limited result
    rw [result] at once
    exact absurd rfl once
  · rfl

theorem handleTask_of_other {next : GateStore} (failed : store.handleGithubTask answers.1 task = (.error .other, next)) :
    store.handleTask answers task = (.error .other, next) := by
  rw [handleTask_of_ne, failed]
  rw [failed]
  intro limited
  cases limited

theorem handleTask_complete_nothing (outcome : GateOutcome) (absent : store.checks.get pass.key = none)
    (installed : answers.1.installed = true) (nothing : ¬ store.ClosesFound answers pass) :
    (store.handleTask answers (.completeGate pass outcome)).2 = store := by
  by_cases asks : pass.kind ≠ .configure ∧ (store.findCheckRunByName pass answers.1.found).isSome = true
  · obtain ⟨eval, sighted⟩ := asks
    obtain ⟨id, found⟩ := Option.isSome_iff_exists.mp sighted
    have first := handleCompleteGate_found outcome installed absent eval found
    cases call : answers.1.call with
    | ok done => exact absurd ⟨eval, sighted, Or.inl call⟩ nothing
    | error failure =>
      rw [call, update] at first
      cases failure with
      | other =>
        rw [handleTask_of_other first]
      | rateLimited =>
        rw [handleTask, first]
        dsimp only
        by_cases again : answers.2.installed = true ∧ pass.kind ≠ .configure ∧
            (store.findCheckRunByName pass answers.2.found).isSome = true
        · obtain ⟨installed, eval, resighted⟩ := again
          obtain ⟨id, found⟩ := Option.isSome_iff_exists.mp resighted
          rw [handleCompleteGate_found outcome installed absent eval found]
          cases retried : answers.2.call with
          | ok done => exact absurd ⟨eval, sighted, Or.inr ⟨call, installed, resighted, retried⟩⟩ nothing
          | error failure => rfl
        · exact (handleCompleteGate_unfound outcome absent again).1
  · have unfound := handleCompleteGate_unfound outcome absent fun all => asks all.2
    rw [handleTask_of_ne unfound.2, unfound.1]

theorem Ready.complete (ready : store.Ready passes (.completeGate pass outcome :: rest))
    (fits : store.Fits answers passes rest (.completeGate pass outcome)) :
    (store.handleTask answers (.completeGate pass outcome)).2.Ready passes rest := by
  rw [Fits] at fits
  split at fits
  · rename_i installed
    obtain ⟨own, none⟩ := fits
    cases entry : store.checks.get pass.key with
    | some id =>
      obtain ⟨gate, isOpen, rfl⟩ := ready.sound.remembered pass.key id entry
      obtain ⟨rfl, delivers⟩ := own gate isOpen
      rw [handleTask_complete outcome installed isOpen.1 entry delivers]
      refine ⟨ready.sound.close isOpen (Or.inl rfl), fun run member stillOpen => ?_⟩
      obtain ⟨listed, other⟩ := open_of_close member stillOpen
      apply awaited_of_cons (ready.awaited run listed stillOpen)
      -- another gate of the same pass would be under the same key
      intro same
      have key : run.pass.key = gate.pass.key := congrArg GatePass.key (Eq.symm same)
      exact absurd (congrArg GateRun.id (ready.sound.openAt_unique ⟨listed, stillOpen, key⟩ isOpen)) other
    | none =>
      have free := ready.sound.get_eq_none.mp entry
      rw [handleTask_complete_nothing outcome entry installed (none free)]
      apply ready.drop
      intro gate member isOpen same
      exact absurd ⟨member, isOpen, congrArg GatePass.key (Eq.symm same)⟩ (free gate)
  · rename_i missing
    have unchanged : store.handleTask answers (.completeGate pass outcome) = (.error .other, store) := by
      have first : store.handleGithubTask answers.1 (.completeGate pass outcome) = (.error .other, store) := by
        rw [handleGithubTask, handleCompleteGate, if_neg missing]
      exact handleTask_of_other first
    rw [unchanged]
    apply ready.drop
    rintro gate member isOpen rfl
    exact fits gate member isOpen rfl

/-- The gates in progress under the commit are those of the repository, and can be cancelled. -/
def Cancellable (store : GateStore) (info : CICheckInfo) (cancelled : Nat → Bool) : Prop :=
  ∀ gate ∈ store.gates, gate.Open → gate.pass.info.commit = info.commit →
    gate.pass.info.owner = info.owner ∧ gate.pass.info.repoName = info.repoName ∧ cancelled gate.id = true

theorem Sound.cancelGate (sound : store.Sound) (cancellable : store.Cancellable info cancelled)
    (under : key.commit = info.commit) :
    (cancelGate info cancelled store key).Sound ∧ ∀ gate ∈ (cancelGate info cancelled store key).gates, gate.Open →
      gate ∈ store.gates ∧ gate.pass.key ≠ key := by
  rw [GateStore.cancelGate]
  cases entry : store.checks.get key with
  | none =>
    have free := sound.get_eq_none.mp entry
    exact ⟨sound, fun gate member isOpen => ⟨member, fun same => free gate ⟨member, isOpen, same⟩⟩⟩
  | some id =>
    obtain ⟨gate, isOpen, rfl⟩ := sound.remembered key id entry
    have commit : gate.pass.info.commit = info.commit := by
      rw [← under, ← isOpen.2.2]
      rfl
    obtain ⟨owner, repo, taken⟩ := cancellable gate isOpen.1 isOpen.2.1 commit
    have listed : gate ∈ (store.forget key).gates := isOpen.1
    dsimp only
    rw [taken, if_pos rfl, update_ok listed owner repo]
    refine ⟨sound.close isOpen (Or.inr rfl), fun run member stillOpen => ?_⟩
    obtain ⟨before, other⟩ := open_of_close member stillOpen
    exact ⟨before, fun same => other (congrArg GateRun.id (sound.openAt_unique ⟨before, stillOpen, same⟩ isOpen))⟩

theorem Sound.cancelGates (sound : store.Sound) (cancellable : store.Cancellable info cancelled) {keys : List GateKey}
    (under : ∀ key ∈ keys, key.commit = info.commit) :
    (keys.foldl (GateStore.cancelGate info cancelled) store).Sound ∧
      ∀ gate ∈ (keys.foldl (GateStore.cancelGate info cancelled) store).gates, gate.Open →
        gate ∈ store.gates ∧ gate.pass.key ∉ keys := by
  induction keys generalizing store with
  | nil => exact ⟨sound, fun gate member _ => ⟨member, List.not_mem_nil⟩⟩
  | cons key rest ih =>
    obtain ⟨next, kept⟩ := sound.cancelGate cancellable (under key List.mem_cons_self)
    have still : (GateStore.cancelGate info cancelled store key).Cancellable info cancelled :=
      fun gate member isOpen commit => cancellable gate (kept gate member isOpen).1 isOpen commit
    obtain ⟨final, left⟩ := ih next still fun other member => under other (List.mem_cons_of_mem _ member)
    refine ⟨final, fun gate member isOpen => ?_⟩
    obtain ⟨middle, notRest⟩ := left gate member isOpen
    obtain ⟨before, notKey⟩ := kept gate middle isOpen
    exact ⟨before, fun listed => (List.mem_cons.mp listed).elim notKey notRest⟩

theorem commit_of_mem_keysOf {commit : String} (member : key ∈ store.keysOf commit) : key.commit = commit := by
  rcases List.mem_cons.mp member with rfl | listed
  · rfl
  · exact (of_decide_eq_true (List.mem_filter.mp listed).2).1

theorem Sound.mem_keysOf (sound : store.Sound) (member : gate ∈ store.gates) (isOpen : gate.Open) :
    gate.pass.key ∈ store.keysOf gate.pass.info.commit := by
  have listed := Table.mem_keys_of_get (sound.tracked gate member isOpen)
  by_cases configure : gate.pass.kind = .configure
  · rw [GatePass.key, configure]
    exact List.mem_cons_self
  · exact List.mem_cons_of_mem _ (List.mem_filter.mpr ⟨listed, decide_eq_true ⟨rfl, configure⟩⟩)

theorem Ready.cancel (ready : store.Ready passes (.cancelCheckRunsForCommit info :: rest))
    (fits : store.Fits answers passes rest (.cancelCheckRunsForCommit info)) :
    (store.handleTask answers (.cancelCheckRunsForCommit info)).2.Ready passes rest := by
  have once : store.handleTask answers (.cancelCheckRunsForCommit info) =
      store.handleCancelCheckRunsForCommit answers.1 info := by
    apply handleTask_of_ne
    rw [handleGithubTask, handleCancelCheckRunsForCommit]
    split
    · split <;> exact nofun
    · exact nofun
  rw [once, handleCancelCheckRunsForCommit]
  rw [Fits] at fits
  split
  · rename_i installed
    have cancellable : store.Cancellable info answers.1.cancelled := by
      intro gate member isOpen commit
      have reached := fits gate member isOpen commit
      rw [if_pos installed] at reached
      exact reached
    obtain ⟨sound, left⟩ := ready.sound.cancelGates cancellable fun key => commit_of_mem_keysOf
    refine ⟨sound, fun gate member isOpen => ?_⟩
    obtain ⟨before, notKey⟩ := left gate member isOpen
    apply awaited_of_cons (ready.awaited gate before isOpen)
    rintro ⟨commit, -, -⟩
    rw [commit] at notKey
    exact absurd (ready.sound.mem_keysOf before isOpen) notKey
  · rename_i missing
    apply ready.drop
    intro gate member isOpen concludes
    have waits := fits gate member isOpen concludes.1.symm
    rw [if_neg missing] at waits
    exact waits

theorem Ready.handleTask (ready : store.Ready passes (task :: rest)) (fits : store.Fits answers passes rest task) :
    (store.handleTask answers task).2.Ready passes rest := by
  cases task with
  | createGate pass => exact ready.create fits
  | completeGate pass outcome => exact ready.complete fits
  | failCIEvalJob pass summary => exact ready.fail
  | cancelCheckRunsForCommit info => exact ready.cancel fits

end GateStore

namespace GateSystem

variable {system next : GateSystem} {action : GateAction}

def Ready (system : GateSystem) : Prop := system.store.Ready system.passes system.tasks

theorem awaited_mono {passes morePasses : List GatePass} {tasks moreTasks : List GateTask} {pass : GatePass}
    (awaited : Awaited passes tasks pass) (begun : passes ⊆ morePasses) (sent : tasks ⊆ moreTasks) :
    Awaited morePasses moreTasks pass := by
  rcases awaited with listed | ⟨task, member, concludes⟩
  · exact Or.inl (begun listed)
  · exact Or.inr ⟨task, sent member, concludes⟩

theorem tasks_push (task : GateTask) : system.tasks ⊆ system.replaying.map Prod.snd ++ (system.queue ++ [task]) := by
  rw [tasks, ← List.append_assoc]
  exact List.subset_append_left _ _

theorem mem_push (task : GateTask) : task ∈ system.replaying.map Prod.snd ++ (system.queue ++ [task]) :=
  List.mem_append_right _ (List.mem_append_right _ (List.mem_singleton_self _))

theorem Ready.step (ready : system.Ready) (keeps : system.Keeps action) (taken : GateSystem.step system action = some next) :
    next.Ready := by
  cases action with
  | beginPass info kind =>
    cases Option.some.inj taken
    refine ⟨ready.sound, fun gate member isOpen => ?_⟩
    exact awaited_mono (ready.awaited gate member isOpen) (List.subset_append_left _ _) (tasks_push _)
  | failEval info jobTitle summary | cancel info =>
    cases Option.some.inj taken
    refine ⟨ready.sound, fun gate member isOpen => ?_⟩
    exact awaited_mono (ready.awaited gate member isOpen) (List.Subset.refl _) (tasks_push _)
  | endPass index conclusion summary =>
    obtain ⟨pass, found, rfl⟩ := Option.map_eq_some_iff.mp taken
    refine ⟨ready.sound, fun gate member isOpen => ?_⟩
    obtain ⟨bound, rfl⟩ := List.getElem?_eq_some_iff.mp found
    rcases ready.awaited gate member isOpen with begun | sent
    · -- the pass that ends has sent its last task
      rcases List.mem_cons.mp ((List.getElem_cons_eraseIdx_perm bound).mem_iff.mpr begun) with ended | other
      · have sent := @mem_push system (.completeGate system.passes[index] (system.passes[index].finish conclusion summary))
        exact Or.inr ⟨_, sent, ended.symm⟩
      · exact Or.inl other
    · exact awaited_mono (Or.inr sent) (List.Subset.refl _) (tasks_push _)
  | abortPass index =>
    obtain ⟨pass, found, rfl⟩ := Option.map_eq_some_iff.mp taken
    exact ⟨ready.sound, keeps⟩
  | dispatch persisted answers acknowledged =>
    rw [GateSystem.step] at taken
    split at taken
    · rename_i task rest idle queued
      cases Option.some.inj taken
      have waiting : system.store.Ready system.passes (task :: rest) := by
        have all : system.tasks = task :: rest := by rw [tasks, idle, queued, List.map_nil, List.nil_append]
        rw [← all]
        exact ready
      have handled := waiting.handleTask (keeps task rest queued)
      rw [Ready, tasks]
      dsimp only
      rw [idle, List.map_nil, List.nil_append]
      exact handled
    · cases taken
  | replay answers acknowledged =>
    rw [GateSystem.step] at taken
    split at taken
    · rename_i id task rest recovered
      cases Option.some.inj taken
      have waiting : system.store.Ready system.passes (task :: (rest.map Prod.snd ++ system.queue)) := by
        have all : system.tasks = task :: (rest.map Prod.snd ++ system.queue) := by
          rw [tasks, recovered, List.map_cons, List.cons_append]
        rw [← all]
        exact ready
      exact waiting.handleTask (keeps (id, task) rest recovered)
    · cases taken
  | restart =>
    cases Option.some.inj taken
    have closed : ∀ gate ∈ system.store.gates, ¬ gate.Open := keeps
    refine ⟨⟨ready.sound.distinct, ready.sound.below, ?_, ?_, ready.sound.concluded⟩, ?_⟩
    · exact fun gate member isOpen => absurd isOpen (closed gate member)
    · intro key id found
      cases found
    · exact fun gate member isOpen => absurd isOpen (closed gate member)

/-- In every run whose steps meet the condition, every gate that was opened has been
closed when all is done. -/
theorem run_closesGates {actions : List GateAction} {final : GateSystem}
    (run : Run GateSystem.step Keeps start actions final) : final.GatesClosed := by
  have ready : final.Ready := by
    refine run.invariant (p := Ready) ⟨⟨?_, ?_, ?_, ?_, ?_⟩, ?_⟩ fun state action next ready keeps taken =>
      ready.step keeps taken
    · exact List.forall_mem_nil _
    · exact List.forall_mem_nil _
    · exact List.forall_mem_nil _
    · intro key id found
      cases found
    · exact List.forall_mem_nil _
    · exact List.forall_mem_nil _
  rintro ⟨noPasses, noTasks⟩ gate member
  rcases ready.sound.concluded gate member with isOpen | concluded
  · rcases ready.awaited gate member isOpen with begun | ⟨task, sent, -⟩
    · rw [noPasses] at begun
      cases begun
    · rw [noTasks] at sent
      cases sent
  · exact concluded

/-! A commit is configured, and the same with a pass that fails half-way. -/

def baseCommit : CICheckInfo := ⟨"c0ffee", none, "ekala", "corepkgs"⟩

def obligingForge : GateAnswers × GateAnswers :=
  (⟨true, .ok (), none, fun _ => true, true⟩, ⟨true, .ok (), none, fun _ => true, true⟩)

def handleOne : GateAction := .dispatch true obligingForge true

def configureOnce : List GateAction := [.beginPass baseCommit .configure, handleOne, .endPass 0 .success "1 job", handleOne]

/-- The configuration cannot be read once the gate has been asked for. -/
def configureHalf : List GateAction := [.beginPass baseCommit .configure, handleOne, .abortPass 0]

theorem configureOnce_closesGates : ∃ final, Run GateSystem.step Keeps start configureOnce final ∧ final.Settled ∧
    final.store.gates.map GateRun.closings = [[⟨⟨.success, "1 job"⟩, some 1⟩]] ∧ final.GatesClosed := by
  obtain ⟨final, run, settled, closings⟩ : ∃ final, Run GateSystem.step Keeps start configureOnce final ∧ final.Settled ∧
      final.store.gates.map GateRun.closings = [[⟨⟨.success, "1 job"⟩, some 1⟩]] := by
    refine ⟨_, .cons trivial rfl (.cons ?_ rfl (.cons trivial rfl (.cons ?_ rfl .start))), ?_, ?_⟩
    · rintro task rest queued
      cases queued
      exact fun _ => ⟨fun gate isOpen => absurd isOpen.1 List.not_mem_nil, Or.inl List.mem_cons_self⟩
    · rintro task rest queued
      cases queued
      refine ⟨fun gate isOpen => ?_, fun free => ?_⟩
      · obtain rfl := List.mem_singleton.mp isOpen.1
        exact ⟨rfl, Or.inl rfl⟩
      · exact absurd ⟨List.mem_singleton_self _, rfl, rfl⟩ (free _)
    · exact ⟨rfl, rfl⟩
    · rfl
  exact ⟨final, run, settled, closings, run_closesGates run⟩

/-- The error leaves the loop between the two sends, and the check run in progress. -/
theorem configureHalf_not_closesGates : ∃ final, AnyRun GateSystem.step start configureHalf final ∧
    final.store.gates.map GateRun.closings = [[]] ∧ ¬ final.GatesClosed := by
  refine exists_run_of_exec_imp (p := fun final => (final.passes = [] ∧ final.tasks = []) ∧
    final.store.gates.map GateRun.closings = [[]]) (by decide) fun final run ⟨settled, closings⟩ => ⟨closings, fun closed => ?_⟩
  obtain ⟨gate, member, stuck⟩ : ∃ gate ∈ final.store.gates, gate.closings = [] := by
    have listed : [] ∈ final.store.gates.map GateRun.closings := by
      rw [closings]
      exact List.mem_cons_self
    exact List.mem_map.mp listed
  obtain ⟨closing, once, -⟩ := closed settled gate member
  rw [stuck] at once
  cases once

end GateSystem

end EkaCI
