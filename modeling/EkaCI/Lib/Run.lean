import Mathlib.Data.List.Induction

/-! Runs of an executable labelled machine, and runs whose every step meets a
condition on the state it starts from. -/

namespace EkaCI.Lib

universe u v

variable {S : Type u} {A : Type v}

/-- Perform a list of actions in order; `none` once an action is not enabled. -/
def exec (step : S → A → Option S) (state : S) : List A → Option S
  | [] => some state
  | action :: rest => (step state action).bind (exec step · rest)

/-- A run all of whose steps start in a state where `good` allows the action. -/
inductive Run (step : S → A → Option S) (good : S → A → Prop) (start : S) : List A → S → Prop where
  | start : Run step good start [] start
  | snoc {actions : List A} {state next : S} {action : A} (run : Run step good start actions state)
      (meets : good state action) (taken : step state action = some next) :
      Run step good start (actions ++ [action]) next

/-- Any run, with no condition on its steps. -/
abbrev AnyRun (step : S → A → Option S) (start : S) : List A → S → Prop :=
  Run step (fun _ _ => True) start

variable {step : S → A → Option S} {good : S → A → Prop}
variable {actions first second operations : List A} {final start : S} {p : S → Prop} {perform : S → A → S}
  {q : S → A → Prop}

/-- What holds at the start and survives every good step holds at the end. -/
theorem Run.invariant (run : Run step good start actions final) (initial : p start)
    (preserved : ∀ state action next, p state → good state action →
      step state action = some next → p next) : p final := by
  induction run with
  | start => exact initial
  | snoc _ meets taken ih => exact preserved _ _ _ ih meets taken

theorem Run.append {middle : S} (run : Run step good start first middle) (rest : Run step good middle second final) :
    Run step good start (first ++ second) final := by
  induction rest with
  | start => simpa using run
  | snoc _ meets taken ih =>
    rw [← List.append_assoc]
    exact .snoc ih meets taken

/-- Performing actions one after the other is a run, if each meets the condition. -/
theorem Run.cons {next : S} {action : A} {rest : List A} (meets : good start action)
    (taken : step start action = some next) (run : Run step good next rest final) :
    Run step good start (action :: rest) final := by
  have first : Run step good start [action] next := by
    simpa using Run.snoc (.start : Run step good start [] start) meets taken
  simpa using first.append run

theorem run_of_exec (performed : exec step start actions = some final) : AnyRun step start actions final := by
  induction actions generalizing start with
  | nil =>
    cases Option.some.inj performed
    exact .start
  | cons action rest ih =>
    obtain ⟨next, taken, performed⟩ := Option.bind_eq_some_iff.mp performed
    exact .cons trivial taken (ih performed)

theorem exec_append (state : S) (first second : List A) :
    exec step state (first ++ second) = (exec step state first).bind (exec step · second) := by
  induction first generalizing state with
  | nil => rfl
  | cons action rest ih =>
    rw [List.cons_append, exec, exec, Option.bind_assoc]
    exact Option.bind_congr fun next _ => ih next

/-- An action that puts an item into a queue can be performed until there is no room. -/
theorem exec_fill {T : Type*} {put : List T → S} {action : A} {item : T} {capacity : Nat}
    (grows : ∀ queue, queue.length < capacity → step (put queue) action = some (put (queue ++ [item])))
    {queue : List T} {count : Nat} (room : queue.length + count ≤ capacity) :
    exec step (put queue) (List.replicate count action) = some (put (queue ++ List.replicate count item)) := by
  induction count generalizing queue with
  | zero => rw [List.replicate_zero, List.replicate_zero, List.append_nil, exec]
  | succ count ih =>
    have more : (queue ++ [item]).length + count ≤ capacity := by
      rw [List.length_append, List.length_singleton]
      omega
    rw [List.replicate_succ, exec, grows queue (by omega), Option.bind_some, ih more, List.append_assoc,
      List.singleton_append, ← List.replicate_succ]

/-- What each of the actions keeps holds after all of them. -/
theorem exec_invariant (performed : exec step start actions = some final) (initial : p start)
    (preserved : ∀ state action next, action ∈ actions → p state → step state action = some next → p next) :
    p final := by
  induction actions generalizing start with
  | nil =>
    cases Option.some.inj performed
    exact initial
  | cons action rest ih =>
    obtain ⟨next, taken, performed⟩ := Option.bind_eq_some_iff.mp performed
    apply ih performed (preserved _ _ _ List.mem_cons_self initial taken)
    exact fun state action next member => preserved state action next (List.mem_cons_of_mem _ member)

theorem exec_of_run (run : Run step good start actions final) : exec step start actions = some final := by
  induction run with
  | start => rfl
  | snoc _ _ taken ih => rw [exec_append, ih, Option.bind_some, exec, taken, Option.bind_some, exec]

/-- What can be seen of a run is an execution of its own, if each step that can be
seen is one of it and the others change nothing in view. -/
theorem Run.exec_view {T B : Type*} {other : T → B → Option T} (view : S → T) {visible : A → Option B}
    (run : Run step good start actions final) (initial : p start)
    (preserved : ∀ state action next, p state → good state action → step state action = some next → p next)
    (hidden : ∀ state action next, p state → good state action → step state action = some next →
      visible action = none → view next = view state)
    (seen : ∀ state action next shown, p state → good state action → step state action = some next →
      visible action = some shown → other (view state) shown = some (view next)) :
    exec other (view start) (actions.filterMap visible) = some (view final) := by
  have both : p final ∧ exec other (view start) (actions.filterMap visible) = some (view final) := by
    induction run with
    | start => exact ⟨initial, rfl⟩
    | @snoc actions state next action _ meets taken ih =>
      obtain ⟨holds, performed⟩ := ih
      refine ⟨preserved _ _ _ holds meets taken, ?_⟩
      rw [List.filterMap_append, exec_append, performed, Option.bind_some]
      cases shown : visible action with
      | none => simp only [List.filterMap_cons, shown, List.filterMap_nil, exec, hidden _ _ _ holds meets taken shown]
      | some label =>
        simp only [List.filterMap_cons, shown, List.filterMap_nil, exec, seen _ _ _ _ holds meets taken shown,
          Option.bind_some]
  exact both.2

/-- A run seen step by step as a run of another machine. -/
theorem Run.image {T B : Type*} {other : T → B → Option T} {fine : T → B → Prop} (view : S → T) (shown : A → B)
    (run : Run step good start actions final)
    (moves : ∀ state action next, good state action → step state action = some next →
      fine (view state) (shown action) ∧ other (view state) (shown action) = some (view next)) :
    Run other fine (view start) (actions.map shown) (view final) := by
  induction run with
  | start => exact .start
  | snoc _ meets taken ih =>
    obtain ⟨allowed, moved⟩ := moves _ _ _ meets taken
    rw [List.map_append]
    exact .snoc ih allowed moved

/-- An executable check that a list of actions is a run under a decidable condition. -/
def checkRun (step : S → A → Option S) (good : S → A → Prop) [∀ state action, Decidable (good state action)]
    (state : S) : List A → Option S
  | [] => some state
  | action :: rest =>
    if good state action then (step state action).bind (checkRun step good · rest) else none

theorem run_of_checkRun [∀ state action, Decidable (good state action)]
    (checked : checkRun step good start actions = some final) : Run step good start actions final := by
  induction actions generalizing start with
  | nil =>
    cases Option.some.inj checked
    exact .start
  | cons action rest ih =>
    rw [checkRun] at checked
    split at checked
    · rename_i meets
      obtain ⟨next, taken, checked⟩ := Option.bind_eq_some_iff.mp checked
      exact .cons meets taken (ih checked)
    · cases checked

/-- A checked run to a state with a decidable property. -/
theorem exists_run_of_checkRun [∀ state action, Decidable (good state action)] [DecidablePred p]
    (passed : (checkRun step good start actions).map (fun state => decide (p state)) = some true) :
    ∃ final, Run step good start actions final ∧ p final := by
  obtain ⟨final, checked, passed⟩ := Option.map_eq_some_iff.mp passed
  exact ⟨final, run_of_checkRun checked, of_decide_eq_true passed⟩

theorem exists_run_of_exec [DecidablePred p]
    (passed : (exec step start actions).map (fun state => decide (p state)) = some true) :
    ∃ final, AnyRun step start actions final ∧ p final := by
  obtain ⟨final, performed, passed⟩ := Option.map_eq_some_iff.mp passed
  exact ⟨final, run_of_exec performed, of_decide_eq_true passed⟩

/-- What is evaluated of the state reached leads to what is shown of it. -/
theorem exists_run_of_checkRun_imp [∀ state action, Decidable (good state action)] [DecidablePred p] {r : S → Prop}
    (passed : (checkRun step good start actions).map (fun state => decide (p state)) = some true)
    (leads : ∀ final, Run step good start actions final → p final → r final) :
    ∃ final, Run step good start actions final ∧ r final := by
  obtain ⟨final, run, holds⟩ := exists_run_of_checkRun passed
  exact ⟨final, run, leads final run holds⟩

theorem exists_run_of_exec_imp [DecidablePred p] {r : S → Prop}
    (passed : (exec step start actions).map (fun state => decide (p state)) = some true)
    (leads : ∀ final, AnyRun step start actions final → p final → r final) :
    ∃ final, AnyRun step start actions final ∧ r final := by
  obtain ⟨final, run, holds⟩ := exists_run_of_exec passed
  exact ⟨final, run, leads final run holds⟩

theorem exists_run_and_of_checkRun [∀ state action, Decidable (good state action)] [DecidablePred p] {r : S → Prop}
    (passed : (checkRun step good start actions).map (fun state => decide (p state)) = some true)
    (holds : ∀ final, Run step good start actions final → r final) :
    ∃ final, Run step good start actions final ∧ p final ∧ r final :=
  exists_run_of_checkRun_imp passed fun final run seen => ⟨seen, holds final run⟩

theorem mem_snoc {items : List A} {item last : A} : item ∈ items ++ [last] ↔ item ∈ items ∨ item = last := by
  rw [List.mem_append, List.mem_singleton]

theorem mem_ite_singleton {c : Prop} [Decidable c] {item single : A} :
    item ∈ (if c then [single] else []) ↔ c ∧ item = single := by
  rw [List.mem_ite_nil_right, List.mem_singleton]

/-- An element of two lists one after the other is an element of one of them. -/
theorem append_split {before after : List A} {item : A} (same : first ++ second = before ++ item :: after) :
    (∃ rest, first = before ++ item :: rest ∧ after = rest ++ second) ∨
      ∃ middle, before = first ++ middle ∧ second = middle ++ item :: after := by
  rcases List.append_eq_append_iff.mp same with ⟨middle, left, right⟩ | ⟨rest, left, right⟩
  · exact .inr ⟨middle, left, right⟩
  · cases rest with
    | nil => exact .inr ⟨[], by simpa using left.symm, right.symm⟩
    | cons head rest =>
      obtain ⟨rfl, rfl⟩ := List.cons.inj right
      exact .inl ⟨rest, left, rfl⟩

/-- A condition on each element of a list, given the elements before it. -/
theorem each_snoc {q : List A → A → Prop} {list : List A} {last : A} :
    (∀ before item after, list ++ [last] = before ++ item :: after → q before item) ↔
      (∀ before item after, list = before ++ item :: after → q before item) ∧ q list last := by
  constructor
  · intro all
    refine ⟨fun before item after split => all before item (after ++ [last]) ?_, all list last [] rfl⟩
    rw [split, List.append_assoc, List.cons_append]
  · rintro ⟨earlier, final⟩ before item after split
    induction after using List.reverseRecOn with
    | nil =>
      obtain ⟨rfl, same⟩ := List.append_inj' split rfl
      cases same
      exact final
    | append_singleton after other _ =>
      rw [← List.cons_append, ← List.append_assoc] at split
      exact earlier before item after (List.append_inj' split rfl).1

/-- Performed actions are a run exactly if each of them meets the condition in
the state that it finds. -/
theorem run_iff (performed : exec step start actions = some final) :
    Run step good start actions final ↔ ∀ before action after, actions = before ++ action :: after →
      ∀ state, exec step start before = some state → good state action := by
  constructor
  · intro run
    clear performed
    induction run with
    | start => exact fun before _ _ split => absurd split.symm (by simp)
    | snoc run meets _ ih =>
      refine each_snoc.mpr ⟨ih, fun state reached => ?_⟩
      cases Option.some.inj ((exec_of_run run).symm.trans reached)
      exact meets
  · intro meets
    induction actions using List.reverseRecOn generalizing final with
    | nil =>
      cases Option.some.inj performed
      exact .start
    | append_singleton earlier last ih =>
      rw [exec_append] at performed
      obtain ⟨state, reached, taken⟩ := Option.bind_eq_some_iff.mp performed
      obtain ⟨next, taken, same⟩ := Option.bind_eq_some_iff.mp taken
      cases Option.some.inj same
      obtain ⟨earlier, now⟩ := each_snoc.mp meets
      exact .snoc (ih reached earlier) (now state reached) taken

/-- Every operation of a list meets its condition in the state it finds. -/
def MeetsInTurn (perform : S → A → S) (q : S → A → Prop) : S → List A → Prop
  | _, [] => True
  | state, operation :: rest => q state operation ∧ MeetsInTurn perform q (perform state operation) rest

theorem MeetsInTurn.foldl (kept : ∀ state operation, p state → q state operation → p (perform state operation))
    {state : S} (meets : MeetsInTurn perform q state operations) (holds : p state) :
    p (operations.foldl perform state) := by
  induction operations generalizing state with
  | nil => exact holds
  | cons operation rest ih => exact ih meets.2 (kept state operation holds meets.1)

/-- What holds at the start and survives every operation that meets its condition
holds after every prefix of a sequence of such operations. -/
theorem always_of (initial : p start)
    (kept : ∀ state operation, p state → q state operation → p (perform state operation))
    (meets : ∀ before operation after, operations = before ++ operation :: after →
      q (before.foldl perform start) operation) (before after : List A) (split : operations = before ++ after) :
    p (before.foldl perform start) := by
  induction before using List.reverseRecOn generalizing after with
  | nil => exact initial
  | append_singleton before operation ih =>
    have now := ih (operation :: after) (by simp [split])
    rw [List.foldl_append]
    exact kept _ operation now (meets before operation after (by simp [split]))

/-- What every operation keeps exactly under its condition holds after every
prefix of a sequence exactly if every operation of it meets its condition. -/
theorem always_iff (initial : p start)
    (exactly : ∀ state operation, p state → (p (perform state operation) ↔ q state operation)) (operations : List A) :
    (∀ before after, operations = before ++ after → p (before.foldl perform start)) ↔
      ∀ before operation after, operations = before ++ operation :: after →
        q (before.foldl perform start) operation := by
  constructor
  · intro always before operation after split
    have now := always before (operation :: after) split
    have next := always (before ++ [operation]) after (by simp [split])
    rw [List.foldl_append] at next
    exact (exactly _ operation now).mp next
  · exact always_of initial fun state operation now => (exactly state operation now).mpr

end EkaCI.Lib
