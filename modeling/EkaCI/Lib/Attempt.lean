import Mathlib.Data.List.Basic

/-! Programs that work on a state and may fail on the way: what they have done by then
stays done. Rules for what holds when they end, either way, and for recursive programs
that are cut off by a bound on their depth. -/

namespace EkaCI.Lib

variable {E S A B : Type}

/-- What holds when a program ends: the first condition if it returns, the second if it fails. -/
def Meets (good : A → S → Prop) (bad : E → S → Prop) : EStateM.Result E S A → Prop
  | .ok value state => good value state
  | .error error state => bad error state

/-- The second result is the first one, unless the first is a stop for a reason that
does not count. -/
def Extends (stop : E → Prop) (first second : EStateM.Result E S A) : Prop :=
  second = first ∨ ∃ error state, first = .error error state ∧ stop error

def finalState : EStateM.Result E S A → S
  | .ok _ state => state
  | .error _ state => state

/-- Why a program has failed, if it has. -/
def raised : EStateM.Result E S A → Option E
  | .ok _ _ => none
  | .error error _ => some error

variable {good : A → S → Prop} {bad worse : E → S → Prop} {stop : E → Prop} {state : S}

theorem run_bind (program : EStateM E S A) (rest : A → EStateM E S B) (state : S) :
    (program >>= rest) state = match program state with
      | .ok value next => rest value next
      | .error error next => .error error next := rfl

namespace Meets

theorem imp {better : A → S → Prop} {result : EStateM.Result E S A} (meets : Meets good bad result)
    (returns : ∀ value state, good value state → better value state)
    (fails : ∀ error state, bad error state → worse error state) : Meets better worse result := by
  cases result with
  | ok value state => exact returns value state meets
  | error error state => exact fails error state meets

theorem bind {program : EStateM E S A} {rest : A → EStateM E S B} {better : B → S → Prop}
    (meets : Meets good bad (program state))
    (follows : ∀ value next, good value next → Meets better bad (rest value next)) :
    Meets better bad ((program >>= rest) state) := by
  rw [run_bind]
  cases ended : program state with
  | ok value next =>
    rw [ended] at meets
    exact follows value next meets
  | error error next =>
    rw [ended] at meets
    exact meets

theorem get_bind {rest : S → EStateM E S A} (meets : Meets good bad (rest state state)) :
    Meets good bad ((get >>= rest) state) :=
  meets

/-- A loop keeps what each of its rounds keeps, given the items that are done. -/
theorem forM {perform : A → EStateM E S Unit} {inv : List A → S → Prop} (list : List A) (start : inv [] state)
    (round : ∀ done item rest, list = done ++ item :: rest → ∀ state, inv done state →
      Meets (fun _ next => inv (done ++ [item]) next) bad (perform item state)) :
    Meets (fun _ next => inv list next) bad (list.forM perform state) := by
  have loop : ∀ rest done, list = done ++ rest → ∀ state, inv done state →
      Meets (fun _ next => inv list next) bad (rest.forM perform state) := by
    intro rest
    induction rest with
    | nil =>
      intro done split state held
      rw [List.append_nil] at split
      exact split ▸ held
    | cons item rest ih =>
      intro done split state held
      apply Meets.bind (round done item rest split state held)
      intro _ next kept
      apply ih (done ++ [item]) _ next kept
      rw [split, List.append_assoc, List.singleton_append]
  exact loop list [] rfl state start

end Meets

namespace Extends

theorem refl (stop : E → Prop) (result : EStateM.Result E S A) : Extends stop result result := .inl rfl

theorem bind {first second : EStateM E S A} {rest further : A → EStateM E S B}
    (program : Extends stop (first state) (second state))
    (follows : ∀ value next, Extends stop (rest value next) (further value next)) :
    Extends stop ((first >>= rest) state) ((second >>= further) state) := by
  rw [run_bind, run_bind]
  rcases program with same | ⟨error, next, ended, stopped⟩
  · rw [same]
    cases first state with
    | ok value next => exact follows value next
    | error error next => exact .refl stop _
  · rw [ended]
    exact .inr ⟨error, next, rfl, stopped⟩

theorem forM {first second : A → EStateM E S Unit} (each : ∀ item state, Extends stop (first item state) (second item state))
    (list : List A) (state : S) : Extends stop (list.forM first state) (list.forM second state) := by
  induction list generalizing state with
  | nil => exact .refl stop _
  | cons item rest ih => exact bind (each item state) fun _ next => ih next

end Extends

end EkaCI.Lib
