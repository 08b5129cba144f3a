import Mathlib.Data.List.Basic

/-! Handlers of tasks, as trees of what they ask from outside and what they send to a
bounded queue. A handler waits at a task that it sends to a full queue; one that it
only offers is dropped there. -/

namespace EkaCI.Lib

/-- What a handler does next, given how its calls are answered. A call has the type of
its answer, and may fail. -/
inductive Handler (Call : Type → Type) (E Task A : Type) : Type 1 where
  | done (result : Except E A)
  | call {R : Type} (question : Call R) (next : Except E R → Handler Call E Task A)
  | send (task : Task) (next : Handler Call E Task A)
  | offer (task : Task) (next : Bool → Handler Call E Task A)

namespace Handler

variable {Call : Type → Type} {E Task A B : Type}

/-- A failure that is not handled ends the handler. -/
def bind : Handler Call E Task A → (A → Handler Call E Task B) → Handler Call E Task B
  | .done (.ok value), rest => rest value
  | .done (.error error), _ => .done (.error error)
  | .call question next, rest => .call question fun reply => (next reply).bind rest
  | .send task next, rest => .send task (next.bind rest)
  | .offer task next, rest => .offer task fun accepted => (next accepted).bind rest

instance : Monad (Handler Call E Task) where
  pure value := .done (.ok value)
  bind := bind

/-- The failure becomes a result. -/
def attempt : Handler Call E Task A → Handler Call E Task (Except E A)
  | .done result => .done (.ok result)
  | .call question next => .call question fun reply => (next reply).attempt
  | .send task next => .send task next.attempt
  | .offer task next => .offer task fun accepted => (next accepted).attempt

def ask {R : Type} (question : Call R) : Handler Call E Task R := .call question .done

def tell (task : Task) : Handler Call E Task Unit := .send task (pure ())

def tryTell (task : Task) : Handler Call E Task Bool := .offer task pure

/-- The pending call is answered. -/
def resume (world : (R : Type) → Call R → Except E R) : Handler Call E Task A → Handler Call E Task A
  | .call question next => next (world _ question)
  | handler => handler

/-- The handler sends up to its next call, or until the queue is full. -/
def deliver (capacity : Nat) : List Task → Handler Call E Task A → List Task × Handler Call E Task A
  | queue, .send task next =>
    if queue.length < capacity then deliver capacity (queue ++ [task]) next else (queue, .send task next)
  | queue, .offer task next =>
    if queue.length < capacity then deliver capacity (queue ++ [task]) (next true)
    else deliver capacity queue (next false)
  | queue, handler => (queue, handler)

/-- The handler runs to its end on a state that answers its calls, and every task that it
sends finds room. -/
def perform {S : Type} (answer : (R : Type) → Call R → S → Except E R × S) (push : S → Task → S) :
    Handler Call E Task A → S → S
  | .done _, state => state
  | .call question next, state =>
    perform answer push (next (answer _ question state).1) (answer _ question state).2
  | .send task next, state => perform answer push next (push state task)
  | .offer task next, state => perform answer push (next true) (push state task)

/-- The handler has a task to send. -/
def sends : Handler Call E Task A → Bool
  | .send _ _ => true
  | _ => false

/-- What the handler sends up to its next call finds room in a queue of the length. -/
def fits (capacity : Nat) : Nat → Handler Call E Task A → Bool
  | length, .send _ next => length < capacity && next.fits capacity (length + 1)
  | length, .offer _ next =>
    if length < capacity then (next true).fits capacity (length + 1) else (next false).fits capacity length
  | _, _ => true

section Perform

variable {S R : Type} {answer : (R : Type) → Call R → S → Except E R × S} {push : S → Task → S} {state : S}

theorem perform_ask {question : Call R} :
    (ask question : Handler Call E Task R).perform answer push state = (answer R question state).2 := rfl

theorem perform_ask_bind {question : Call R} {rest : R → Handler Call E Task A} :
    ((ask question : Handler Call E Task R) >>= rest).perform answer push state =
      match (answer R question state).1 with
      | .ok value => (rest value).perform answer push (answer R question state).2
      | .error _ => (answer R question state).2 := by
  change (Handler.bind (.done _) rest).perform answer push _ = _
  cases (answer R question state).1 <;> rfl

/-- What every call and every task keeps, the handler keeps. -/
theorem perform_keeps {p : S → Prop} {handler : Handler Call E Task A}
    (answered : ∀ R (question : Call R) state, p state → p (answer R question state).2)
    (pushed : ∀ state task, p state → p (push state task)) (initial : p state) : p (handler.perform answer push state) := by
  induction handler generalizing state with
  | done result => exact initial
  | call question next ih => exact ih _ (answered _ question state initial)
  | send task next ih => exact ih (pushed state task initial)
  | offer task next ih => exact ih true (pushed state task initial)

end Perform

variable {capacity : Nat} {queue : List Task} {handler : Handler Call E Task A}

/-- A handler stops at a task that it sends only if there was no room. -/
theorem sends_deliver : (deliver capacity queue handler).2.sends = !handler.fits capacity queue.length := by
  induction handler generalizing queue with
  | done result => rfl
  | call question next ih => rfl
  | send task next ih =>
    rw [deliver, fits]
    split
    · rename_i room
      rw [ih, List.length_append, List.length_singleton, decide_eq_true room, Bool.true_and]
    · rename_i full
      rw [decide_eq_false full]
      rfl
  | offer task next ih =>
    rw [deliver, fits]
    split
    · rw [ih, List.length_append, List.length_singleton]
    · rw [ih]

/-- A handler that has stopped at a task has left no room for it. -/
theorem deliver_full (stopped : (deliver capacity queue handler).2.sends = true) :
    capacity ≤ (deliver capacity queue handler).1.length := by
  induction handler generalizing queue with
  | done result => cases stopped
  | call question next ih => cases stopped
  | send task next ih =>
    rw [deliver] at stopped ⊢
    split at stopped
    · rename_i room
      rw [if_pos room]
      exact ih stopped
    · rename_i full
      rw [if_neg full]
      exact Nat.not_lt.mp full
  | offer task next ih =>
    rw [deliver] at stopped ⊢
    split at stopped
    · rename_i room
      rw [if_pos room]
      exact ih true stopped
    · rename_i full
      rw [if_neg full]
      exact ih false stopped

end Handler

/-- The one that takes tasks from a queue and handles them one after the other. -/
inductive Worker (Call : Type → Type) (E Task : Type) : Type 1 where
  | down
  | idle
  | running (handler : Handler Call E Task Unit)

namespace Worker

variable {Call : Type → Type} {E Task : Type}

/-- The handler is at a task that it sends. -/
def sends : Worker Call E Task → Bool
  | .running handler => handler.sends
  | _ => false

def isRunning : Worker Call E Task → Bool
  | .running _ => true
  | _ => false

/-- A handler runs up to its first call. -/
def enter (capacity : Nat) (queue : List Task) (handler : Handler Call E Task Unit) : List Task × Worker Call E Task :=
  ((handler.deliver capacity queue).1, .running (handler.deliver capacity queue).2)

/-- The handler ends, or goes on with the answer to its call; it cannot go on at a
task that finds no room. -/
def advance (capacity : Nat) (queue : List Task) (world : (R : Type) → Call R → Except E R) :
    Worker Call E Task → Option (List Task × Worker Call E Task)
  | .running (.done _) => some (queue, .idle)
  | .running handler =>
    if handler.sends ∧ capacity ≤ queue.length then none else some (enter capacity queue (handler.resume world))
  | _ => none

/-- There is room for what the handler sends when it goes on. -/
def fits (capacity length : Nat) (world : (R : Type) → Call R → Except E R) : Worker Call E Task → Bool
  | .running handler => (handler.resume world).fits capacity length
  | _ => true

variable {capacity : Nat} {queue : List Task} {world : (R : Type) → Call R → Except E R} {worker : Worker Call E Task}

theorem sends_enter {handler : Handler Call E Task Unit} :
    (enter capacity queue handler).2.sends = !handler.fits capacity queue.length :=
  Handler.sends_deliver

theorem advance_sends {next : List Task × Worker Call E Task} (taken : worker.advance capacity queue world = some next)
    (room : worker.fits capacity queue.length world = true) : next.2.sends = false := by
  unfold advance at taken
  split at taken
  · cases taken
    rfl
  · split at taken
    · cases taken
    · cases taken
      rw [sends_enter, Bool.not_eq_false']
      exact room
  · cases taken

theorem isSome_advance (running : worker.isRunning = true) (clear : worker.sends = false) :
    (worker.advance capacity queue world).isSome = true := by
  cases worker with
  | running handler =>
    cases handler with
    | send task next => cases clear
    | _ => rfl
  | _ => cases running

/-- At a task that finds no room the handler does not go on. -/
theorem advance_of_sends (waits : worker.sends = true) (full : capacity ≤ queue.length) :
    worker.advance capacity queue world = none := by
  cases worker with
  | running handler =>
    cases handler with
    | send task next => exact if_pos ⟨rfl, full⟩
    | _ => cases waits
  | _ => cases waits

end Worker

end EkaCI.Lib
