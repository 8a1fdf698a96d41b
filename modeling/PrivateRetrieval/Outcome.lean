/-
Outcomes of a step, and steps that carry a state and report events.

A step ends with a value, with an error it chose to return, or with a fault: a
place where nothing sensible is defined, such as a division by zero.  Faults are
kept apart from errors so that their absence can be stated.

* **`Outcome`** — value, error or fault;
* **`Action`** — a step on a state; errors and faults keep the state they left
  (`bind_of_ok`, `bind_of_error`, `bind_of_fault`);
* **`Reply`** — the answer of a party without a state of its own.
-/
import PrivateRetrieval.Event

namespace PrivateRetrieval

/-- Where a step has no defined continuation. -/
inductive Fault where
  | outOfBounds
  | divisionByZero
  /-- A table cut into groups of no element. -/
  | emptyGroups
  /-- A draw that was repeated without end. -/
  | endlessDraws
deriving DecidableEq

/-- How a step ends. -/
inductive Outcome (ε α : Type) where
  | ok (value : α)
  | error (cause : ε)
  | fault (cause : Fault)
deriving DecidableEq

variable {ε ε' σ τ α β : Type}

namespace Outcome

/-- A result as an outcome that is no fault. -/
def ofExcept : Except ε α → Outcome ε α
  | .ok value => ok value
  | .error cause => error cause

/-- Goes on after a value only; an error or a fault is how both end. -/
def bind : Outcome ε α → (α → Outcome ε β) → Outcome ε β
  | ok value, next => next value
  | error cause, _ => error cause
  | fault cause, _ => fault cause

instance : Monad (Outcome ε) where
  pure := ok
  bind := bind

/-- The same outcome with its error seen as another. -/
def mapError (f : ε → ε') : Outcome ε α → Outcome ε' α
  | ok value => ok value
  | error cause => error (f cause)
  | fault cause => fault cause

end Outcome

/-- What an action comes to: how it ends, the state it leaves and what it has reported, in
order. -/
structure Step (ε σ α : Type) where
  outcome : Outcome ε α
  state : σ
  events : List Event

/-- A step on a state, which may report events. -/
def Action (ε σ α : Type) : Type := σ → Step ε σ α

namespace Action

/-- What an action comes to on a state. -/
def run (action : Action ε σ α) (state : σ) : Step ε σ α := action state

/-- Ends with a value, changes nothing and reports nothing. -/
def pure (value : α) : Action ε σ α := fun state => ⟨.ok value, state, []⟩

/-- Goes on after a value only; otherwise the state stays as the first action
left it. -/
def bind (action : Action ε σ α) (next : α → Action ε σ β) : Action ε σ β := fun state =>
  let first := action state
  match first.outcome with
  | .ok value =>
    let second := next value first.state
    ⟨second.outcome, second.state, first.events ++ second.events⟩
  | .error cause => ⟨.error cause, first.state, first.events⟩
  | .fault cause => ⟨.fault cause, first.state, first.events⟩

instance : Monad (Action ε σ) where
  pure := pure
  bind := bind

theorem bind_of_ok {action : Action ε σ α} {next : α → Action ε σ β} {state : σ} {value : α}
    (h : (action state).outcome = .ok value) :
    (action >>= next) state
      = ⟨(next value (action state).state).outcome, (next value (action state).state).state,
          (action state).events ++ (next value (action state).state).events⟩ := by
  show bind action next state = _
  simp only [bind, h]

theorem bind_of_error {action : Action ε σ α} {next : α → Action ε σ β} {state : σ} {cause : ε}
    (h : (action state).outcome = .error cause) :
    (action >>= next) state = ⟨.error cause, (action state).state, (action state).events⟩ := by
  show bind action next state = _
  simp only [bind, h]

theorem bind_of_fault {action : Action ε σ α} {next : α → Action ε σ β} {state : σ}
    {cause : Fault} (h : (action state).outcome = .fault cause) :
    (action >>= next) state = ⟨.fault cause, (action state).state, (action state).events⟩ := by
  show bind action next state = _
  simp only [bind, h]

/-- Ends with the given outcome and changes nothing. -/
def done (outcome : Outcome ε α) : Action ε σ α := fun state => ⟨outcome, state, []⟩

/-- Ends with an outcome that is read off the state. -/
def read (f : σ → Outcome ε α) : Action ε σ α := fun state => ⟨f state, state, []⟩

/-- Changes the state. -/
def update (f : σ → σ) : Action ε σ Unit := fun state => ⟨.ok (), f state, []⟩

/-- Reports one event. -/
def report (event : Event) : Action ε σ Unit := fun state => ⟨.ok (), state, [event]⟩

/-- The outcome as a value, unless it is a fault. -/
def attempt (action : Action ε σ α) : Action ε σ (Except ε α) := fun state =>
  let step := action state
  match step.outcome with
  | .ok value => ⟨.ok (.ok value), step.state, step.events⟩
  | .error cause => ⟨.ok (.error cause), step.state, step.events⟩
  | .fault cause => ⟨.fault cause, step.state, step.events⟩

/-- Runs an action on a part of a larger state. -/
def onPart (get : τ → σ) (put : σ → τ → τ) (wrap : ε → ε') (action : Action ε σ α) :
    Action ε' τ α := fun state =>
  let step := action (get state)
  ⟨step.outcome.mapError wrap, put step.state state, step.events⟩

end Action

/-- The answer of a party that keeps no state, with what it reported. -/
structure Reply (α : Type) where
  result : Except Error α
  events : List Event

namespace Reply

/-- A result with nothing to report. -/
def ofExcept (result : Except Error α) : Reply α := ⟨result, []⟩

/-- Goes on after a value only. What was reported before it stays in front. -/
def bind (reply : Reply α) (next : α → Reply β) : Reply β :=
  match reply.result with
  | .ok value => ⟨(next value).result, reply.events ++ (next value).events⟩
  | .error cause => ⟨.error cause, reply.events⟩

instance : Monad Reply where
  pure value := ofExcept (.ok value)
  bind := bind

/-- The answer as a step of whoever asked. -/
def toAction (reply : Reply α) : Action Error σ α := fun state =>
  ⟨.ofExcept reply.result, state, reply.events⟩

end Reply

end PrivateRetrieval
