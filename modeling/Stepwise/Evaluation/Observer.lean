/-
Observers.  An observer is shown each event before the work that it announces.  It may
remember what it saw, change environments, and stop the evaluation.
-/
import Stepwise.Evaluation.Memory

namespace Stepwise

/-- What an observer makes of an event. -/
structure Reaction (σ ε : Type) where
  store : Store
  seen : σ
  stop : Option ε := none

/-- An observer that remembers a `σ` and stops for reasons in `ε`. -/
abbrev Observer (σ ε : Type) := Event → Store → σ → Reaction σ ε

namespace Observer

variable {σ ε : Type}

/-- An observer that leaves the environments alone. -/
def Passive (obs : Observer σ ε) : Prop := ∀ ev s seen, (obs ev s seen).store = s

def silent : Observer Unit ε := fun _ s _ => { store := s, seen := () }

/-! ## Recording -/

/-- An event, with the store as it was when the event came. -/
structure Sighting where
  event : Event
  store : Store

namespace Sighting

def text (s : Sighting) : Text := s.event.text s.store

def depth (s : Sighting) : Nat := s.store.depth s.event.env

end Sighting

/-! ## Interfering -/

/-- What an interfering observer does to the environment of an event. -/
inductive Action where
  | pop
  | bind (name : Text) (v : Value)
  | push (name : Text) (v : Value)

/-- An action on an environment; one that needs a frame and finds none does nothing. -/
def Action.apply (s : Store) (e : EnvId) : Action → Store
  | pop => (s.pop e).getD s
  | bind name v => (s.bind e name v).getD s
  | push name v => s.push e name v

/-- An action to take at the event with this number, counted from 1. -/
structure Hook where
  number : Nat
  action : Action

/-- An observer that records every event, then takes the actions planned for it, and
stops the evaluation at event number `stopAt`; at 0 it never does. -/
def scripted (hooks : List Hook) (stopAt : Nat) (why : ε) : Observer (Array Sighting) ε :=
  fun ev s seen =>
    let seen := seen.push { event := ev, store := s }
    let planned := hooks.filter fun hook => hook.number = seen.size
    { store := planned.foldl (fun s hook => hook.action.apply s ev.env) s
      seen
      stop := if seen.size = stopAt then some why else none }

end Observer
end Stepwise
