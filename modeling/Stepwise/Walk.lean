/-
A walk through an evaluation: events are asked for one at a time, and nothing is
evaluated that was not asked for.  Between two events the environments stand still and
can be looked at.  A walk can be cancelled or closed at any point; the calls that are
running are then left, and the walk is over.
-/
import Stepwise.Evaluation.Machine
import Stepwise.Watching.Signal
import Stepwise.Watching.Tally
import Stepwise.Watching.Trace

namespace Stepwise

namespace Walk

inductive Phase where
  /-- Nothing has been evaluated yet. -/
  | waiting (m : Machine)
  /-- The event of the machine has been delivered. -/
  | parked (m : Machine)
  | over (outcome : Except (Stop Interrupt) Value)

end Walk

structure Walk where
  phase : Walk.Phase
  memory : Memory
  /-- Where the names of delivered events are recorded. -/
  context : Context
  journal : Journal
  tally : Tally := {}
  /-- Events delivered so far. -/
  steps : Nat := 0
  /-- Whether a cancellation has not yet been noticed by the one who walks. -/
  unsettled : Bool := false

namespace Walk

/-- A walk through a program in a fresh global environment.  If `signal` says to stop
already, it is over before it began. -/
def start (p : Program) (signal : Signal) (context : Context) (journal : Journal) : Walk :=
  { phase :=
      match signal.pending with
      | some why => .over (.error (.interrupted why))
      | none => .waiting (.init p Memory.globalEnv)
    memory := .fresh
    context
    journal }

/-- Delivers the event at which a machine is parked. -/
def deliver (w : Walk) (m : Machine) : Event × Walk :=
  let ev := m.event
  let steps := w.steps + 1
  (ev,
    { w with
      phase := .parked m
      memory := w.memory.note (.stepped steps ev.kind (w.memory.store.envText ev.env))
      journal := w.journal.record w.context ev.kind.name
      tally := w.tally.bump (Tally.stepKey ev.kind)
      steps })

/-- Goes on to the next event, if there is one. -/
def next (w : Walk) : Option Event × Walk :=
  match w.phase with
  | .over _ => (none, { w with unsettled := false })
  | .waiting m =>
    let (ev, w) := w.deliver m
    (some ev, w)
  | .parked m =>
    match m.resume w.memory with
    | (memory, .parked m) =>
      let (ev, w) := deliver { w with memory } m
      (some ev, w)
    | (memory, .ended outcome) =>
      (none, { w with memory, phase := .over outcome, unsettled := false })

/-- Stops the walk where it is. -/
def stop (w : Walk) (why : Interrupt) : Walk :=
  match w.phase with
  | .over _ => w
  | .waiting _ => { w with phase := .over (.error (.interrupted why)) }
  | .parked m =>
    { w with
      memory := Machine.unwind m.calls w.memory
      phase := .over (.error (.interrupted why)) }

/-- Abandons the walk. -/
def close (w : Walk) : Walk := { w.stop .canceled with unsettled := false }

/-- Cancels the walk from outside.  The evaluation unwinds by itself, so until the walk
is next used the environments may be changing. -/
def cancel (w : Walk) : Walk := { w.stop .canceled with unsettled := true }

/-- Goes on to the end, through at most `limit` events, and tells how it ended. -/
def result : (limit : Nat) → Walk → Option (Except (Stop Interrupt) Value) × Walk
  | 0, w => (none, w)
  | limit + 1, w =>
    match w.next with
    | (some _, w) => result limit w
    | (none, w) =>
      match w.phase with
      | .over outcome => (some outcome, w)
      | _ => (none, w)

end Walk
end Stepwise
