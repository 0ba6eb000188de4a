/-
Executing a program as a whole: it is evaluated in a fresh global environment, its
events are recorded in the trace of a context, and a signal may stop it at any event.
-/
import Stepwise.Evaluation.Direct
import Stepwise.Watching.Signal
import Stepwise.Watching.Tally
import Stepwise.Watching.Trace
import Stepwise.Wire.Decode

namespace Stepwise
namespace Execution

/-- Why an execution gives no value. -/
inductive Failure where
  | undecodable (e : Wire.DecodeError)
  | stopped (why : Stop Interrupt)

def Failure.message : Failure → Text
  | undecodable e => "could not decode source file: " ++ e.message
  | stopped why => "failed to evaluate source file: " ++ why.message Interrupt.message

/-- What the observer of an execution keeps. -/
structure Watch where
  signal : Signal
  journal : Journal

/-- Records each event, and then asks whether to go on. -/
def watch (context : Context) : Observer Watch Interrupt := fun ev s w =>
  let (stop, signal) := w.signal.poll
  { store := s
    seen := { signal, journal := w.journal.record context ev.kind.name }
    stop }

/-- What is timed under this name. -/
def timerName : Text := "engine.exec"

end Execution

/-- An execution that is over. -/
structure Execution where
  outcome : Except Execution.Failure Value
  log : Array LogEntry
  journal : Journal
  tally : Tally

open Execution in
/-- Executes a program, in which at most `limit` calls run inside one another. -/
def Program.execute (p : Program) (limit : Nat) (signal : Signal) (context : Context)
    (journal : Journal) : Execution :=
  let (outcome, run) := p.evaluate (watch context) limit .fresh { signal, journal }
  let tally := Tally.bump {} (Tally.durationKey timerName)
  match outcome with
  | .ok v =>
    { outcome := .ok v, log := run.memory.log, journal := run.seen.journal, tally }
  | .error why =>
    { outcome := .error (.stopped why)
      log := run.memory.log.push (.failed (why.message Interrupt.message))
      journal := run.seen.journal
      tally }

/-- Executes the program that a text holds. -/
def executeText (t : Text) (limit : Nat) (signal : Signal) (context : Context)
    (journal : Journal) : Execution :=
  match Program.decode t with
  | .ok p => p.execute limit signal context journal
  | .error e => { outcome := .error (.undecodable e), log := #[], journal, tally := {} }

end Stepwise
