/-
Traces.  A context may begin a trace; names recorded through it, and through contexts
derived from it, go into that trace unless one of them begins another.  All traces are
kept in a journal, whose clock stamps each name with the time since its trace began.
-/
import Stepwise.Text.Basic

namespace Stepwise

/-- The name of a trace in a journal. -/
abbrev TraceId := Nat

/-- A context remembers the contexts it was derived from. -/
inductive Context where
  | background
  | tracing (trace : TraceId) (parent : Context)
  | derived (parent : Context)

/-- The trace begun by the nearest context on the way to the background. -/
def Context.trace? : Context → Option TraceId
  | background => none
  | tracing trace _ => some trace
  | derived parent => parent.trace?

structure TraceEntry where
  name : Text
  /-- In nanoseconds. -/
  elapsed : Nat
deriving DecidableEq

structure Trace where
  start : Nat
  entries : Array TraceEntry := #[]
deriving DecidableEq

/-- All traces, and the time. -/
structure Journal where
  traces : Array Trace := #[]
  clock : Nat := 0

namespace Journal

/-- Time passes. -/
def advance (j : Journal) (nanoseconds : Nat) : Journal :=
  { j with clock := j.clock + nanoseconds }

/-- A context that begins a trace of its own. -/
def beginTrace (j : Journal) (parent : Context) : Context × Journal :=
  (.tracing j.traces.size parent, { j with traces := j.traces.push { start := j.clock } })

/-- Records a name in the trace of a context, if it has one. -/
def record (j : Journal) (c : Context) (name : Text) : Journal :=
  match c.trace? with
  | none => j
  | some i =>
    { j with
      traces := j.traces.modify i fun t =>
        { t with entries := t.entries.push { name, elapsed := j.clock - t.start } } }

/-- The trace of a context. -/
def trace? (j : Journal) (c : Context) : Option Trace := do
  j.traces[← c.trace?]?

/-- The names in the trace of a context, in order. -/
def names? (j : Journal) (c : Context) : Option (List Text) :=
  (j.trace? c).map fun t => t.entries.toList.map TraceEntry.name

/-! ## Reports -/

/-- How a report shows a time: in microseconds, padded. -/
def microseconds (elapsed : Nat) : Text := Text.padded 5 (elapsed / 1000) ++ "µs"

/-- The entries in the order of time; entries of one time keep their order. -/
def inOrder (entries : List TraceEntry) : List TraceEntry :=
  entries.mergeSort fun a b => a.elapsed ≤ b.elapsed

def entryLine (stamp : Nat → Text) (e : TraceEntry) : Text :=
  "\t" ++ stamp e.elapsed ++ ": " ++ e.name ++ "\n"

/-- A heading and one line for each entry. -/
def reportText (stamp : Nat → Text) (entries : List TraceEntry) : Text :=
  Text.ofString "====Trace====\n" ++ entries.flatMap (entryLine stamp)

/-- The report on the trace of a context, if it has one.  The trace is left in order. -/
def report (j : Journal) (stamp : Nat → Text) (c : Context) : Option Text × Journal :=
  match c.trace? with
  | none => (none, j)
  | some i =>
    let j := { j with
      traces := j.traces.modify i fun t => { t with entries := (inOrder t.entries.toList).toArray } }
    ((j.trace? c).map fun t => reportText stamp t.entries.toList, j)

end Journal
end Stepwise
