/-
Counters by name.
-/
import Stepwise.Event

namespace Stepwise

/-- How often each thing has happened; what never happened is not listed. -/
structure Tally where
  counts : List (Text × Nat) := []

namespace Tally

def bumpIn (key : Text) : List (Text × Nat) → List (Text × Nat)
  | [] => [(key, 1)]
  | (k, n) :: rest => if k = key then (k, n + 1) :: rest else (k, n) :: bumpIn key rest

def bump (t : Tally) (key : Text) : Tally := { counts := bumpIn key t.counts }

def count (t : Tally) (key : Text) : Nat := (t.counts.lookup key).getD 0

/-- Counts the events of a kind that were delivered one at a time. -/
def stepKey (kind : EventKind) : Text := "eval_steps_total " ++ kind.name

/-- Counts the timed runs of something. -/
def durationKey (name : Text) : Text := "fn_duration_seconds " ++ name

end Tally
end Stepwise
