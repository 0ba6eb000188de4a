/-
What names are bound to: numbers, functions, or nothing at all.  Evaluation itself
only makes numbers and functions; an observer may also bind a name to no value.
-/
import Stepwise.Number.Shortest
import Stepwise.Program.Basic

namespace Stepwise

/-- The name of an environment in a store. -/
abbrev EnvId := Nat

/-- Where the body of a function runs.  A function made by a declaration captures an
environment of its own, which no other function has, so this also tells functions
apart.  A detached function has no environment and only a tag. -/
inductive Capture where
  | env (id : EnvId)
  | detached (tag : Nat)
deriving DecidableEq

structure Closure where
  decl : FunctionDecl
  capture : Capture

inductive Value where
  | number (x : Float)
  | function (f : Closure)
  | absent

namespace Closure

/-- A function is shown by its name and its parameter. -/
def text (f : Closure) : Text :=
  "Function(" ++ f.decl.name ++ "(" ++ f.decl.parameter ++ "))"

/-- A function that returns its parameter but has no environment to run in. -/
def detached (name parameter : Text) (tag : Nat) : Closure :=
  { decl := { name, parameter, body := [], ret := .name parameter, pos := 0 }
    capture := .detached tag }

end Closure

namespace Value

def text : Value → Text
  | number x => "Number(" ++ numberText x ++ ")"
  | function f => f.text
  | absent => "%!s(<nil>)"

/-- Numbers are equal as numbers, so zero equals negative zero and NaN equals nothing.
Functions are equal if they are one function.  No value equals nothing. -/
def equals : Value → Value → Bool
  | number x, number y => x == y
  | function f, function g => f.capture == g.capture
  | _, _ => false

/-- Why two values have no sum. -/
inductive SumError where
  | left (f : Closure)
  | right (f : Closure)
  | noNumber

def SumError.message : SumError → Text
  | left f => "'+' only supported between numbers, left operand is " ++ f.text
  | right f => "'+' only supported between numbers, right operand is " ++ f.text
  | noNumber => "'+' only supported between numbers"

/-- A function on the right is named only if the left operand is a number. -/
def add : Value → Value → Except SumError Value
  | number x, number y => .ok (number (x + y))
  | number _, function g => .error (.right g)
  | function f, _ => .error (.left f)
  | _, _ => .error .noNumber

end Value
end Stepwise
