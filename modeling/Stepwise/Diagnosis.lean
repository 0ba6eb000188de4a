/-
Diagnoses: what a program did wrong, which names it concerns, and where.
-/
import Stepwise.Number.Numeral
import Stepwise.Value

namespace Stepwise
namespace Diagnosis

inductive Kind where
  | unboundFunction
  | unboundArgument
  | unboundReturnValue
  | unboundOperand
  | typeMismatch
  | invalidLiteral
  | emptySourceFile
deriving DecidableEq

def Kind.text : Kind → Text
  | unboundFunction => "unbound function"
  | unboundArgument => "unbound argument"
  | unboundReturnValue => "unbound return value"
  | unboundOperand => "unbound operand"
  | typeMismatch => "type mismatch"
  | invalidLiteral => "invalid literal"
  | emptySourceFile => "empty source file"

/-- What a part of the evaluation had to say about the failure. -/
inductive Cause where
  | numeral (e : Numeral.Error)
  | sum (e : Value.SumError)

def Cause.message : Cause → Text
  | numeral e => e.message
  | sum e => e.message

/-- `headline: 'name', 'name' at position: cause`, each part only if there. -/
def report (headline : Text) (names : List Text) (pos : Option Position)
    (cause : Option Text) : Text :=
  let quotedNames : Text :=
    if names.isEmpty then []
    else ": " ++ Text.join ", " (names.map fun name => "'" ++ name ++ "'")
  let place : Text :=
    match pos with
    | some p => " at " ++ Text.ofInt p.toInt
    | none => []
  let reason : Text :=
    match cause with
    | some c => ": " ++ c
    | none => []
  headline ++ quotedNames ++ place ++ reason

end Diagnosis

structure Diagnosis where
  kind : Diagnosis.Kind
  names : List Text
  pos : Option Position
  cause : Option Diagnosis.Cause := none

def Diagnosis.message (d : Diagnosis) : Text :=
  report d.kind.text d.names d.pos (d.cause.map Cause.message)

end Stepwise
