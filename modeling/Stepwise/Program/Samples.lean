/-
Small programs with the numbers they evaluate to.
-/
import Stepwise.Program.Basic

namespace Stepwise

/-- A named program and the number it is expected to give. -/
structure Sample where
  name : Text
  expected : Float
  program : Program

namespace Sample

def literal (name lexeme : String) : Statement :=
  .define name (.literal lexeme) 0

def call (name callee argument : String) : Statement :=
  .define name (.call callee argument) 0

def function (name parameter : String) (body : List Statement) (ret : ReturnExpr) : Statement :=
  .function name parameter body ret 0

/-- The statements as a whole program at position 0. -/
def file (statements : List Statement) : Program := .numbered statements 0

def literals : Sample where
  name := "literals"
  expected := 3
  program := file [literal "a" "1", literal "b" "2", literal "c" "3"]

def callWithAddition : Sample where
  name := "call_with_addition"
  expected := 5
  program := file
    [literal "a" "2", literal "b" "3", function "f" "x" [] (.sum "x" "a"), call "c" "f" "b"]

def scenarioA : Sample where
  name := "scenario_a"
  expected := 7
  program := file
    [literal "a" "3", literal "b" "4", function "f" "x" [] (.sum "x" "a"), call "c" "f" "b"]

def identity : Sample where
  name := "identity"
  expected := 5
  program := file [function "f" "x" [] (.name "x"), literal "a" "5", call "b" "f" "a"]

def bodyStatements : Sample where
  name := "body_statements"
  expected := 10.5
  program := file
    [literal "a" "10", function "g" "y" [literal "k" "0.5"] (.sum "y" "k"), call "r" "g" "a"]

def nestedCall : Sample where
  name := "nested_call"
  expected := 42
  program := file
    [literal "one" "1",
      function "inc" "n" [] (.sum "n" "one"),
      function "twice" "m" [call "p" "inc" "m"] (.sum "p" "one"),
      literal "v" "40",
      call "w" "twice" "v"]

def all : Array Sample :=
  #[literals, callWithAddition, scenarioA, identity, bodyStatements, nestedCall]

end Sample
end Stepwise
