/-
The text of a program: one line for each statement of the top level.  A function
with statements of its own puts them in braces on the same line.  Nothing with a
hole in it has a text.
-/
import Stepwise.Program.Basic

namespace Stepwise

def Initializer.text? : Initializer → Option Text
  | literal lexeme => some lexeme
  | call callee argument => some (callee ++ "(" ++ argument ++ ")")
  | hole => none

def ReturnExpr.text? : ReturnExpr → Option Text
  | name x => some x
  | sum left right => some (left ++ " + " ++ right)
  | hole => none

namespace Statement

mutual

def text? : Statement → Option Text
  | define name value _ => do
    let value ← value.text?
    return name ++ " = " ++ value ++ ";"
  | function name parameter body ret _ => do
    let ret ← ret.text?
    let body ← texts? body
    let head := name ++ "(" ++ parameter ++ ") = "
    if body.isEmpty then return head ++ ret ++ ";"
    else return head ++ "\x7b " ++ Text.join " " body ++ " return " ++ ret ++ "; \x7d;"
  | hole => none

/-- The texts of the statements, in order. -/
def texts? : List Statement → Option (List Text)
  | [] => some []
  | s :: ss => do
    let t ← s.text?
    let ts ← texts? ss
    return t :: ts

end

end Statement

def FunctionDecl.text? (d : FunctionDecl) : Option Text := d.statement.text?

def Program.text? (p : Program) : Option Text := do
  let lines ← Statement.texts? p.statements
  return lines.flatMap fun line => line ++ [Text.newline]

end Stepwise
