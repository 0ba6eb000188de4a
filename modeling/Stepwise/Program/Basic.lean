/-
Programs of the language.  A statement names a value, given by a numeral or by a
call of a function on a named argument, or it declares a function of one parameter
with statements of its own and a returned name or sum.

A program under construction may lack a node.  Such a place is a `hole`: it can be
held and evaluated up to, but neither printed nor passed.
-/
import Stepwise.Text.Basic

namespace Stepwise

/-- Where a declaration stands in its source: a 64-bit signed number. -/
abbrev Position := Int64

/-- What a name is defined to be. -/
inductive Initializer where
  | literal (lexeme : Text)
  | call (callee argument : Text)
  | hole
deriving DecidableEq

/-- What a function returns. -/
inductive ReturnExpr where
  | name (name : Text)
  | sum (left right : Text)
  | hole
deriving DecidableEq

inductive Statement where
  | define (name : Text) (value : Initializer) (pos : Position)
  | function (name parameter : Text) (body : List Statement) (ret : ReturnExpr) (pos : Position)
  | hole

instance : Inhabited Statement := ⟨.hole⟩

/-- The declaration that a function value keeps. -/
structure FunctionDecl where
  name : Text
  parameter : Text
  body : List Statement
  ret : ReturnExpr
  pos : Position

/-- The statement that makes a declaration. -/
def FunctionDecl.statement (d : FunctionDecl) : Statement :=
  .function d.name d.parameter d.body d.ret d.pos

structure Program where
  statements : List Statement
  pos : Position := 0

namespace Statement

/-- The statement moved to another position. -/
def moveTo (s : Statement) (pos : Position) : Statement :=
  match s with
  | define name value _ => define name value pos
  | function name parameter body ret _ => function name parameter body ret pos
  | hole => hole

end Statement

namespace Program

/-- A program whose statements stand at 0, 1, 2 and so on.  Statements inside
functions keep their positions. -/
def numbered (statements : List Statement) (pos : Position) : Program :=
  { statements := statements.mapIdx fun i s => s.moveTo (Int64.ofNat i), pos }

end Program

/-! ## Complete programs -/

namespace Initializer

def isComplete : Initializer → Bool
  | hole => false
  | _ => true

end Initializer

namespace ReturnExpr

def isComplete : ReturnExpr → Bool
  | hole => false
  | _ => true

end ReturnExpr

namespace Statement

mutual

/-- No hole at any depth. -/
def isComplete : Statement → Bool
  | define _ value _ => value.isComplete
  | function _ _ body ret _ => areComplete body && ret.isComplete
  | hole => false

def areComplete : List Statement → Bool
  | [] => true
  | s :: ss => s.isComplete && areComplete ss

end

end Statement

def Program.isComplete (p : Program) : Bool := Statement.areComplete p.statements

end Stepwise
