/-
What an evaluation works on, and the steps of it that touch nothing else: reading a
numeral, resolving a call, binding, declaring a function, entering and leaving a call,
and finding the value that a function returns.
-/
import Stepwise.Diagnosis
import Stepwise.Log

namespace Stepwise

/-- A place where a program lacks a node. -/
inductive Hole where
  | statement
  | initializer
  | returnExpr
deriving DecidableEq

/-- Why an evaluation ends without a value.  An observer stops it for reasons of a type
of its own. -/
inductive Stop (ε : Type) where
  /-- The program is at fault. -/
  | diagnosed (d : Diagnosis)
  /-- A name was to be bound where there is no frame. -/
  | unbindable (name : Text)
  /-- The observer said so. -/
  | interrupted (why : ε)
  /-- A node of the program is missing. -/
  | missing (hole : Hole)
  /-- A function was called that has no environment to run in. -/
  | uncaptured
  /-- More calls were running than the evaluation was allowed. -/
  | tooDeep

namespace Stop

variable {ε : Type}

def message (reason : ε → Text) : Stop ε → Text
  | diagnosed d => d.message
  | unbindable name => "could not bind '" ++ name ++ "': " ++ Store.noFrameMessage
  | interrupted why => reason why
  | missing .statement => "unexpected statement: <nil>"
  | missing .initializer => "unexpected initializer: <nil>"
  | missing .returnExpr => "unexpected return expression: <nil>"
  | uncaptured => "function has no environment"
  | tooDeep => "call depth limit reached"

end Stop

/-- The environments, and the log of what was done to them. -/
structure Memory where
  store : Store := {}
  log : Array LogEntry := #[]

namespace Memory

def note (m : Memory) (entry : LogEntry) : Memory := { m with log := m.log.push entry }

/-- A memory with one environment, the global one. -/
def fresh : Memory := { store := (Store.newEnv {}).2 }

/-- The global environment of a fresh memory. -/
def globalEnv : EnvId := 0

def bind (m : Memory) (e : EnvId) (name : Text) (v : Value) : Option Memory :=
  (m.store.bind e name v).map fun store => { m with store }

/-- Binds the name of a function and then captures the environment, so that the body
sees the name too.  The captured environment is a new one. -/
def declare (m : Memory) (e : EnvId) (decl : FunctionDecl) : Option (Value × Memory) :=
  let f := Value.function { decl, capture := .env m.store.chains.size }
  (m.store.bind e decl.name f).map fun store => (f, { m with store := (store.snapshot e).2 })

/-- Enters a call of `f` in its environment `e`. -/
def beginCall (m : Memory) (f : Closure) (e : EnvId) (argument : Text) (v : Value) : Memory :=
  let store := m.store.push e f.decl.parameter v
  Memory.note { m with store } (.calling f.decl.name argument (store.depth e))

/-- Leaves a call of the function `name` in the environment `e`.  If no frame is left
there, someone else has popped it. -/
def endCall (m : Memory) (name : Text) (e : EnvId) : Memory :=
  match m.store.pop e with
  | some store => { m with store }
  | none => m.note (.unbalanced name)

end Memory

/-! ## Leaves -/

/-- The number that a literal denotes. -/
def literalValue (name : Text) (pos : Position) (lexeme : Text) : Except Diagnosis Value :=
  match Numeral.read lexeme with
  | .ok x => .ok (.number x)
  | .error e =>
    .error { kind := .invalidLiteral, names := [name], pos, cause := some (.numeral e) }

/-- The function and the argument of a call. -/
def resolveCall (s : Store) (e : EnvId) (callee argument : Text) (pos : Position) :
    Except Diagnosis (Closure × Value) :=
  match s.lookup e callee with
  | some (.function f) =>
    match s.lookup e argument with
    | some v => .ok (f, v)
    | none => .error { kind := .unboundArgument, names := [argument], pos }
  | _ => .error { kind := .unboundFunction, names := [callee], pos }

/-- The sum of two named values.  Operands that are missing are named together. -/
def sumOf (s : Store) (e : EnvId) (left right : Text) (pos : Position) : Except Diagnosis Value :=
  match s.lookup e left, s.lookup e right with
  | some x, some y =>
    match x.add y with
    | .ok v => .ok v
    | .error why =>
      .error { kind := .typeMismatch, names := [left, right], pos, cause := some (.sum why) }
  | some _, none => .error { kind := .unboundOperand, names := [right], pos }
  | none, some _ => .error { kind := .unboundOperand, names := [left], pos }
  | none, none => .error { kind := .unboundOperand, names := [left, right], pos }

/-- The value that a function returns, found in the environment of its body. -/
def returnValue {ε : Type} (s : Store) (e : EnvId) (decl : FunctionDecl) :
    Except (Stop ε) Value :=
  match decl.ret with
  | .name x =>
    match s.lookup e x with
    | some v => .ok v
    | none => .error (.diagnosed { kind := .unboundReturnValue, names := [x], pos := decl.pos })
  | .sum left right => (sumOf s e left right decl.pos).mapError .diagnosed
  | .hole => .error (.missing .returnExpr)

/-- A program needs a statement to have a value. -/
def emptyProgram (pos : Position) : Diagnosis := { kind := .emptySourceFile, names := [], pos }

end Stepwise
