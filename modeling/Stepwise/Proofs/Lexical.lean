/-
Evaluation with functions as closures, for comparison.

Here a function is its declaration together with the frames that could be seen where it was
declared, and nothing about it ever changes.  A call makes a frame for the parameter and
evaluates the body in an environment made for this one call, of that frame and the captured
ones.  Environments are values: none is stored, and none is pushed or popped.  Only frames
are stored.

The evaluation has no observer.  It keeps a list of the events that it passes.
-/
import Stepwise.Evaluation.Direct

namespace Stepwise
namespace Lexical

structure Closure where
  /-- Tells functions apart: they are numbered from 1 in the order in which they are made. -/
  id : Nat
  decl : FunctionDecl
  /-- The frames that could be seen at the declaration, innermost first. -/
  captured : List FrameId

inductive Value where
  | number (x : Float)
  | function (f : Closure)

/-- Only numbers have a sum. -/
def Value.sum? : Value → Value → Option Value
  | number x, number y => some (number (x + y))
  | _, _ => none

/-- The frame that names are bound in, and the frames around it, innermost first. -/
structure Env where
  own : FrameId
  outer : List FrameId

def Env.chain (env : Env) : List FrameId := env.own :: env.outer

/-- Why an evaluation ends without a value. -/
inductive Failure where
  | diagnosed (kind : Diagnosis.Kind) (names : List Text) (pos : Option Position)
  | missing (hole : Hole)
  | tooDeep

/-- The frames, each with its bindings, newest first; how many functions have been made; and
the events so far. -/
structure State where
  frames : Array (List (Text × Value)) := #[[]]
  made : Nat := 0
  events : List (EventKind × Option Position) := []

namespace State

def frame (s : State) (i : FrameId) : List (Text × Value) := s.frames[i]?.getD []

def lookup (s : State) (env : Env) (name : Text) : Option Value :=
  env.chain.findSome? fun i => (s.frame i).lookup name

def bind (s : State) (env : Env) (name : Text) (v : Value) : State :=
  { s with frames := s.frames.setIfInBounds env.own ((name, v) :: s.frame env.own) }

def push (s : State) (name : Text) (v : Value) : State :=
  { s with frames := s.frames.push [(name, v)] }

theorem frame_of_le {s : State} {i : FrameId} (h : s.frames.size ≤ i) : s.frame i = [] := by
  rw [frame, Array.getElem?_eq_none h]
  rfl

theorem frame_bind_self {s : State} {env : Env} (h : env.own < s.frames.size) (name : Text)
    (v : Value) : (s.bind env name v).frame env.own = (name, v) :: s.frame env.own := by
  simp [frame, bind, h]

theorem frame_bind_of_ne {s : State} {env : Env} {i : FrameId} (h : i ≠ env.own) (name : Text)
    (v : Value) : (s.bind env name v).frame i = s.frame i := by
  simp [frame, bind, Ne.symm h]

theorem frame_push_self (s : State) (name : Text) (v : Value) :
    (s.push name v).frame s.frames.size = [(name, v)] := by
  simp [frame, push]

theorem frame_push_of_ne {s : State} {i : FrameId} (h : i ≠ s.frames.size) (name : Text)
    (v : Value) : (s.push name v).frame i = s.frame i := by
  simp [frame, push, Array.getElem?_push, h]

theorem size_frames_bind (s : State) (env : Env) (name : Text) (v : Value) :
    (s.bind env name v).frames.size = s.frames.size :=
  Array.size_setIfInBounds

theorem size_frames_push (s : State) (name : Text) (v : Value) :
    (s.push name v).frames.size = s.frames.size + 1 :=
  Array.size_push _

end State

/-! ## Leaves -/

def literalValue (name : Text) (pos : Position) (lexeme : Text) : Except Failure Value :=
  match Numeral.read lexeme with
  | .ok x => .ok (.number x)
  | .error _ => .error (.diagnosed .invalidLiteral [name] pos)

def resolveCall (s : State) (env : Env) (callee argument : Text) (pos : Position) :
    Except Failure (Closure × Value) :=
  match s.lookup env callee with
  | some (.function f) =>
    match s.lookup env argument with
    | some v => .ok (f, v)
    | none => .error (.diagnosed .unboundArgument [argument] pos)
  | _ => .error (.diagnosed .unboundFunction [callee] pos)

def sumOf (s : State) (env : Env) (left right : Text) (pos : Position) : Except Failure Value :=
  match s.lookup env left, s.lookup env right with
  | some x, some y =>
    match x.sum? y with
    | some v => .ok v
    | none => .error (.diagnosed .typeMismatch [left, right] pos)
  | some _, none => .error (.diagnosed .unboundOperand [right] pos)
  | none, some _ => .error (.diagnosed .unboundOperand [left] pos)
  | none, none => .error (.diagnosed .unboundOperand [left, right] pos)

def returnValue (s : State) (env : Env) (decl : FunctionDecl) : Except Failure Value :=
  match decl.ret with
  | .name x =>
    match s.lookup env x with
    | some v => .ok v
    | none => .error (.diagnosed .unboundReturnValue [x] decl.pos)
  | .sum left right => sumOf s env left right decl.pos
  | .hole => .error (.missing .returnExpr)

/-! ## The evaluator -/

abbrev Eval (α : Type) := ExceptT Failure (StateM State) α

variable {α : Type}

def announce (kind : EventKind) (pos : Option Position) : Eval Unit :=
  fun s => (.ok (), { s with events := s.events ++ [(kind, pos)] })

def answer (question : State → Except Failure α) : Eval α := fun s => (question s, s)

def bindName (env : Env) (name : Text) (v : Value) : Eval Unit :=
  fun s => (.ok (), s.bind env name v)

def declare (env : Env) (decl : FunctionDecl) : Eval Value :=
  fun s =>
    let f := Value.function { id := s.made + 1, decl, captured := env.chain }
    (.ok f, { s.bind env decl.name f with made := s.made + 1 })

/-- How a call is carried out: the function and its argument. -/
abbrev Caller := Closure → Value → Eval Value

def initial (call : Caller) (env : Env) (name : Text) (pos : Position) : Initializer → Eval Value
  | .literal lexeme => answer fun _ => literalValue name pos lexeme
  | .call callee argument => do
    let (f, v) ← answer fun s => resolveCall s env callee argument pos
    call f v
  | .hole => throw (.missing .initializer)

def statement (call : Caller) (env : Env) (s : Statement) : Eval Value := do
  announce .statement none
  match s with
  | .define name value pos =>
    announce .variableDeclaration (some pos)
    let v ← initial call env name pos value
    bindName env name v
    return v
  | .function name parameter body ret pos =>
    announce .functionDeclaration (some pos)
    declare env { name, parameter, body, ret, pos }
  | .hole => throw (.missing .statement)

def statements (call : Caller) (env : Env) (last : Option Value) :
    List Statement → Eval (Option Value)
  | [] => return last
  | s :: rest => do
    let v ← statement call env s
    statements call env (some v) rest

def statementList (call : Caller) (env : Env) (ss : List Statement) : Eval (Option Value) := do
  announce .statementList none
  statements call env none ss

def functionBody (call : Caller) (env : Env) (decl : FunctionDecl) : Eval Value := do
  announce .functionBody none
  let _ ← statementList call env decl.body
  answer fun s => returnValue s env decl

/-- A call, inside of which at most `limit` less one others may run.  Its environment consists
of a new frame and the captured ones. -/
def call : (limit : Nat) → Caller
  | 0, _, _ => throw .tooDeep
  | limit + 1, f, v => fun s =>
    functionBody (call limit) { own := s.frames.size, outer := f.captured } f.decl
      (s.push f.decl.parameter v)

def program (limit : Nat) (p : Program) : Eval Value := do
  announce .start (some 0)
  announce .sourceFile (some p.pos)
  match ← statementList (call limit) { own := 0, outer := [] } p.statements with
  | some v => return v
  | none => throw (.diagnosed .emptySourceFile [] p.pos)

/-- Evaluates a program, starting with one empty frame. -/
def evaluate (p : Program) (limit : Nat) : Except Failure Value × State := (program limit p).run {}

end Lexical
end Stepwise
