/-
Evaluation in a single run.  Each unit of work is announced to an observer and then done.  A
call evaluates the body of its function in the environment that the function captured,
with one more frame for the parameter, and drops that frame whichever way it ends.

Nothing in the language bounds how many calls may run inside one another, so the
evaluator is given a limit on them.
-/
import Stepwise.Evaluation.Observer

namespace Stepwise

/-- An evaluation under way: what it works on and what its observer has seen. -/
structure Run (σ : Type) where
  memory : Memory
  seen : σ

/-- A part of an evaluation.  The run goes on from where a failing part left it. -/
abbrev Eval (σ ε α : Type) := ExceptT (Stop ε) (StateM (Run σ)) α

namespace Direct

variable {σ ε α : Type}

/-! ## Single steps -/

/-- Shows an event to the observer. -/
def announce (obs : Observer σ ε) (kind : EventKind) (env : EnvId) (pos : Option Position) :
    Eval σ ε Unit := do
  let run ← get
  let reaction := obs { kind, env, pos } run.memory.store run.seen
  set ({ memory := { run.memory with store := reaction.store }, seen := reaction.seen } : Run σ)
  match reaction.stop with
  | none => return ()
  | some why => throw (.interrupted why)

/-- Asks something of the environments. -/
def ask (question : Store → α) : Eval σ ε α := do
  return question (← get).memory.store

/-- Goes on with an answer, or stops with its diagnosis. -/
def diagnose : Except Diagnosis α → Eval σ ε α
  | .ok a => return a
  | .error d => throw (.diagnosed d)

def bindName (env : EnvId) (name : Text) (v : Value) : Eval σ ε Unit := do
  match (← get).memory.bind env name v with
  | none => throw (.unbindable name)
  | some memory => modify ({ · with memory })

def declare (env : EnvId) (decl : FunctionDecl) : Eval σ ε Value := do
  match (← get).memory.declare env decl with
  | none => throw (.unbindable decl.name)
  | some (f, memory) =>
    modify ({ · with memory })
    return f

/-- Does `body` inside a call of `f` in the environment `env`.  The call is left on
every way out. -/
def inCall (f : Closure) (env : EnvId) (argument : Text) (v : Value) (body : Eval σ ε α) :
    Eval σ ε α :=
  fun run =>
    let (outcome, run) := body { run with memory := run.memory.beginCall f env argument v }
    (outcome, { run with memory := run.memory.endCall f.decl.name env })

/-! ## The evaluator -/

/-- How a call is carried out: the name of the argument, the function, and the value. -/
abbrev Caller (σ ε : Type) := Text → Closure → Value → Eval σ ε Value

/-- The value that the variable `name` is defined to have. -/
def initial (call : Caller σ ε) (env : EnvId) (name : Text) (pos : Position) :
    Initializer → Eval σ ε Value
  | .literal lexeme => diagnose (literalValue name pos lexeme)
  | .call callee argument => do
    let (f, v) ← diagnose (← ask fun s => resolveCall s env callee argument pos)
    call argument f v
  | .hole => throw (.missing .initializer)

def statement (obs : Observer σ ε) (call : Caller σ ε) (env : EnvId) (s : Statement) :
    Eval σ ε Value := do
  announce obs .statement env none
  match s with
  | .define name value pos =>
    announce obs .variableDeclaration env (some pos)
    let v ← initial call env name pos value
    bindName env name v
    return v
  | .function name parameter body ret pos =>
    announce obs .functionDeclaration env (some pos)
    declare env { name, parameter, body, ret, pos }
  | .hole => throw (.missing .statement)

/-- The value of the last statement, if there is any; `last` is that of the one before. -/
def statements (obs : Observer σ ε) (call : Caller σ ε) (env : EnvId) (last : Option Value) :
    List Statement → Eval σ ε (Option Value)
  | [] => return last
  | s :: rest => do
    let v ← statement obs call env s
    statements obs call env (some v) rest

def statementList (obs : Observer σ ε) (call : Caller σ ε) (env : EnvId) (ss : List Statement) :
    Eval σ ε (Option Value) := do
  announce obs .statementList env none
  statements obs call env none ss

/-- The body of a function.  Only the return expression gives its value. -/
def functionBody (obs : Observer σ ε) (call : Caller σ ε) (env : EnvId) (decl : FunctionDecl) :
    Eval σ ε Value := do
  announce obs .functionBody env none
  let _ ← statementList obs call env decl.body
  match ← ask fun s => returnValue s env decl with
  | .ok v => return v
  | .error stop => throw stop

/-- A call, inside of which at most `limit` less one others may run. -/
def call (obs : Observer σ ε) : (limit : Nat) → Caller σ ε
  | 0, _, _, _ => throw .tooDeep
  | limit + 1, argument, f, v =>
    match f.capture with
    | .detached _ => throw .uncaptured
    | .env env => inCall f env argument v (functionBody obs (call obs limit) env f.decl)

/-- A whole program in the environment `env`. -/
def program (obs : Observer σ ε) (limit : Nat) (env : EnvId) (p : Program) : Eval σ ε Value := do
  announce obs .start env (some 0)
  announce obs .sourceFile env (some p.pos)
  match ← statementList obs (call obs limit) env p.statements with
  | some v => return v
  | none => throw (.diagnosed (emptyProgram p.pos))

end Direct

/-- More calls than can run inside one another before memory is exhausted. -/
def unlimited : Nat := Nat.pow 2 62

/-- Evaluates a program in the global environment of a memory, showing each event to
`obs`, which starts from `seen`. -/
def Program.evaluate {σ ε : Type} (p : Program) (obs : Observer σ ε) (limit : Nat)
    (memory : Memory) (seen : σ) : Except (Stop ε) Value × Run σ :=
  (Direct.program obs limit Memory.globalEnv p).run { memory, seen }

end Stepwise
