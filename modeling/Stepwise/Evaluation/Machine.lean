/-
Evaluation that can be left and taken up again.  The machine is always parked at an
event: it knows what it has announced, and which calls are running.  Taking it up does
the announced work and everything else up to the next event, or to the end.
-/
import Stepwise.Evaluation.Memory

namespace Stepwise

/-- A running call, and what its caller does afterwards. -/
structure Activation where
  /-- The declaration whose body runs. -/
  decl : FunctionDecl
  /-- The environment that the function captured, in which the body runs. -/
  env : EnvId
  /-- The name that the caller binds the value to. -/
  target : Text
  /-- The statements of the caller that follow. -/
  rest : List Statement

/-- What has been announced and is to be done next. -/
inductive Task where
  | start
  | sourceFile
  | statementList (ss : List Statement)
  | statement (s : Statement) (rest : List Statement)
  | define (name : Text) (value : Initializer) (pos : Position) (rest : List Statement)
  | declare (decl : FunctionDecl) (rest : List Statement)
  | functionBody (decl : FunctionDecl)

/-- A parked evaluation of a program in the environment `globalEnv`, with the running
calls, innermost first. -/
structure Machine where
  program : Program
  globalEnv : EnvId
  task : Task
  calls : List Activation

namespace Machine

/-- A machine parked at the very first event. -/
def init (p : Program) (globalEnv : EnvId) : Machine :=
  { program := p, globalEnv, task := .start, calls := [] }

/-- The environment of the innermost running call. -/
def currentEnv (globalEnv : EnvId) : List Activation → EnvId
  | [] => globalEnv
  | a :: _ => a.env

/-- The event at which the machine is parked. -/
def event (m : Machine) : Event :=
  let env := currentEnv m.globalEnv m.calls
  match m.task with
  | .start => { kind := .start, env, pos := some 0 }
  | .sourceFile => { kind := .sourceFile, env, pos := some m.program.pos }
  | .statementList _ => { kind := .statementList, env, pos := none }
  | .statement .. => { kind := .statement, env, pos := none }
  | .define _ _ pos _ => { kind := .variableDeclaration, env, pos := some pos }
  | .declare decl _ => { kind := .functionDeclaration, env, pos := some decl.pos }
  | .functionBody _ => { kind := .functionBody, env, pos := none }

/-- Where taking up a machine leads: to another event, or to the end. -/
inductive Progress (ε : Type) where
  | parked (m : Machine)
  | ended (outcome : Except (Stop ε) Value)

variable {ε : Type}

/-- Leaves all running calls, innermost first. -/
def unwind (calls : List Activation) (memory : Memory) : Memory :=
  calls.foldl (fun memory a => memory.endCall a.decl.name a.env) memory

/-- Ends the evaluation without a value. -/
def abort (calls : List Activation) (why : Stop ε) (memory : Memory) : Memory × Progress ε :=
  (unwind calls memory, .ended (.error why))

/-- Stops a parked machine. -/
def interrupt (m : Machine) (why : ε) (memory : Memory) : Memory × Progress ε :=
  abort m.calls (.interrupted why) memory

/-- Parks before a task of the same program. -/
def park (m : Machine) (task : Task) (calls : List Activation) : Progress ε :=
  .parked { m with task, calls }

/-- Goes on after a statement, or the head of a list: parks before the next statement, or
ends the list.  At the end of a function body its call is left, the caller binds the
value, and goes on in turn. -/
def proceed (m : Machine) : (calls : List Activation) → (last : Option Value) →
    (rest : List Statement) → Memory → Memory × Progress ε
  | calls, _, s :: rest, memory => (memory, m.park (.statement s rest) calls)
  | [], some v, [], memory => (memory, .ended (.ok v))
  | [], none, [], memory => abort [] (.diagnosed (emptyProgram m.program.pos)) memory
  | a :: calls, _, [], memory =>
    match returnValue memory.store a.env a.decl with
    | .error why => abort (a :: calls) why memory
    | .ok v =>
      let memory := memory.endCall a.decl.name a.env
      match memory.bind (currentEnv m.globalEnv calls) a.target v with
      | none => abort calls (.unbindable a.target) memory
      | some memory => proceed m calls (some v) a.rest memory

/-- Binds the value of a definition and goes on. -/
def bindAndProceed (m : Machine) (name : Text) (v : Value) (rest : List Statement)
    (memory : Memory) : Memory × Progress ε :=
  match memory.bind (currentEnv m.globalEnv m.calls) name v with
  | none => abort m.calls (.unbindable name) memory
  | some memory => m.proceed m.calls (some v) rest memory

/-- Enters a call on behalf of the definition of `target`. -/
def enter (m : Machine) (target : Text) (rest : List Statement) (argument : Text) (f : Closure)
    (v : Value) (memory : Memory) : Memory × Progress ε :=
  match f.capture with
  | .detached _ => abort m.calls .uncaptured memory
  | .env env =>
    (memory.beginCall f env argument v,
      m.park (.functionBody f.decl) ({ decl := f.decl, env, target, rest } :: m.calls))

/-- Does the work that the machine has announced. -/
def resume (m : Machine) (memory : Memory) : Memory × Progress ε :=
  let env := currentEnv m.globalEnv m.calls
  match m.task with
  | .start => (memory, m.park .sourceFile m.calls)
  | .sourceFile => (memory, m.park (.statementList m.program.statements) m.calls)
  | .functionBody decl => (memory, m.park (.statementList decl.body) m.calls)
  | .statementList ss => m.proceed m.calls none ss memory
  | .statement (.define name value pos) rest =>
    (memory, m.park (.define name value pos rest) m.calls)
  | .statement (.function name parameter body ret pos) rest =>
    (memory, m.park (.declare { name, parameter, body, ret, pos } rest) m.calls)
  | .statement .hole _ => abort m.calls (.missing .statement) memory
  | .define name (.literal lexeme) pos rest =>
    match literalValue name pos lexeme with
    | .error d => abort m.calls (.diagnosed d) memory
    | .ok v => m.bindAndProceed name v rest memory
  | .define name (.call callee argument) pos rest =>
    match resolveCall memory.store env callee argument pos with
    | .error d => abort m.calls (.diagnosed d) memory
    | .ok (f, v) => m.enter name rest argument f v memory
  | .define _ .hole _ _ => abort m.calls (.missing .initializer) memory
  | .declare decl rest =>
    match memory.declare env decl with
    | none => abort m.calls (.unbindable decl.name) memory
    | some (f, memory) => m.proceed m.calls (some f) rest memory

end Machine
end Stepwise
