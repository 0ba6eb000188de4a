/-
An evaluation in its smallest steps.

Between two events an evaluation may bind a value, leave a call, bind the value of that call, leave
the next one and so on.  A moment is the point before any one of these: before an event is shown,
before a name is bound or a function declared, before a call is left.  From a moment to the next one
at most one binding is made and at most one call is left, so that what any single one of them meets
can be spoken of.

The moments of an evaluation are its machine, taken apart: `Leads.of_proceed` and the lemmas before
it put one step of the machine together from them, and `evaluate_leads` the whole evaluation, for
observers of every kind.
-/
import Mathlib.Logic.Function.Iterate
import Stepwise.Proofs.Correspondence

namespace Stepwise

variable {σ ε : Type}

open Machine (currentEnv)

/-- What an evaluation is about to do. -/
inductive Act (ε : Type) where
  /-- Show the event of a machine, and do what is announced. -/
  | event (m : Machine)
  /-- Bind the value of a definition, behind which the statements `rest` follow. -/
  | bind (m : Machine) (name : Text) (v : Value) (rest : List Statement)
  | declare (m : Machine) (decl : FunctionDecl) (rest : List Statement)
  /-- Leave the call `a`, which has the value `v`; `m` has the calls around it. -/
  | leave (m : Machine) (a : Activation) (v : Value)
  /-- Leave the calls that are running, innermost first, and end. -/
  | unwind (calls : List Activation) (why : Stop ε)
  | ended (outcome : Except (Stop ε) Value)

structure Moment (σ ε : Type) where
  run : Run σ
  act : Act ε

/-- What comes after a statement, or at the head of a list of them. -/
def Act.goOn (m : Machine) (last : Option Value) (rest : List Statement) (s : Store) : Act ε :=
  match rest, m.calls, last with
  | s :: rest, _, _ => .event { m with task := .statement s rest }
  | [], [], some v => .ended (.ok v)
  | [], [], none => .unwind [] (.diagnosed (emptyProgram m.program.pos))
  | [], a :: calls, _ =>
    match returnValue s a.env a.decl with
    | .error why => .unwind (a :: calls) why
    | .ok v => .leave { m with calls } a v

namespace Moment

/-- Enters a call on behalf of the definition of `target`. -/
def enter (m : Machine) (target : Text) (rest : List Statement) (argument : Text) (f : Closure)
    (v : Value) (run : Run σ) : Moment σ ε :=
  match f.capture with
  | .detached _ => { run, act := .unwind m.calls .uncaptured }
  | .env env =>
    { run := { run with memory := run.memory.beginCall f env argument v }
      act := .event { m with
        task := .functionBody f.decl
        calls := { decl := f.decl, env, target, rest } :: m.calls } }

/-- Begins the work that the machine has announced. -/
def work (m : Machine) (run : Run σ) : Moment σ ε :=
  let env := currentEnv m.globalEnv m.calls
  match m.task with
  | .start => { run, act := .event { m with task := .sourceFile } }
  | .sourceFile => { run, act := .event { m with task := .statementList m.program.statements } }
  | .functionBody decl => { run, act := .event { m with task := .statementList decl.body } }
  | .statementList ss => { run, act := .goOn m none ss run.memory.store }
  | .statement (.define name value pos) rest =>
    { run, act := .event { m with task := .define name value pos rest } }
  | .statement (.function name parameter body ret pos) rest =>
    { run, act := .event { m with task := .declare { name, parameter, body, ret, pos } rest } }
  | .statement .hole _ => { run, act := .unwind m.calls (.missing .statement) }
  | .define name (.literal lexeme) pos rest =>
    match literalValue name pos lexeme with
    | .error d => { run, act := .unwind m.calls (.diagnosed d) }
    | .ok v => { run, act := .bind m name v rest }
  | .define name (.call callee argument) pos rest =>
    match resolveCall run.memory.store env callee argument pos with
    | .error d => { run, act := .unwind m.calls (.diagnosed d) }
    | .ok (f, v) => enter m name rest argument f v run
  | .define _ .hole _ _ => { run, act := .unwind m.calls (.missing .initializer) }
  | .declare decl rest => { run, act := .declare m decl rest }

/-- Shows the event of a machine to an observer and does as it says. -/
def react (obs : Observer σ ε) (m : Machine) (run : Run σ) : Moment σ ε :=
  let reaction := obs m.event run.memory.store run.seen
  let run : Run σ := { memory := { run.memory with store := reaction.store }, seen := reaction.seen }
  match reaction.stop with
  | none => work m run
  | some why => { run, act := .unwind m.calls (.interrupted why) }

/-- The next moment; an evaluation that is over stays so. -/
def next (obs : Observer σ ε) (x : Moment σ ε) : Moment σ ε :=
  match x.act with
  | .event m => react obs m x.run
  | .bind m name v rest =>
    match x.run.memory.bind (currentEnv m.globalEnv m.calls) name v with
    | none => { x with act := .unwind m.calls (.unbindable name) }
    | some memory => { run := { x.run with memory }, act := .goOn m (some v) rest memory.store }
  | .declare m decl rest =>
    match x.run.memory.declare (currentEnv m.globalEnv m.calls) decl with
    | none => { x with act := .unwind m.calls (.unbindable decl.name) }
    | some (f, memory) => { run := { x.run with memory }, act := .goOn m (some f) rest memory.store }
  | .leave m a v =>
    { run := { x.run with memory := x.run.memory.endCall a.decl.name a.env }
      act := .bind m a.target v a.rest }
  | .unwind (a :: calls) why =>
    { run := { x.run with memory := x.run.memory.endCall a.decl.name a.env }
      act := .unwind calls why }
  | .unwind [] why => { x with act := .ended (.error why) }
  | .ended _ => x

section Next

variable (obs : Observer σ ε) (m : Machine) {run : Run σ} {name : Text} {v : Value}
  {decl : FunctionDecl} {rest : List Statement} {t : Store}

/-- A run whose store the observer has had. -/
def shownTo (ev : Event) (run : Run σ) : Run σ :=
  { memory := { run.memory with store := (obs ev run.memory.store run.seen).store }
    seen := (obs ev run.memory.store run.seen).seen }

theorem next_event_none (h : (obs m.event run.memory.store run.seen).stop = none) :
    next obs { run, act := .event m } = work m (shownTo obs m.event run) := by
  simp only [next, react, h]
  rfl

theorem next_event_some {why : ε} (h : (obs m.event run.memory.store run.seen).stop = some why) :
    next obs { run, act := .event m } =
      { run := shownTo obs m.event run, act := .unwind m.calls (.interrupted why) } := by
  simp only [next, react, h]
  rfl

theorem next_bind_none
    (h : run.memory.store.bind (currentEnv m.globalEnv m.calls) name v = none) :
    next obs { run, act := .bind m name v rest } =
      { run, act := .unwind m.calls (.unbindable name) } := by
  simp only [next, Memory.bind, h, Option.map_none]

theorem next_bind_some
    (h : run.memory.store.bind (currentEnv m.globalEnv m.calls) name v = some t) :
    next obs { run, act := .bind m name v rest } =
      { run := { run with memory := { run.memory with store := t } }
        act := .goOn m (some v) rest t } := by
  simp only [next, Memory.bind, h, Option.map_some]

theorem next_declare_none (h : run.memory.store.bind (currentEnv m.globalEnv m.calls) decl.name
      (run.memory.declared decl) = none) :
    next obs { run, act := .declare m decl rest } =
      { run, act := .unwind m.calls (.unbindable decl.name) } := by
  simp only [next, Memory.declare_eq, h, Option.map_none]

theorem next_declare_some (h : run.memory.store.bind (currentEnv m.globalEnv m.calls) decl.name
      (run.memory.declared decl) = some t) :
    next obs { run, act := .declare m decl rest } =
      { run := { run with memory := { run.memory with
          store := (t.snapshot (currentEnv m.globalEnv m.calls)).2 } }
        act := .goOn m (some (run.memory.declared decl)) rest
          (t.snapshot (currentEnv m.globalEnv m.calls)).2 } := by
  simp only [next, Memory.declare_eq, h, Option.map_some]

end Next

/-- The first moment of a program. -/
def start (p : Program) (memory : Memory) (seen : σ) : Moment σ ε :=
  { run := { memory, seen }, act := .event (.init p Memory.globalEnv) }

/-- The moment at which a machine under an observer is. -/
def of (c : Machine.Config σ ε) : Moment σ ε :=
  match c.progress with
  | .parked m => { run := c.run, act := .event m }
  | .ended outcome => { run := c.run, act := .ended outcome }

/-- One moment comes after another, or is the same. -/
def Leads (obs : Observer σ ε) (x y : Moment σ ε) : Prop := ∃ n, (next obs)^[n] x = y

namespace Leads

variable {obs : Observer σ ε} {x y z : Moment σ ε}

theorem refl (x : Moment σ ε) : Leads obs x x := ⟨0, rfl⟩

theorem trans (hxy : Leads obs x y) (hyz : Leads obs y z) : Leads obs x z := by
  obtain ⟨n, rfl⟩ := hxy
  obtain ⟨k, rfl⟩ := hyz
  exact ⟨k + n, Function.iterate_add_apply _ k n x⟩

theorem head (h : Leads obs (next obs x) y) : Leads obs x y :=
  Leads.trans ⟨1, rfl⟩ h

end Leads

/-! ## One step of the machine -/

section Machine

variable {obs : Observer σ ε} (seen : σ)

theorem Leads.of_abort (calls : List Activation) (why : Stop ε) (memory : Memory) :
    Leads obs ⟨⟨memory, seen⟩, .unwind calls why⟩
      (.of (.of seen (Machine.abort calls why memory))) := by
  induction calls generalizing memory with
  | nil => exact .head (.refl _)
  | cons a calls ih => exact .head (ih (memory.endCall a.decl.name a.env))

/-- The end of a function body is followed outwards, through the calls that end with it. -/
theorem Leads.of_proceed (m : Machine) (last : Option Value) (rest : List Statement)
    (memory : Memory) :
    Leads obs ⟨⟨memory, seen⟩, .goOn m last rest memory.store⟩
      (.of (.of seen (m.proceed m.calls last rest memory))) := by
  obtain ⟨program, globalEnv, task, calls⟩ := m
  induction calls generalizing last rest memory with
  | nil =>
    cases rest with
    | cons s rest => exact .refl _
    | nil =>
      cases last with
      | some v => exact .refl _
      | none => exact .of_abort seen [] _ memory
  | cons a calls ih =>
    cases rest with
    | cons s rest => exact .refl _
    | nil =>
      rw [Machine.proceed_return]
      simp only [Act.goOn]
      cases returnValue (ε := ε) memory.store a.env a.decl with
      | error why => exact .of_abort seen (a :: calls) why memory
      | ok v =>
        refine .head (.head ?_)
        simp only [next, Machine.bindAndProceed]
        cases (memory.endCall a.decl.name a.env).bind (currentEnv globalEnv calls) a.target v with
        | none => exact .of_abort seen calls (.unbindable a.target) _
        | some memory => exact ih (some v) a.rest memory

theorem Leads.of_bindAndProceed (m : Machine) (name : Text) (v : Value) (rest : List Statement)
    (memory : Memory) :
    Leads obs ⟨⟨memory, seen⟩, .bind m name v rest⟩
      (.of (.of seen (m.bindAndProceed name v rest memory))) := by
  refine .head ?_
  simp only [next, Machine.bindAndProceed]
  cases memory.bind (currentEnv m.globalEnv m.calls) name v with
  | none => exact .of_abort seen m.calls (.unbindable name) memory
  | some memory => exact .of_proceed seen m (some v) rest memory

theorem Leads.of_enter (m : Machine) (target : Text) (rest : List Statement) (argument : Text)
    (f : Closure) (v : Value) (memory : Memory) :
    Leads obs (enter m target rest argument f v ⟨memory, seen⟩)
      (.of (.of seen (m.enter target rest argument f v memory))) := by
  unfold enter Machine.enter
  cases f.capture with
  | detached tag => exact .of_abort seen m.calls .uncaptured memory
  | env e => exact .refl _

theorem Leads.of_resume (m : Machine) (memory : Memory) :
    Leads obs (work m ⟨memory, seen⟩) (.of (.of seen (m.resume memory))) := by
  unfold work Machine.resume
  cases m.task with
  | start => exact .refl _
  | sourceFile => exact .refl _
  | functionBody decl => exact .refl _
  | statementList ss => exact .of_proceed seen m none ss memory
  | statement s rest =>
    cases s with
    | define name value pos => exact .refl _
    | function name parameter body ret pos => exact .refl _
    | hole => exact .of_abort seen m.calls _ memory
  | define name value pos rest =>
    cases value with
    | literal lexeme =>
      simp only
      cases literalValue name pos lexeme with
      | error d => exact .of_abort seen m.calls _ memory
      | ok v => exact .of_bindAndProceed seen m name v rest memory
    | call callee argument =>
      simp only
      cases resolveCall memory.store (currentEnv m.globalEnv m.calls) callee argument pos with
      | error d => exact .of_abort seen m.calls _ memory
      | ok fv => exact .of_enter seen m name rest argument fv.1 fv.2 memory
    | hole => exact .of_abort seen m.calls _ memory
  | declare decl rest =>
    refine .head ?_
    simp only [next]
    cases memory.declare (currentEnv m.globalEnv m.calls) decl with
    | none => exact .of_abort seen m.calls _ memory
    | some made => exact .of_proceed seen m (some made.1) rest made.2

theorem Leads.of_react (m : Machine) (run : Run σ) :
    Leads obs ⟨run, .event m⟩ (.of (Machine.react obs m run)) := by
  refine .head ?_
  show Leads obs (react obs m run) _
  unfold react Machine.react
  generalize obs m.event run.memory.store run.seen = reaction
  obtain ⟨store, seen, stop⟩ := reaction
  cases stop with
  | none => exact .of_resume seen m _
  | some why => exact .of_abort seen m.calls _ _

end Machine

/-! ## Whole evaluations -/

theorem Leads.of_steps {obs : Observer σ ε} {n : Nat} {c d : Machine.Config σ ε}
    (h : Machine.Steps obs n c d) : Leads obs (.of c) (.of d) := by
  induction h with
  | refl c => exact .refl _
  | step _ ih => exact (Leads.of_react _ _).trans ih

/-- An evaluation that does not run into its limit on calls is over after some moments, with the
same outcome, the same memory, and the observer having seen the same. -/
theorem evaluate_leads (obs : Observer σ ε) (limit : Nat) (p : Program) (memory : Memory) (seen : σ)
    (h : (p.evaluate obs limit memory seen).1 ≠ .error .tooDeep) :
    Leads obs (start p memory seen)
      ⟨(p.evaluate obs limit memory seen).2, .ended (p.evaluate obs limit memory seen).1⟩ := by
  have hfollows := Machine.evaluate_follows obs limit p memory seen
  generalize p.evaluate obs limit memory seen = result at *
  rcases result with ⟨why | v, run⟩
  · cases why with
    | tooDeep => exact absurd rfl h
    | _ =>
      obtain ⟨n, hsteps⟩ := hfollows
      exact .of_steps hsteps
  · obtain ⟨n, hsteps⟩ := hfollows
    exact .of_steps hsteps

end Moment
end Stepwise
