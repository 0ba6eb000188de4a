/-
The machine does what the evaluator does.

The evaluator pushes: it shows each event to its observer and then goes on by itself.  The
machine is pulled: it is parked at an event until someone takes it up.  To compare them,
`react` lets an observer drive a machine: the machine's event is shown to the observer,
which then either takes the machine up or stops it.  `Steps obs n c d` says that the
observer leads from `c` to `d` through `n` events.

`Follows` is the comparison for a part of an evaluation, whatever calls are running around
it: if the part succeeds, the machine arrives where the evaluation goes on; if it fails, the
machine ends with all running calls left.  The evaluator has a limit on the calls that run
inside one another, and the machine has none.  An evaluation that runs into the limit has
seen at least as many events as the limit allows calls, and the machine has seen the same
ones; from there on they part.  The main result is `evaluate_follows`, for observers of
every kind.
-/
import Stepwise.Evaluation.Machine
import Stepwise.Proofs.Effects

namespace Stepwise
namespace Machine

variable {σ ε α β : Type}

/-- A machine under an observer. -/
structure Config (σ ε : Type) where
  run : Run σ
  progress : Progress ε

def Config.of (seen : σ) (result : Memory × Progress ε) : Config σ ε :=
  { run := { memory := result.1, seen }, progress := result.2 }

/-- Shows the event of a parked machine to an observer and does as it says. -/
def react (obs : Observer σ ε) (m : Machine) (run : Run σ) : Config σ ε :=
  let reaction := obs m.event run.memory.store run.seen
  let memory := { run.memory with store := reaction.store }
  .of reaction.seen <|
    match reaction.stop with
    | none => m.resume memory
    | some why => m.interrupt why memory

/-- The observer leads from one configuration to another through `n` events. -/
inductive Steps (obs : Observer σ ε) : Nat → Config σ ε → Config σ ε → Prop where
  | refl (c : Config σ ε) : Steps obs 0 c c
  | step {n : Nat} {m : Machine} {run : Run σ} {c : Config σ ε} :
      Steps obs n (react obs m run) c → Steps obs (n + 1) { run, progress := .parked m } c

namespace Steps

variable {obs : Observer σ ε} {n k : Nat} {c d e : Config σ ε}

theorem trans (h : Steps obs n c d) (g : Steps obs k d e) : Steps obs (n + k) c e := by
  induction h with
  | refl c => rwa [Nat.zero_add]
  | step _ ih =>
    rw [Nat.add_right_comm]
    exact .step (ih g)

theorem single (obs : Observer σ ε) (m : Machine) (run : Run σ) :
    Steps obs 1 { run, progress := .parked m } (react obs m run) :=
  .step (.refl _)

theorem of_ended {run : Run σ} {outcome : Except (Stop ε) Value}
    (h : Steps obs n { run, progress := .ended outcome } d) :
    n = 0 ∧ d = { run, progress := .ended outcome } := by
  cases h
  exact ⟨rfl, rfl⟩

end Steps

/-! ## Following a part of an evaluation -/

/-- From `c`, under the running `calls`, the machine does what a part of an evaluation with
the given result does; `after` says where the evaluation goes on. -/
def Follows (obs : Observer σ ε) (limit : Nat) (calls : List Activation) (c : Config σ ε)
    (after : α → Run σ → Config σ ε) : Except (Stop ε) α × Run σ → Prop
  | (.ok a, run) => ∃ n, Steps obs n c (after a run)
  | (.error .tooDeep, run) => ∃ n d, limit ≤ n ∧ Steps obs n c d ∧ d.run.seen = run.seen
  | (.error why, run) => ∃ n, Steps obs n c
      { run := { run with memory := unwind calls run.memory }, progress := .ended (.error why) }

section Follows

variable {obs : Observer σ ε} {limit : Nat} {calls : List Activation} {c d : Config σ ε}
  {after : α → Run σ → Config σ ε}

/-- The part need not begin at once. -/
theorem Follows.prepend {k : Nat} {result : Except (Stop ε) α × Run σ}
    (h : Follows obs limit calls d after result) (hc : Steps obs k c d) {limit' : Nat}
    (hl : limit' ≤ limit + k) : Follows obs limit' calls c after result := by
  rcases result with ⟨why | a, run⟩
  · cases why with
    | tooDeep =>
      obtain ⟨n, e, hn, hsteps, hseen⟩ := h
      exact ⟨k + n, e, by omega, hc.trans hsteps, hseen⟩
    | _ =>
      obtain ⟨n, hsteps⟩ := h
      exact ⟨k + n, hc.trans hsteps⟩
  · obtain ⟨n, hsteps⟩ := h
    exact ⟨k + n, hc.trans hsteps⟩

theorem Follows.mono {result : Except (Stop ε) α × Run σ} {limit' : Nat}
    (h : Follows obs limit calls c after result) (hl : limit' ≤ limit) :
    Follows obs limit' calls c after result :=
  h.prepend (.refl c) hl

theorem Follows.bind {x : Eval σ ε α} {f : α → Eval σ ε β} {run : Run σ}
    {after' : β → Run σ → Config σ ε} (hx : Follows obs limit calls c after (x run))
    (hf : ∀ a run, Follows obs limit calls (after a run) after' (f a run)) :
    Follows obs limit calls c after' ((x >>= f) run) := by
  rw [Eval.bind_apply]
  generalize x run = result at *
  rcases result with ⟨why | a, run⟩
  · cases why <;> exact hx
  · obtain ⟨n, hsteps⟩ := hx
    exact (hf a run).prepend hsteps (Nat.le_add_right _ _)

/-- Where the machine ends on its own, the evaluation has failed in the same way. -/
theorem Follows.abort (why : Stop ε) (hwhy : why ≠ .tooDeep) (run : Run σ) :
    Follows obs limit calls (.of run.seen (Machine.abort calls why run.memory)) after
      (.error why, run) := by
  cases why with
  | tooDeep => exact absurd rfl hwhy
  | _ => exact ⟨0, .refl _⟩

/-- Announcing takes one step of the machine. -/
theorem Follows.announce {m : Machine} {kind : EventKind} {env : EnvId} {pos : Option Position}
    {next : Unit → Eval σ ε α} {run : Run σ} (hm : m.event = { kind, env, pos })
    (hnext : ∀ run : Run σ, Follows obs limit m.calls (.of run.seen (m.resume run.memory)) after
      (next () run)) :
    Follows obs (limit + 1) m.calls { run, progress := .parked m } after
      ((Direct.announce obs kind env pos >>= next) run) := by
  have hstep := Steps.single obs m run
  rw [Eval.bind_apply, Direct.announce_apply, ← hm]
  unfold react at hstep
  generalize obs m.event run.memory.store run.seen = reaction at *
  rcases reaction with ⟨store, seen, _ | why⟩
  · exact (hnext { memory := { run.memory with store }, seen }).prepend hstep (Nat.le_refl _)
  · exact ⟨1, hstep⟩

end Follows

/-! ## The machine's own steps -/

/-- What the machine is parked at makes no difference to how it goes on. -/
theorem proceed_with (m : Machine) (task : Task) (stack calls : List Activation) :
    ({ m with task, calls := stack } : Machine).proceed (ε := ε) calls = m.proceed calls := by
  induction calls with
  | nil =>
    funext last rest memory
    cases rest with
    | cons s rest => rfl
    | nil => cases last <;> rfl
  | cons a calls ih =>
    funext last rest memory
    cases rest with
    | cons s rest => rfl
    | nil => simp only [proceed, ih]

theorem bindAndProceed_with (m : Machine) (task : Task) :
    ({ m with task } : Machine).bindAndProceed (ε := ε) = m.bindAndProceed := by
  funext name v rest memory
  simp only [bindAndProceed, proceed_with m task m.calls m.calls]

theorem returnValue_ne_tooDeep {s : Store} {env : EnvId} {decl : FunctionDecl} {why : Stop ε}
    (h : returnValue s env decl = .error why) : why ≠ .tooDeep := by
  rintro rfl
  unfold returnValue at h
  split at h
  · split at h <;> cases h
  · cases hsum : sumOf s env _ _ decl.pos with
    | ok v => rw [hsum] at h; cases h
    | error d => rw [hsum] at h; cases h
  · cases h

theorem proceed_return (m : Machine) (a : Activation) (calls : List Activation)
    (last : Option Value) (memory : Memory) :
    m.proceed (ε := ε) (a :: calls) last [] memory =
      match returnValue memory.store a.env a.decl with
      | .error why => abort (a :: calls) why memory
      | .ok v => bindAndProceed { m with calls } a.target v a.rest
          (memory.endCall a.decl.name a.env) := by
  simp only [proceed, bindAndProceed]
  cases returnValue (ε := ε) memory.store a.env a.decl with
  | error why => rfl
  | ok v =>
    simp only
    cases (memory.endCall a.decl.name a.env).bind (currentEnv m.globalEnv calls) a.target v with
    | none => rfl
    | some memory =>
      rw [proceed_with m m.task calls calls]

/-! ## The evaluator followed -/

/-- How the machine follows a caller: from where it has entered the function to where the
caller binds the value. -/
def FollowsCalls (obs : Observer σ ε) (limit : Nat) (call : Direct.Caller σ ε) : Prop :=
  ∀ (m : Machine) (target : Text) (rest : List Statement) (argument : Text) (f : Closure)
    (v : Value) (run : Run σ),
    Follows obs limit m.calls (.of run.seen (m.enter target rest argument f v run.memory))
      (fun w run => .of run.seen (m.bindAndProceed target w rest run.memory))
      (call argument f v run)

section Evaluator

variable {obs : Observer σ ε} {limit : Nat} {call : Direct.Caller σ ε}
  (hcall : FollowsCalls obs limit call)
include hcall

theorem initial_follows {m : Machine} {name : Text} {value : Initializer} {pos : Position}
    {rest : List Statement} (hm : m.task = .define name value pos rest) (run : Run σ) :
    Follows obs limit m.calls (.of run.seen (m.resume run.memory))
      (fun v run => .of run.seen (m.bindAndProceed name v rest run.memory))
      (Direct.initial call (currentEnv m.globalEnv m.calls) name pos value run) := by
  cases value with
  | literal lexeme =>
    simp only [resume, hm, Direct.initial]
    cases literalValue name pos lexeme with
    | ok v => exact ⟨0, .refl _⟩
    | error d => exact .abort (.diagnosed d) (by simp) run
  | call callee argument =>
    simp only [resume, hm, Direct.initial]
    rw [← bind_assoc, Eval.bind_apply, Direct.diagnose_ask_apply]
    cases resolveCall run.memory.store (currentEnv m.globalEnv m.calls) callee argument pos with
    | error d => exact .abort (.diagnosed d) (by simp) run
    | ok fv =>
      obtain ⟨f, v⟩ := fv
      exact hcall m name rest argument f v run
  | hole =>
    simp only [resume, hm, Direct.initial]
    exact .abort (.missing .initializer) (by simp) run

omit hcall in
theorem bindName_follows (m : Machine) (name : Text) (v : Value) (rest : List Statement)
    (run : Run σ) :
    Follows obs limit m.calls (.of run.seen (m.bindAndProceed name v rest run.memory))
      (fun v run => .of run.seen (m.proceed m.calls (some v) rest run.memory))
      ((do Direct.bindName (currentEnv m.globalEnv m.calls) name v; return v) run) := by
  rw [Eval.bind_apply, Direct.bindName_apply, bindAndProceed]
  cases run.memory.bind (currentEnv m.globalEnv m.calls) name v with
  | none => exact .abort (.unbindable name) (by simp) run
  | some memory => exact ⟨0, .refl _⟩

omit hcall in
theorem declare_follows {m : Machine} {decl : FunctionDecl} {rest : List Statement}
    (hm : m.task = .declare decl rest) (run : Run σ) :
    Follows obs limit m.calls (.of run.seen (m.resume run.memory))
      (fun v run => .of run.seen (m.proceed m.calls (some v) rest run.memory))
      (Direct.declare (currentEnv m.globalEnv m.calls) decl run) := by
  rw [Direct.declare_apply]
  simp only [resume, hm]
  cases run.memory.declare (currentEnv m.globalEnv m.calls) decl with
  | none => exact .abort (.unbindable decl.name) (by simp) run
  | some fm => exact ⟨0, .refl _⟩

theorem statement_follows {m : Machine} {s : Statement} {rest : List Statement}
    (hm : m.task = .statement s rest) (run : Run σ) :
    Follows obs limit m.calls { run, progress := .parked m }
      (fun v run => .of run.seen (m.proceed m.calls (some v) rest run.memory))
      (Direct.statement obs call (currentEnv m.globalEnv m.calls) s run) := by
  refine Follows.mono ?_ (Nat.le_succ limit)
  cases s with
  | define name value pos =>
    refine Follows.announce (by simp [event, hm]) fun run => ?_
    let m' : Machine := { m with task := .define name value pos rest }
    have hproceed : m'.proceed (ε := ε) m'.calls = m.proceed m.calls :=
      proceed_with m m'.task m.calls m.calls
    have hresume : m.resume (ε := ε) run.memory = (run.memory, .parked m') := by
      simp only [resume, hm, park, m']
    rw [hresume, ← hproceed]
    refine Follows.mono ?_ (Nat.le_succ limit)
    refine Follows.announce (m := m') rfl fun run => ?_
    exact (initial_follows hcall (m := m') rfl run).bind fun v run =>
      bindName_follows m' name v rest run
  | function name parameter body ret pos =>
    refine Follows.announce (by simp [event, hm]) fun run => ?_
    let decl : FunctionDecl := { name, parameter, body, ret, pos }
    let m' : Machine := { m with task := .declare decl rest }
    have hproceed : m'.proceed (ε := ε) m'.calls = m.proceed m.calls :=
      proceed_with m m'.task m.calls m.calls
    have hresume : m.resume (ε := ε) run.memory = (run.memory, .parked m') := by
      simp only [resume, hm, park, m', decl]
    rw [hresume, ← hproceed]
    refine Follows.mono ?_ (Nat.le_succ limit)
    refine Follows.announce (m := m') rfl fun run => ?_
    exact declare_follows (m := m') rfl run
  | hole =>
    refine Follows.announce (by simp [event, hm]) fun run => ?_
    have hresume : m.resume (ε := ε) run.memory =
        Machine.abort m.calls (.missing .statement) run.memory := by
      simp only [resume, hm]
    rw [hresume]
    exact .abort (.missing .statement) (by simp) run

theorem statements_follows (m : Machine) (ss : List Statement) :
    ∀ (last : Option Value) (run : Run σ),
      Follows obs limit m.calls (.of run.seen (m.proceed m.calls last ss run.memory))
        (fun last run => .of run.seen (m.proceed m.calls last [] run.memory))
        (Direct.statements obs call (currentEnv m.globalEnv m.calls) last ss run) := by
  induction ss with
  | nil => exact fun last run => ⟨0, .refl _⟩
  | cons s rest ih =>
    intro last run
    let m' : Machine := { m with task := .statement s rest }
    have hproceed : m'.proceed (ε := ε) m'.calls = m.proceed m.calls :=
      proceed_with m m'.task m.calls m.calls
    have hpark : m.proceed (ε := ε) m.calls last (s :: rest) run.memory =
        (run.memory, .parked m') := by
      rw [proceed]
      rfl
    rw [hpark]
    refine (statement_follows hcall (m := m') rfl run).bind fun v run => ?_
    rw [hproceed]
    exact ih (some v) run

theorem statementList_follows {m : Machine} {ss : List Statement} (hm : m.task = .statementList ss)
    (run : Run σ) :
    Follows obs limit m.calls { run, progress := .parked m }
      (fun last run => .of run.seen (m.proceed m.calls last [] run.memory))
      (Direct.statementList obs call (currentEnv m.globalEnv m.calls) ss run) := by
  refine Follows.mono ?_ (Nat.le_succ limit)
  refine Follows.announce (by simp [event, hm]) fun run => ?_
  have hresume : m.resume (ε := ε) run.memory = m.proceed m.calls none ss run.memory := by
    simp only [resume, hm]
  rw [hresume]
  exact statements_follows hcall m ss none run

/-- The body of the innermost running call `a`, up to where its caller binds the value. -/
theorem functionBody_follows {m : Machine} {a : Activation} {calls : List Activation}
    (hm : m.task = .functionBody a.decl) (hcalls : m.calls = a :: calls) (run : Run σ) :
    Follows obs (limit + 1) m.calls { run, progress := .parked m }
      (fun v run => .of run.seen (bindAndProceed { m with calls } a.target v a.rest
        (run.memory.endCall a.decl.name a.env)))
      (Direct.functionBody obs call a.env a.decl run) := by
  have henv : currentEnv m.globalEnv m.calls = a.env := by rw [hcalls]; rfl
  rw [Direct.functionBody_eq]
  refine Follows.announce (by simp [event, hm, henv]) fun run => ?_
  let m' : Machine := { m with task := .statementList a.decl.body }
  have hresume : m.resume (ε := ε) run.memory = (run.memory, .parked m') := by
    simp only [resume, hm, park, m']
  have hbody := statementList_follows hcall (m := m') rfl run
  rw [hresume]
  rw [show currentEnv m'.globalEnv m'.calls = a.env from henv] at hbody
  refine hbody.bind fun last run => ?_
  rw [show m'.calls = a :: calls from hcalls, proceed_return, Direct.answer]
  cases hv : returnValue (ε := ε) run.memory.store a.env a.decl with
  | error why => exact .abort why (returnValue_ne_tooDeep hv) run
  | ok v =>
    have hbind := bindAndProceed_with (ε := ε) { m with calls } m'.task
    exact ⟨0, hbind ▸ .refl _⟩

end Evaluator

theorem call_follows (obs : Observer σ ε) (limit : Nat) :
    FollowsCalls obs limit (Direct.call obs limit) := by
  induction limit with
  | zero =>
    -- The evaluator gives up at once, and the machine has not gone further either.
    intro m target rest argument f v run
    exact ⟨0, _, Nat.le_refl 0, .refl _, rfl⟩
  | succ limit ih =>
    intro m target rest argument f v run
    simp only [enter, Direct.call]
    cases hf : f.capture with
    | detached tag => exact .abort .uncaptured (by simp) run
    | env e =>
      let a : Activation := { decl := f.decl, env := e, target, rest }
      let m' : Machine := { m with task := .functionBody f.decl, calls := a :: m.calls }
      let inside : Run σ := { run with memory := run.memory.beginCall f e argument v }
      have hbody := functionBody_follows ih (m := m') (a := a) rfl rfl inside
      have hbind := bindAndProceed_with (ε := ε) m m'.task
      show Follows obs (limit + 1) m.calls { run := inside, progress := .parked m' } _
        ((Direct.functionBody obs (Direct.call obs limit) e f.decl inside).1,
          { (Direct.functionBody obs (Direct.call obs limit) e f.decl inside).2 with
            memory := (Direct.functionBody obs (Direct.call obs limit) e f.decl
              inside).2.memory.endCall f.decl.name e })
      generalize Direct.functionBody obs (Direct.call obs limit) a.env a.decl inside = result at *
      rcases result with ⟨why | w, run⟩
      · cases why <;> exact hbody
      · exact hbind ▸ hbody

theorem evaluate_follows (obs : Observer σ ε) (limit : Nat) (p : Program) (memory : Memory)
    (seen : σ) :
    Follows obs limit [] { run := { memory, seen }, progress := .parked (init p Memory.globalEnv) }
      (fun v run => { run, progress := .ended (.ok v) }) (p.evaluate obs limit memory seen) := by
  let m : Task → Machine := fun task =>
    { program := p, globalEnv := Memory.globalEnv, task, calls := [] }
  refine Follows.mono ?_ (Nat.le_succ limit)
  refine Follows.announce (m := m .start) rfl fun run => ?_
  refine Follows.mono ?_ (Nat.le_succ limit)
  refine Follows.announce (m := m .sourceFile) rfl fun run => ?_
  refine (statementList_follows (call_follows obs limit) (m := m (.statementList p.statements))
    rfl run).bind fun last run => ?_
  cases last with
  | some v => exact ⟨0, .refl _⟩
  | none => exact .abort (.diagnosed (emptyProgram p.pos)) (by simp) run

end Machine
end Stepwise
