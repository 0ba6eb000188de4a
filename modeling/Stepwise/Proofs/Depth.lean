/-
How deep an evaluation was when it met its limit.

The evaluator gives up when a call is to be made and as many are running as it was allowed.  The
machine, which has no limit, is then at the definition that makes the call: as many calls are
running there, and that event is the last one that the observer was shown.  `Dives` says so of a
part of an evaluation; where the part did not give up it says nothing, and `Follows` tells where the
machine is.  The main result is `evaluate_dives`.
-/
import Stepwise.Proofs.Correspondence

namespace Stepwise
namespace Machine

variable {σ ε α β : Type}

/-- If the part of an evaluation with this result gave up, the machine comes from `c` to an event at
which `depth` calls are running, and nothing was seen after that event. -/
def Dives (obs : Observer σ ε) (depth : Nat) (c : Config σ ε) :
    Except (Stop ε) α × Run σ → Prop
  | (.error .tooDeep, run) => ∃ n m r, Steps obs n c { run := r, progress := .parked m } ∧
      m.calls.length = depth ∧ (react obs m r).run.seen = run.seen
  | _ => True

section Dives

variable {obs : Observer σ ε} {depth : Nat} {calls : List Activation} {c d : Config σ ε}
  {after : α → Run σ → Config σ ε}

theorem Dives.prepend {k : Nat} {result : Except (Stop ε) α × Run σ} (h : Dives obs depth d result)
    (hc : Steps obs k c d) : Dives obs depth c result := by
  rcases result with ⟨why | a, run⟩
  · cases why with
    | tooDeep =>
      obtain ⟨n, m, r, hsteps, hdepth, hseen⟩ := h
      exact ⟨k + n, m, r, hc.trans hsteps, hdepth, hseen⟩
    | _ => trivial
  · trivial

/-- A failure of another kind is not the limit's. -/
theorem Dives.of_ne {result : Except (Stop ε) α × Run σ} (h : result.1 ≠ .error .tooDeep) :
    Dives obs depth c result := by
  rcases result with ⟨why | a, run⟩
  · cases why with
    | tooDeep => exact absurd rfl h
    | _ => trivial
  · trivial

theorem Dives.bind {limit : Nat} {x : Eval σ ε α} {f : α → Eval σ ε β} {run : Run σ}
    (hx : Dives obs depth c (x run)) (hfollows : Follows obs limit calls c after (x run))
    (hf : ∀ a run, Dives obs depth (after a run) (f a run)) :
    Dives obs depth c ((x >>= f) run) := by
  rw [Eval.bind_apply]
  generalize x run = result at *
  rcases result with ⟨why | a, run⟩
  · cases why <;> exact hx
  · obtain ⟨n, hsteps⟩ := hfollows
    exact (hf a run).prepend hsteps

/-- What is done after an announcement is done by a machine that has been shown. -/
theorem Dives.announce {m : Machine} {kind : EventKind} {env : EnvId} {pos : Option Position}
    {next : Unit → Eval σ ε α} {run : Run σ} (hm : m.event = { kind, env, pos })
    (hnext : ∀ run' : Run σ, react obs m run = .of run'.seen (m.resume run'.memory) →
      Dives obs depth { run, progress := .parked m } (next () run')) :
    Dives obs depth { run, progress := .parked m }
      ((Direct.announce obs kind env pos >>= next) run) := by
  rw [Eval.bind_apply, Direct.announce_apply, ← hm]
  unfold react at hnext
  generalize obs m.event run.memory.store run.seen = reaction at *
  rcases reaction with ⟨store, seen, _ | why⟩
  · exact hnext { memory := { run.memory with store }, seen } rfl
  · trivial

/-- The same, where the machine goes on to another announcement. -/
theorem Dives.of_parked {m m' : Machine} {run run' : Run σ}
    (hreact : react obs m run = .of run'.seen (m.resume run'.memory))
    (hresume : m.resume (ε := ε) run'.memory = (run'.memory, .parked m'))
    {result : Except (Stop ε) α × Run σ}
    (h : Dives obs depth { run := run', progress := .parked m' } result) :
    Dives obs depth { run, progress := .parked m } result := by
  have hstep := Steps.single obs m run
  rw [hreact, hresume] at hstep
  exact h.prepend hstep

end Dives

/-! ## The evaluator at its limit -/

/-- What a caller does that may have `limit` calls inside one another: the machine `m` has just been
shown, and enters the function. -/
def DivesCalls (obs : Observer σ ε) (limit : Nat) (call : Direct.Caller σ ε) : Prop :=
  ∀ (m : Machine) (target : Text) (rest : List Statement) (argument : Text) (f : Closure)
    (v : Value) (before run : Run σ),
    react obs m before = .of run.seen (m.enter target rest argument f v run.memory) →
    Dives obs (m.calls.length + limit) { run := before, progress := .parked m }
      (call argument f v run)

section Evaluator

variable {obs : Observer σ ε} {limit : Nat} {call : Direct.Caller σ ε}
  (hcall : DivesCalls obs limit call) (hfollows : FollowsCalls obs limit call)
include hcall

theorem initial_dives {m : Machine} {name : Text} {value : Initializer} {pos : Position}
    {rest : List Statement} (hm : m.task = .define name value pos rest) {before run : Run σ}
    (hreact : react obs m before = .of run.seen (m.resume run.memory)) :
    Dives obs (m.calls.length + limit) { run := before, progress := .parked m }
      (Direct.initial call (currentEnv m.globalEnv m.calls) name pos value run) := by
  cases value with
  | literal lexeme =>
    simp only [Direct.initial]
    cases literalValue name pos lexeme with
    | ok v => trivial
    | error d => trivial
  | call callee argument =>
    simp only [resume, hm] at hreact
    simp only [Direct.initial]
    rw [← bind_assoc, Eval.bind_apply, Direct.diagnose_ask_apply]
    cases hresolve : resolveCall run.memory.store (currentEnv m.globalEnv m.calls) callee argument
        pos with
    | error d => trivial
    | ok fv =>
      rw [hresolve] at hreact
      exact hcall m name rest argument fv.1 fv.2 before run hreact
  | hole => trivial

omit hcall in
theorem bindName_dives {depth : Nat} {c : Config σ ε} (env : EnvId) (name : Text) (v : Value)
    (run : Run σ) : Dives obs depth c ((do Direct.bindName env name v; return v) run) := by
  rw [Eval.bind_apply, Direct.bindName_apply]
  cases run.memory.bind env name v with
  | none => trivial
  | some memory => trivial

omit hcall in
theorem declare_dives {depth : Nat} {c : Config σ ε} (env : EnvId) (decl : FunctionDecl)
    (run : Run σ) : Dives obs depth c (Direct.declare env decl run) := by
  rw [Direct.declare_apply]
  cases run.memory.declare env decl with
  | none => trivial
  | some fm => trivial

include hfollows

theorem statement_dives {m : Machine} {s : Statement} {rest : List Statement}
    (hm : m.task = .statement s rest) (run : Run σ) :
    Dives obs (m.calls.length + limit) { run, progress := .parked m }
      (Direct.statement obs call (currentEnv m.globalEnv m.calls) s run) := by
  cases s with
  | define name value pos =>
    refine Dives.announce (by simp [event, hm]) fun run' hreact => ?_
    let m' : Machine := { m with task := .define name value pos rest }
    have hresume : m.resume (ε := ε) run'.memory = (run'.memory, .parked m') := by
      simp only [resume, hm, park, m']
    refine Dives.of_parked hreact hresume (Dives.announce (m := m') rfl fun shown hshown => ?_)
    have hstep := Steps.single obs m' run'
    rw [hshown] at hstep
    have hinitial := (initial_follows hfollows (m := m') rfl shown).prepend hstep
      (Nat.le_add_right _ _)
    exact Dives.bind (initial_dives hcall (m := m') rfl hshown) hinitial fun v run =>
      bindName_dives _ name v run
  | function name parameter body ret pos =>
    refine Dives.announce (by simp [event, hm]) fun run' hreact => ?_
    let decl : FunctionDecl := { name, parameter, body, ret, pos }
    let m' : Machine := { m with task := .declare decl rest }
    have hresume : m.resume (ε := ε) run'.memory = (run'.memory, .parked m') := by
      simp only [resume, hm, park, m', decl]
    exact Dives.of_parked hreact hresume (Dives.announce (m := m') rfl fun shown _ =>
      declare_dives _ decl shown)
  | hole => exact Dives.announce (by simp [event, hm]) fun _ _ => trivial

theorem statements_dives (m : Machine) (ss : List Statement) :
    ∀ (last : Option Value) (run : Run σ),
      Dives obs (m.calls.length + limit) (.of run.seen (m.proceed m.calls last ss run.memory))
        (Direct.statements obs call (currentEnv m.globalEnv m.calls) last ss run) := by
  induction ss with
  | nil => exact fun _ _ => trivial
  | cons s rest ih =>
    intro last run
    let m' : Machine := { m with task := .statement s rest }
    have hproceed : m'.proceed (ε := ε) m'.calls = m.proceed m.calls :=
      proceed_with m m'.task m.calls m.calls
    have hpark : m.proceed (ε := ε) m.calls last (s :: rest) run.memory =
        (run.memory, .parked m') := by
      rw [proceed]
      rfl
    rw [hpark]
    refine Dives.bind (statement_dives hcall hfollows (m := m') rfl run)
      (statement_follows hfollows (m := m') rfl run) fun v run => ?_
    rw [hproceed]
    exact ih (some v) run

theorem statementList_dives {m : Machine} {ss : List Statement} (hm : m.task = .statementList ss)
    (run : Run σ) :
    Dives obs (m.calls.length + limit) { run, progress := .parked m }
      (Direct.statementList obs call (currentEnv m.globalEnv m.calls) ss run) := by
  refine Dives.announce (by simp [event, hm]) fun run' hreact => ?_
  have hresume : m.resume (ε := ε) run'.memory = m.proceed m.calls none ss run'.memory := by
    simp only [resume, hm]
  have hstep := Steps.single obs m run
  rw [hreact, hresume] at hstep
  exact (statements_dives hcall hfollows m ss none run').prepend hstep

theorem functionBody_dives {m : Machine} {a : Activation} {calls : List Activation}
    (hm : m.task = .functionBody a.decl) (hcalls : m.calls = a :: calls) (run : Run σ) :
    Dives obs (m.calls.length + limit) { run, progress := .parked m }
      (Direct.functionBody obs call a.env a.decl run) := by
  have henv : currentEnv m.globalEnv m.calls = a.env := by rw [hcalls]; rfl
  rw [Direct.functionBody_eq]
  refine Dives.announce (by simp [event, hm, henv]) fun run' hreact => ?_
  let m' : Machine := { m with task := .statementList a.decl.body }
  have hresume : m.resume (ε := ε) run'.memory = (run'.memory, .parked m') := by
    simp only [resume, hm, park, m']
  have hdives := statementList_dives hcall hfollows (m := m') rfl run'
  have hbody := statementList_follows hfollows (m := m') rfl run'
  rw [show currentEnv m'.globalEnv m'.calls = a.env from henv] at hdives hbody
  refine Dives.of_parked hreact hresume (Dives.bind hdives hbody fun last run => ?_)
  rw [Direct.answer]
  cases hv : returnValue (ε := ε) run.memory.store a.env a.decl with
  | error why => exact .of_ne fun h => returnValue_ne_tooDeep hv (Except.error.inj h)
  | ok v => trivial

end Evaluator

theorem call_dives (obs : Observer σ ε) (limit : Nat) :
    DivesCalls obs limit (Direct.call obs limit) := by
  induction limit with
  | zero =>
    -- The machine has just been shown, and the evaluator gives up.
    intro m target rest argument f v before run hreact
    exact ⟨0, m, before, .refl _, rfl, congrArg (·.run.seen) hreact⟩
  | succ limit ih =>
    intro m target rest argument f v before run hreact
    simp only [enter] at hreact
    simp only [Direct.call]
    cases hf : f.capture with
    | detached tag => trivial
    | env e =>
      let a : Activation := { decl := f.decl, env := e, target, rest }
      let m' : Machine := { m with task := .functionBody f.decl, calls := a :: m.calls }
      let inside : Run σ := { run with memory := run.memory.beginCall f e argument v }
      have hbody := functionBody_dives ih (call_follows obs limit) (m := m') (a := a) rfl rfl inside
      have hdepth : m'.calls.length + limit = m.calls.length + (limit + 1) := by
        rw [List.length_cons]
        omega
      have hstep := Steps.single obs m before
      rw [hreact, hf] at hstep
      rw [hdepth] at hbody
      have hdives := hbody.prepend hstep
      show Dives obs (m.calls.length + (limit + 1)) _
        ((Direct.functionBody obs (Direct.call obs limit) e f.decl inside).1,
          { (Direct.functionBody obs (Direct.call obs limit) e f.decl inside).2 with
            memory := (Direct.functionBody obs (Direct.call obs limit) e f.decl
              inside).2.memory.endCall f.decl.name e })
      generalize Direct.functionBody obs (Direct.call obs limit) a.env a.decl inside = result at *
      rcases result with ⟨why | w, run⟩
      · cases why <;> exact hdives
      · trivial

/-- An evaluation that met its limit was as deep as it was allowed. -/
theorem evaluate_dives (obs : Observer σ ε) (limit : Nat) (p : Program) (memory : Memory)
    (seen : σ) :
    Dives obs limit { run := { memory, seen }, progress := .parked (init p Memory.globalEnv) }
      (p.evaluate obs limit memory seen) := by
  let m : Task → Machine := fun task =>
    { program := p, globalEnv := Memory.globalEnv, task, calls := [] }
  have hdepth : (m (.statementList p.statements)).calls.length + limit = limit := Nat.zero_add limit
  have hstart : ∀ memory, (m .start).resume (ε := ε) memory = (memory, .parked (m .sourceFile)) :=
    fun _ => rfl
  have hsource : ∀ memory, (m .sourceFile).resume (ε := ε) memory =
      (memory, .parked (m (.statementList p.statements))) :=
    fun _ => rfl
  refine Dives.announce (m := m .start) rfl fun run hreact => ?_
  refine Dives.of_parked hreact (hstart run.memory) ?_
  refine Dives.announce (m := m .sourceFile) rfl fun run hreact => ?_
  refine Dives.of_parked hreact (hsource run.memory) ?_
  have hlist := statementList_dives (call_dives obs limit) (call_follows obs limit)
    (m := m (.statementList p.statements)) rfl run
  rw [hdepth] at hlist
  refine Dives.bind hlist (statementList_follows (call_follows obs limit)
    (m := m (.statementList p.statements)) rfl run) fun last run => ?_
  cases last with
  | some v => trivial
  | none => trivial

end Machine
end Stepwise
