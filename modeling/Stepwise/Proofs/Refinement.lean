/-
Evaluation agrees with closures as long as no function is entered twice.

A function keeps one environment for all its calls, so a function that is called while it is
running sees more than it captured.  If that never happens in the course of a program, the
evaluator cannot be told from the one that makes a new environment for every call: same
value or same failure, same events, and the same bindings in every frame.

The proof follows the evaluator.  That no function is entered twice is known of the machine, so
each part of the evaluation is taken at the configuration in which the machine does it, and
`Safe` is what is known of that configuration.
-/
import Stepwise.Proofs.Scenes
import Stepwise.Proofs.StoreRelation

namespace Stepwise

variable {σ ε α β α' β' : Type}

/-! ## Parts of an evaluation -/

open Machine

/-- From here on no function is entered while it is running. -/
def Safe (obs : Observer σ ε) (c : Config σ ε) : Prop :=
  ∀ n d m, Steps obs n c d → d.progress = .parked m → (m.calls.map (·.env)).Nodup

theorem Safe.steps {obs : Observer σ ε} {c d : Config σ ε} {n : Nat} (h : Safe obs c)
    (hsteps : Steps obs n c d) : Safe obs d :=
  fun k e m hk hm => h (n + k) e m (hsteps.trans hk) hm

theorem Safe.after {obs : Observer σ ε} {limit : Nat} {calls : List Activation} {c : Config σ ε}
    {after : α → Run σ → Config σ ε} {x : Except (Stop ε) α × Run σ} {a : α} {run : Run σ}
    (h : Safe obs c) (hfollows : Follows obs limit calls c after x) (hx : x = (.ok a, run)) :
    Safe obs (after a run) := by
  subst hx
  obtain ⟨n, hsteps⟩ := hfollows
  exact h.steps hsteps

/-- The innermost of the running `calls` has the environment `env`, and the environments that
belong to no running call are not in use. -/
structure Stands (globalEnv : EnvId) (calls : List Activation)
    (active : EnvId → Option (List FrameId)) (env : Lexical.Env) : Prop where
  global : globalEnv = Memory.globalEnv
  current : active (currentEnv globalEnv calls) = some env.chain
  idle : ∀ e, e ∉ calls.map (·.env) → e ≠ globalEnv → active e = none

/-- What the reference evaluation keeps of an event. -/
def Event.outline (ev : Event) : EventKind × Option Position := (ev.kind, ev.pos)

/-- Two evaluations under way. -/
structure Synced (log : σ → List (EventKind × Option Position) → Prop)
    (active : EnvId → Option (List FrameId)) (captured : List (List FrameId)) (run : Run σ)
    (t : Lexical.State) : Prop where
  related : Related active captured run.memory.store t
  events : log run.seen t.events

/-- Two parts of an evaluation have come to the same. -/
def Agrees (log : σ → List (EventKind × Option Position) → Prop)
    (active : EnvId → Option (List FrameId)) (captured : List (List FrameId))
    (good : List (List FrameId) → α → β → Prop) (x : Except (Stop ε) α × Run σ)
    (y : Except Lexical.Failure β × Lexical.State) : Prop :=
  ∃ more, Synced log active (captured ++ more) x.2 y.2 ∧
    SameOutcome (good (captured ++ more)) x.1 y.1

section Agrees

variable {log : σ → List (EventKind × Option Position) → Prop}
  {active : EnvId → Option (List FrameId)} {captured : List (List FrameId)}
  {good : List (List FrameId) → α → β → Prop} {good' : List (List FrameId) → α' → β' → Prop}
  {run : Run σ} {t : Lexical.State}

/-- A part in which no function was made. -/
theorem Agrees.intro {a : Except (Stop ε) α} {b : Except Lexical.Failure β}
    (hsync : Synced log active captured run t) (h : SameOutcome (good captured) a b) :
    Agrees log active captured good (a, run) (b, t) := by
  refine ⟨[], ?_⟩
  rw [List.append_nil]
  exact ⟨hsync, h⟩

theorem Agrees.bind {x : Eval σ ε α} {f : α → Eval σ ε α'} {y : Lexical.Eval β}
    {g : β → Lexical.Eval β'} (hxy : Agrees log active captured good (x run) (y t))
    (hfg : ∀ a b run' t' captured', x run = (.ok a, run') → Synced log active captured' run' t' →
      good captured' a b → Agrees log active captured' good' (f a run') (g b t')) :
    Agrees log active captured good' ((x >>= f) run) ((y >>= g) t) := by
  obtain ⟨more, hsync, hsame⟩ := hxy
  rw [Eval.bind_apply, Eval.bind_apply]
  rcases hx : x run with ⟨why | a, run'⟩
  · rcases hy : y t with ⟨failure | b, t'⟩
    · rw [hx, hy] at hsync hsame
      exact ⟨more, hsync, hsame⟩
    · rw [hx, hy] at hsame
      exact absurd hsame id
  · rcases hy : y t with ⟨failure | b, t'⟩
    · rw [hx, hy] at hsame
      exact absurd hsame id
    · rw [hx, hy] at hsync hsame
      obtain ⟨more', hsync', hsame'⟩ := hfg a b run' t' _ hx hsync hsame
      refine ⟨more ++ more', ?_⟩
      rw [← List.append_assoc]
      exact ⟨hsync', hsame'⟩

theorem Agrees.announce {obs : Observer σ ε} (hobs : obs.Passive) (hun : obs.Unstopping)
    (hlog : obs.Logs (fun ev _ => ev.outline) log) {m : Machine} {kind : EventKind} {env : EnvId}
    {pos : Option Position} {next : Unit → Eval σ ε α} {next' : Unit → Lexical.Eval β}
    (hm : m.event = { kind, env, pos }) (hsafe : Safe obs { run, progress := .parked m })
    (hsync : Synced log active captured run t)
    (hnext : ∀ run t, Safe obs (.of run.seen (m.resume run.memory)) →
      Synced log active captured run t →
      Agrees log active captured good (next () run) (next' () t)) :
    Agrees log active captured good ((Direct.announce obs kind env pos >>= next) run)
      ((Lexical.announce kind pos >>= next') t) := by
  have hstep := hsafe.steps (Steps.single obs m run)
  unfold react at hstep
  rw [Eval.bind_apply, Eval.bind_apply, Direct.announce_apply]
  rw [hm] at hstep
  simp only [hobs _ run.memory.store run.seen, hun _ _ _] at hstep ⊢
  exact hnext _ _ hstep ⟨hsync.related.announced _, hlog _ _ _ _ hsync.events⟩

end Agrees

/-! ## The evaluator -/

/-- Two ways to carry out a call that come to the same. -/
def CallsAgree (obs : Observer σ ε) (log : σ → List (EventKind × Option Position) → Prop)
    (call : Direct.Caller σ ε) (call' : Lexical.Caller) : Prop :=
  ∀ {m : Machine} {target : Text} {rest : List Statement} {argument : Text} {f : Closure}
    {g : Lexical.Closure} {v : Value} {w : Lexical.Value} {run : Run σ} {t : Lexical.State}
    {active : EnvId → Option (List FrameId)} {captured : List (List FrameId)} {env : Lexical.Env},
    Safe obs (.of run.seen (m.enter target rest argument f v run.memory)) →
    Stands m.globalEnv m.calls active env → Synced log active captured run t →
    Matches captured (.function f) (.function g) → Matches captured v w →
    Agrees log active captured Matches (call argument f v run) (call' g w t)

section Evaluator

variable {obs : Observer σ ε} (hobs : obs.Passive) (hun : obs.Unstopping)
  {log : σ → List (EventKind × Option Position) → Prop}
  (hlog : obs.Logs (fun ev _ => ev.outline) log) {limit : Nat}
  {call : Direct.Caller σ ε} {call' : Lexical.Caller}
  (hcall : CallsAgree obs log call call') (hfollows : FollowsCalls obs limit call)
  {m : Machine} {active : EnvId → Option (List FrameId)} {captured : List (List FrameId)}
  {env : Lexical.Env} (hstands : Stands m.globalEnv m.calls active env)
  {run : Run σ} {t : Lexical.State}

include hcall hstands in
theorem initial_agrees {name : Text} {value : Initializer} {pos : Position}
    {rest : List Statement} (hm : m.task = .define name value pos rest)
    (hsafe : Safe obs (.of run.seen (m.resume run.memory)))
    (hsync : Synced log active captured run t) :
    Agrees log active captured Matches
      (Direct.initial call (currentEnv m.globalEnv m.calls) name pos value run)
      (Lexical.initial call' env name pos value t) := by
  cases value with
  | literal lexeme =>
    show Agrees _ _ _ _ (Direct.diagnose (literalValue name pos lexeme) run)
      (Lexical.literalValue name pos lexeme, t)
    unfold literalValue Lexical.literalValue
    cases Numeral.read lexeme with
    | ok x => exact .intro hsync rfl
    | error why => exact .intro hsync rfl
  | call callee argument =>
    have hresolve := resolveCall_agrees (ε := ε) hsync.related hstands.current callee argument pos
    have hpart : Agrees (ε := ε) log active captured
        (fun captured a b => Matches captured (.function a.1) (.function b.1) ∧
          Matches captured a.2 b.2)
        ((do Direct.diagnose (← Direct.ask fun s =>
          resolveCall s (currentEnv m.globalEnv m.calls) callee argument pos)) run)
        (Lexical.answer (Lexical.resolveCall · env callee argument pos) t) := by
      rw [Direct.diagnose_ask_apply]
      exact .intro hsync hresolve
    simp only [Direct.initial, Lexical.initial]
    rw [← bind_assoc]
    refine hpart.bind fun fv gw run' t' captured' hrun hsync' hfg => ?_
    rw [Direct.diagnose_ask_apply] at hrun
    obtain ⟨hf, rfl⟩ := Prod.mk.inj hrun
    have hresume : m.resume (ε := ε) run.memory =
        m.enter name rest argument fv.1 fv.2 run.memory := by
      cases hr : resolveCall run.memory.store (currentEnv m.globalEnv m.calls) callee argument
          pos with
      | error d =>
        rw [hr] at hf
        cases hf
      | ok fv' =>
        rw [hr] at hf
        cases hf
        simp only [resume, hm, hr]
    rw [hresume] at hsafe
    exact hcall hsafe hstands hsync' hfg.1 hfg.2
  | hole => exact .intro hsync rfl

include hstands in
theorem bindName_agrees {name : Text} {v : Value} {w : Lexical.Value}
    (hsync : Synced log active captured run t) (hv : Matches captured v w) :
    Agrees (ε := ε) log active captured Matches
      ((do Direct.bindName (currentEnv m.globalEnv m.calls) name v; return v) run)
      ((do Lexical.bindName env name w; return w) t) := by
  obtain ⟨bound, hbound⟩ : ∃ bound, run.memory.store.bind (currentEnv m.globalEnv m.calls) name v =
      some bound :=
    ⟨_, Store.bind_of_chain (hsync.related.chain_of_active hstands.current) name v⟩
  rw [Eval.bind_apply, Eval.bind_apply, Direct.bindName_apply, Memory.bind, hbound]
  exact .intro ⟨hsync.related.bind hstands.current hbound hv, hsync.events⟩ hv

include hstands in
theorem declare_agrees (decl : FunctionDecl) (hsync : Synced log active captured run t) :
    Agrees (ε := ε) log active captured Matches
      (Direct.declare (currentEnv m.globalEnv m.calls) decl run) (Lexical.declare env decl t) := by
  obtain ⟨bound, hbound⟩ : ∃ bound, run.memory.store.bind (currentEnv m.globalEnv m.calls)
      decl.name (run.memory.declared decl) = some bound :=
    ⟨_, Store.bind_of_chain (hsync.related.chain_of_active hstands.current) decl.name _⟩
  rw [Direct.declare_apply, Memory.declare_eq, hbound]
  exact ⟨[env.chain], ⟨hsync.related.declare hstands.current hbound, hsync.events⟩,
    hsync.related.matches_declared env decl⟩

include hobs hun hlog hcall hstands

theorem statement_agrees {s : Statement} {rest : List Statement} (hm : m.task = .statement s rest)
    (hsafe : Safe obs { run, progress := .parked m })
    (hsync : Synced log active captured run t) :
    Agrees log active captured Matches
      (Direct.statement obs call (currentEnv m.globalEnv m.calls) s run)
      (Lexical.statement call' env s t) := by
  cases s with
  | define name value pos =>
    refine Agrees.announce hobs hun hlog (by simp [event, hm]) hsafe hsync
      fun run t hsafe hsync => ?_
    let m' : Machine := { m with task := .define name value pos rest }
    have hresume : m.resume (ε := ε) run.memory = (run.memory, .parked m') := by
      simp only [resume, hm, park, m']
    rw [hresume] at hsafe
    refine Agrees.announce hobs hun hlog (m := m') rfl hsafe hsync fun run t hsafe hsync => ?_
    refine (initial_agrees hcall (m := m') hstands rfl hsafe hsync).bind
      fun v w run t captured _ hsync hv => ?_
    exact bindName_agrees hstands hsync hv
  | function name parameter body ret pos =>
    refine Agrees.announce hobs hun hlog (by simp [event, hm]) hsafe hsync
      fun run t hsafe hsync => ?_
    let m' : Machine := { m with task := .declare { name, parameter, body, ret, pos } rest }
    have hresume : m.resume (ε := ε) run.memory = (run.memory, .parked m') := by
      simp only [resume, hm, park, m']
    rw [hresume] at hsafe
    refine Agrees.announce hobs hun hlog (m := m') rfl hsafe hsync fun run t _ hsync => ?_
    exact declare_agrees hstands _ hsync
  | hole =>
    refine Agrees.announce hobs hun hlog (by simp [event, hm]) hsafe hsync fun run t _ hsync => ?_
    exact .intro hsync rfl

include hfollows

theorem statements_agrees (ss : List Statement) :
    ∀ {last : Option Value} {last' : Option Lexical.Value} {run : Run σ} {t : Lexical.State}
      {captured : List (List FrameId)},
      Safe obs (.of run.seen (m.proceed m.calls last ss run.memory)) →
      Synced log active captured run t → Option.Rel (Matches captured) last last' →
      Agrees log active captured (fun captured => Option.Rel (Matches captured))
        (Direct.statements obs call (currentEnv m.globalEnv m.calls) last ss run)
        (Lexical.statements call' env last' ss t) := by
  induction ss with
  | nil =>
    intro last last' run t captured _ hsync hlast
    exact .intro hsync hlast
  | cons s rest ih =>
    intro last last' run t captured hsafe hsync _
    let m' : Machine := { m with task := .statement s rest }
    have hproceed : m'.proceed (ε := ε) m'.calls = m.proceed m.calls :=
      proceed_with m m'.task m.calls m.calls
    have hpark : m.proceed (ε := ε) m.calls last (s :: rest) run.memory =
        (run.memory, .parked m') := by
      rw [proceed]
      rfl
    rw [hpark] at hsafe
    refine (statement_agrees hobs hun hlog hcall (m := m') hstands rfl hsafe hsync).bind
      fun v w run' t' captured' hrun hsync' hv => ?_
    have hafter := hsafe.after (statement_follows hfollows (m := m') rfl run) hrun
    simp only [hproceed] at hafter
    exact ih hafter hsync' (.some hv)

theorem statementList_agrees {ss : List Statement} (hm : m.task = .statementList ss)
    (hsafe : Safe obs { run, progress := .parked m })
    (hsync : Synced log active captured run t) :
    Agrees log active captured (fun captured => Option.Rel (Matches captured))
      (Direct.statementList obs call (currentEnv m.globalEnv m.calls) ss run)
      (Lexical.statementList call' env ss t) := by
  refine Agrees.announce hobs hun hlog (by simp [event, hm]) hsafe hsync fun run t hsafe hsync => ?_
  have hresume : m.resume (ε := ε) run.memory = m.proceed m.calls none ss run.memory := by
    simp only [resume, hm]
  rw [hresume] at hsafe
  exact statements_agrees hobs hun hlog hcall hfollows hstands ss hsafe hsync .none

theorem functionBody_agrees {decl : FunctionDecl} (hm : m.task = .functionBody decl)
    (hsafe : Safe obs { run, progress := .parked m })
    (hsync : Synced log active captured run t) :
    Agrees log active captured Matches
      (Direct.functionBody obs call (currentEnv m.globalEnv m.calls) decl run)
      (Lexical.functionBody call' env decl t) := by
  rw [Direct.functionBody_eq]
  refine Agrees.announce hobs hun hlog (by simp [event, hm]) hsafe hsync fun run t hsafe hsync => ?_
  let m' : Machine := { m with task := .statementList decl.body }
  have hresume : m.resume (ε := ε) run.memory = (run.memory, .parked m') := by
    simp only [resume, hm, park, m']
  rw [hresume] at hsafe
  refine (statementList_agrees hobs hun hlog hcall hfollows (m := m') hstands rfl hsafe hsync).bind
    fun _ _ run t captured _ hsync _ => ?_
  exact .intro hsync (returnValue_agrees hsync.related hstands.current decl)

end Evaluator

section Passive

variable {obs : Observer σ ε} (hobs : obs.Passive) (hun : obs.Unstopping)
  {log : σ → List (EventKind × Option Position) → Prop}
  (hlog : obs.Logs (fun ev _ => ev.outline) log)
include hobs hun hlog

theorem call_agrees (limit : Nat) :
    CallsAgree obs log (Direct.call obs limit) (Lexical.call limit) := by
  induction limit with
  | zero =>
    intro m target rest argument f g v w run t active captured env _ _ hsync _ _
    exact .intro hsync rfl
  | succ limit ih =>
    intro m target rest argument f g v w run t active captured env hsafe hstands hsync hf hv
    obtain ⟨hdecl, hcapture, hpos, hcaptured⟩ := hf
    simp only [enter, hcapture] at hsafe
    let a : Activation := { decl := f.decl, env := g.id, target, rest }
    let m' : Machine := { m with task := .functionBody f.decl, calls := a :: m.calls }
    -- The machine is parked inside the call, so the function was not running before.
    have hnodup : (g.id :: m.calls.map (·.env)).Nodup := hsafe 0 _ m' (.refl _) rfl
    have hidle : active g.id = none :=
      hstands.idle g.id (List.nodup_cons.mp hnodup).1 (hstands.global ▸ Nat.ne_of_gt hpos)
    let inside : Run σ :=
      { run with memory := run.memory.beginCall f g.id argument v }
    let env' : Lexical.Env := { own := t.frames.size, outer := g.captured }
    have hstands' : Stands m'.globalEnv m'.calls (inUse active g.id env'.chain) env' := by
      refine ⟨hstands.global, if_pos rfl, fun e he hglobal => ?_⟩
      obtain ⟨hne, he⟩ := List.ne_and_not_mem_of_not_mem_cons he
      rw [inUse, if_neg hne]
      exact hstands.idle e he hglobal
    have hsync' : Synced log (inUse active g.id env'.chain) captured inside
        (t.push f.decl.parameter w) := by
      have hpush : Related (inUse active g.id (run.memory.store.frames.size :: g.captured)) captured
          (run.memory.store.push g.id f.decl.parameter v) (t.push f.decl.parameter w) :=
        hsync.related.push hidle hcaptured hv
      rw [← hsync.related.frames] at hpush
      exact ⟨hpush, hsync.events⟩
    have hbody := functionBody_agrees hobs hun hlog ih (call_follows obs limit) (m := m')
      hstands' rfl hsafe hsync'
    obtain ⟨more, hsync'', hsame⟩ := hbody
    have hcaptured' : (captured ++ more)[g.id]? = some g.captured := by
      obtain ⟨hlt, -⟩ := List.getElem?_eq_some_iff.mp hcaptured
      rw [List.getElem?_append_left hlt]
      exact hcaptured
    have hpopped := hsync''.related.popped hidle hcaptured'
    rw [← Memory.store_endCall _ f.decl.name] at hpopped
    simp only [Direct.call, hcapture, Lexical.call, ← hdecl]
    exact ⟨more, ⟨hpopped, hsync''.events⟩, hsame⟩

theorem program_agrees (limit : Nat) (p : Program) {run : Run σ} {t : Lexical.State}
    {captured : List (List FrameId)}
    (hsafe : Safe obs { run, progress := .parked (init p Memory.globalEnv) })
    (hsync : Synced log inUseAtTop captured run t) :
    Agrees log inUseAtTop captured Matches (Direct.program obs limit Memory.globalEnv p run)
      (Lexical.program limit p t) := by
  let m : Task → Machine := fun task =>
    { program := p, globalEnv := Memory.globalEnv, task, calls := [] }
  have hstands : Stands Memory.globalEnv [] inUseAtTop { own := 0, outer := [] } :=
    ⟨rfl, rfl, fun _ _ => inUseAtTop_of_ne⟩
  refine Agrees.announce hobs hun hlog (m := m .start) rfl hsafe hsync fun run t hsafe hsync => ?_
  refine Agrees.announce hobs hun hlog (m := m .sourceFile) rfl hsafe hsync
    fun run t hsafe hsync => ?_
  refine (statementList_agrees hobs hun hlog (call_agrees hobs hun hlog limit)
    (call_follows obs limit) (m := m (.statementList p.statements)) hstands rfl hsafe hsync).bind
    fun last last' run t captured _ hsync hlast => ?_
  cases hlast with
  | none => exact .intro hsync rfl
  | some hv => exact .intro hsync hv

end Passive

/-! ## Whole programs -/

/-- No function is called while a call of the same function is running. -/
def Program.NeverReentered (p : Program) : Prop :=
  ∀ i sc, p.sceneAt .fresh i = some sc → (sc.machine.calls.map (·.env)).Nodup

theorem Program.NeverReentered.safe {p : Program} (hp : p.NeverReentered) {obs : Observer σ ε}
    (hobs : obs.Passive) (seen : σ) :
    Safe obs
      { run := { memory := .fresh, seen }
        progress := .parked (init p Memory.globalEnv) } := by
  intro n d m hsteps hm
  let log : σ → List Observer.Sighting → Prop := fun _ _ => True
  have hlog : obs.Logs Observer.Sighting.mk log := fun _ _ _ _ _ => trivial
  have hseen : log seen [] := trivial
  obtain ⟨-, hscene⟩ := Scene.steps_scenes hobs hlog (Scene.start p .fresh) [] hseen hsteps
  rw [hm] at hscene
  obtain ⟨sc, hsc, hd⟩ := hscene
  rw [hd] at hm
  cases hm
  exact hp n sc hsc

/-- The evaluation of a program and the reference evaluation, for observers of which something
is known that they have seen. -/
theorem Program.NeverReentered.evaluate_agrees {p : Program} (hp : p.NeverReentered)
    {obs : Observer σ ε} (hobs : obs.Passive) (hun : obs.Unstopping)
    {log : σ → List (EventKind × Option Position) → Prop}
    (hlog : obs.Logs (fun ev _ => ev.outline) log) (limit : Nat) {seen : σ} (hseen : log seen []) :
    ∃ captured, (p.evaluate obs limit .fresh seen).2.memory.store.chains.toList = captured ∧
      Related inUseAtTop captured (p.evaluate obs limit .fresh seen).2.memory.store
        (Lexical.evaluate p limit).2 ∧
      log (p.evaluate obs limit .fresh seen).2.seen (Lexical.evaluate p limit).2.events ∧
      SameOutcome (Matches captured) (p.evaluate obs limit .fresh seen).1
        (Lexical.evaluate p limit).1 := by
  have hsync : Synced log inUseAtTop [[0]] ⟨.fresh, seen⟩ {} := ⟨.fresh, hseen⟩
  obtain ⟨more, ⟨hrelated, hevents⟩, hsame⟩ :=
    program_agrees hobs hun hlog limit p (hp.safe hobs seen) hsync
  exact ⟨[0] :: more, hrelated.chains_eq, hrelated, hevents, hsame⟩

/-- An evaluation, with all that was seen of it, and the reference evaluation have come to the
same.  Frames correspond by number, and functions by the number of their environment, which
consists of the frames that the closure captured. -/
structure Reproduces (result : Except (Stop ε) Value × Run σ)
    (sightings : List Observer.Sighting)
    (reference : Except Lexical.Failure Lexical.Value × Lexical.State) : Prop where
  outcome : SameOutcome (Matches result.2.memory.store.chains.toList) result.1 reference.1
  events : sightings.map (·.event.outline) = reference.2.events
  frame : ∀ i name, Option.Rel (Matches result.2.memory.store.chains.toList)
    ((result.2.memory.store.frame i).get? name) ((reference.2.frame i).lookup name)

/-- If no function of a program is entered while it is running, its evaluation has the value or
the failure of the reference evaluation, passes the same events, and leaves the same bindings in
every frame, the global one included. -/
theorem evaluate_reproduces_lexical {p : Program} (hp : p.NeverReentered) {obs : Observer σ ε}
    (hobs : obs.Passive) (hun : obs.Unstopping) (limit : Nat) (seen : σ) :
    Reproduces (p.evaluate obs limit .fresh seen) (p.sightings obs limit .fresh seen)
      (Lexical.evaluate p limit) := by
  have hlog : obs.Logs (fun ev _ => ev.outline) fun _ _ => True := fun _ _ _ _ _ => trivial
  obtain ⟨captured, rfl, hrelated, -, hsame⟩ := hp.evaluate_agrees hobs hun hlog limit trivial
  have hpassive : obs.witnessed.Passive := fun ev s seen => hobs ev s seen.1
  have hunstopping : obs.witnessed.Unstopping := fun ev s seen => hun ev s seen.1
  have hwitnessed : obs.witnessed.Logs (fun ev _ => ev.outline)
      fun seen events => seen.2.map (·.event.outline) = events := by
    intro ev s seen events h
    subst h
    exact List.map_append
  obtain ⟨-, -, -, hevents, -⟩ := hp.evaluate_agrees hpassive hunstopping hwitnessed limit
    (show ((seen, []) : σ × List Observer.Sighting).2.map (·.event.outline) = [] from rfl)
  exact ⟨hsame, hevents, hrelated.frame⟩

/-- The function `get` outlives the call of `make` in which it is declared, and reads the
parameter of that call when it is called itself. -/
def closureKept : Program :=
  .numbered [
    .function "id" "z" [] (.name "z") 0,
    .function "make" "x" [.function "get" "y" [] (.name "x") 10] (.name "get") 0,
    .define "g" (.call "make" "id") 0,
    .define "h" (.call "g" "g") 0] 0

theorem closureKept_neverReentered : closureKept.NeverReentered := by
  intro i sc hsc
  have hlast : closureKept.sceneAt .fresh 17 = none := by
    have : (closureKept.sceneAt .fresh 17).isNone = true := by decide +kernel
    exact Option.isNone_iff_eq_none.mp this
  have hall : (List.range 17).all (fun i => (closureKept.sceneAt .fresh i).all fun sc =>
      decide (sc.machine.calls.map (·.env)).Nodup) = true := by
    decide +kernel
  by_cases hi : i < 17
  · have hscene := List.all_eq_true.mp hall i (List.mem_range.mpr hi)
    rw [hsc] at hscene
    exact of_decide_eq_true hscene
  · have hnone : closureKept.sceneAt .fresh i = none :=
      Scene.after_of_le hlast (Nat.le_of_not_lt hi)
    cases hsc.symm.trans hnone

theorem closureKept_reproduces_lexical :
    closureKept.NeverReentered ∧
      (closureKept.evaluate (Observer.silent (ε := Empty)) 1 .fresh ()).1.isOk = true ∧
      Reproduces (closureKept.evaluate (Observer.silent (ε := Empty)) 1 .fresh ())
        (closureKept.sightings (Observer.silent (ε := Empty)) 1 .fresh ())
        (Lexical.evaluate closureKept 1) := by
  have hpassive : (Observer.silent (ε := Empty)).Passive := fun _ _ _ => rfl
  have hun : (Observer.silent (ε := Empty)).Unstopping := fun _ _ _ => rfl
  refine ⟨closureKept_neverReentered, by decide +kernel, ?_⟩
  exact evaluate_reproduces_lexical closureKept_neverReentered hpassive hun 1 ()

end Stepwise
