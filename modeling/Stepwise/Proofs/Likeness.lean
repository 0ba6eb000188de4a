/-
Two evaluations side by side.

What an evaluation comes to is decided by the single things that it does: reading a numeral,
resolving a call, binding a name, declaring a function, entering and leaving a call, and finding
the value that a function returns.  A `Likeness` says which values, diagnoses and memories of two
evaluations are taken to be alike, and that each of these things, done to alike memories, comes to
something alike.  Then so do two whole evaluations (`program_tandem`), of programs that are alike up
to their numerals, under two observers that only look on.

The evaluators are followed function by function, for two callers whose calls come to something
alike, and then for their own by induction on the limit.
-/
import Mathlib.Data.List.Forall2
import Mathlib.Data.Option.Basic
import Stepwise.Proofs.Onlookers

namespace Stepwise

open Observer (Sighting)

variable {σ σ' ε α α' β β' κ κ' : Type}

/-! ## Programs that are alike -/

/-- The same initializer, but for a literal. -/
inductive Initializer.Like (lexeme : Text → Text → Prop) : Initializer → Initializer → Prop where
  | literal {l l' : Text} (h : lexeme l l') : Like lexeme (.literal l) (.literal l')
  | call (callee argument : Text) : Like lexeme (.call callee argument) (.call callee argument)
  | hole : Like lexeme .hole .hole

/-- The same statement, but for the literals at any depth. -/
inductive Statement.Like (lexeme : Text → Text → Prop) : Statement → Statement → Prop where
  | define {name : Text} {value value' : Initializer} {pos : Position}
      (h : value.Like lexeme value') : Like lexeme (.define name value pos) (.define name value' pos)
  | function {name parameter : Text} {body body' : List Statement} {ret : ReturnExpr}
      {pos : Position} (h : List.Forall₂ (Like lexeme) body body') :
      Like lexeme (.function name parameter body ret pos) (.function name parameter body' ret pos)
  | hole : Like lexeme .hole .hole

structure FunctionDecl.Like (lexeme : Text → Text → Prop) (d d' : FunctionDecl) : Prop where
  name : d.name = d'.name
  parameter : d.parameter = d'.parameter
  body : List.Forall₂ (Statement.Like lexeme) d.body d'.body
  ret : d.ret = d'.ret
  pos : d.pos = d'.pos

structure Program.Like (lexeme : Text → Text → Prop) (p p' : Program) : Prop where
  statements : List.Forall₂ (Statement.Like lexeme) p.statements p'.statements
  pos : p.pos = p'.pos

/-! ## Endings that are alike -/

/-- Both have a value, and the values go together, or both fail, and the reasons do. -/
inductive EndsLike (bad : κ → κ' → Prop) (good : α → β → Prop) :
    Except κ α → Except κ' β → Prop where
  | ok {a : α} {b : β} (h : good a b) : EndsLike bad good (.ok a) (.ok b)
  | error {why : κ} {why' : κ'} (h : bad why why') : EndsLike bad good (.error why) (.error why')

/-- The same reason, up to the diagnosis.  An observer that only looks on gives none. -/
inductive Stop.Like (diagnosis : Diagnosis → Diagnosis → Prop) : Stop ε → Stop ε → Prop where
  | diagnosed {d d' : Diagnosis} (h : diagnosis d d') :
      Like diagnosis (.diagnosed d) (.diagnosed d')
  | unbindable (name : Text) : Like diagnosis (.unbindable name) (.unbindable name)
  | missing (hole : Hole) : Like diagnosis (.missing hole) (.missing hole)
  | uncaptured : Like diagnosis .uncaptured .uncaptured
  | tooDeep : Like diagnosis .tooDeep .tooDeep

/-- What is taken to be alike, where every single thing that an evaluation does respects it.
Environments correspond by number. -/
structure Likeness where
  lexeme : Text → Text → Prop
  value : Value → Value → Prop
  diagnosis : Diagnosis → Diagnosis → Prop
  memory : Memory → Memory → Prop
  function : ∀ {f f'}, value (.function f) (.function f') →
    f.capture = f'.capture ∧ f.decl.Like lexeme f'.decl
  emptyProgram : ∀ pos, diagnosis (emptyProgram pos) (emptyProgram pos)
  literalValue : ∀ {l l'}, lexeme l l' → ∀ name pos,
    EndsLike diagnosis value (literalValue name pos l) (literalValue name pos l')
  resolveCall : ∀ {m m'}, memory m m' → ∀ e callee argument pos,
    EndsLike diagnosis (fun a a' => value (.function a.1) (.function a'.1) ∧ value a.2 a'.2)
      (resolveCall m.store e callee argument pos) (resolveCall m'.store e callee argument pos)
  returnValue : ∀ {ε : Type} {m m' decl decl'}, memory m m' → decl.Like lexeme decl' → ∀ e,
    EndsLike (Stop.Like diagnosis) value (returnValue (ε := ε) m.store e decl)
      (returnValue (ε := ε) m'.store e decl')
  bind : ∀ {m m' v v'}, memory m m' → value v v' → ∀ e name,
    Option.Rel memory (m.bind e name v) (m'.bind e name v')
  declare : ∀ {m m' decl decl'}, memory m m' → decl.Like lexeme decl' → ∀ e,
    Option.Rel (fun a a' => value a.1 a'.1 ∧ memory a.2 a'.2) (m.declare e decl)
      (m'.declare e decl')
  beginCall : ∀ {m m' f f' v v'}, memory m m' → f.decl.Like lexeme f'.decl → value v v' →
    ∀ e argument, memory (m.beginCall f e argument v) (m'.beginCall f' e argument v')
  endCall : ∀ {m m'}, memory m m' → ∀ name e, memory (m.endCall name e) (m'.endCall name e)

/-- The same event, seen in alike memories. -/
def Likeness.sighting (L : Likeness) (s s' : Sighting) : Prop :=
  s.event = s'.event ∧ ∃ m m' : Memory, L.memory m m' ∧ m.store = s.store ∧ m'.store = s'.store

namespace Direct

/-! ## Parts in tandem -/

/-- Two parts, begun when the events `before` and `before'` had been recorded, have come to
something alike. -/
structure Tandem (L : Likeness) (good : α → β → Prop) (before before' : List Sighting)
    (r : Except (Stop ε) α × Run (σ × List Sighting))
    (r' : Except (Stop ε) β × Run (σ' × List Sighting)) : Prop where
  memory : L.memory r.2.memory r'.2.memory
  events : ∃ w w', r.2.seen.2 = before ++ w ∧ r'.2.seen.2 = before' ++ w' ∧
    List.Forall₂ L.sighting w w'
  outcome : EndsLike (Stop.Like L.diagnosis) good r.1 r'.1

section Tandem

variable {L : Likeness} {R : α → β → Prop} {R' : α' → β' → Prop}

/-- A part that shows no event. -/
theorem Tandem.intro {r : Run (σ × List Sighting)} {q : Run (σ' × List Sighting)}
    {x : Except (Stop ε) α} {y : Except (Stop ε) β} (hm : L.memory r.memory q.memory)
    (h : EndsLike (Stop.Like L.diagnosis) R x y) : Tandem L R r.seen.2 q.seen.2 (x, r) (y, q) :=
  ⟨hm, ⟨[], [], (List.append_nil _).symm, (List.append_nil _).symm, .nil⟩, h⟩

theorem Tandem.bind {x : Eval (σ × List Sighting) ε α} {f : α → Eval (σ × List Sighting) ε α'}
    {y : Eval (σ' × List Sighting) ε β} {g : β → Eval (σ' × List Sighting) ε β'}
    {run : Run (σ × List Sighting)} {run' : Run (σ' × List Sighting)}
    {before before' : List Sighting}
    (hxy : Tandem L R before before' (x run) (y run'))
    (hfg : ∀ a b (r : Run (σ × List Sighting)) (r' : Run (σ' × List Sighting)),
      L.memory r.memory r'.memory → R a b →
      Tandem L R' r.seen.2 r'.seen.2 (f a r) (g b r')) :
    Tandem L R' before before' ((x >>= f) run) ((y >>= g) run') := by
  rw [Eval.bind_apply, Eval.bind_apply]
  obtain ⟨hm, ⟨w, w', hw, hw', hevents⟩, hends⟩ := hxy
  generalize x run = r at *
  generalize y run' = r' at *
  obtain ⟨outcome, r⟩ := r
  obtain ⟨outcome', r'⟩ := r'
  cases hends with
  | error h => exact ⟨hm, ⟨w, w', hw, hw', hevents⟩, .error h⟩
  | @ok a b h =>
    obtain ⟨hm₂, ⟨v, v', hv, hv', hevents₂⟩, hends₂⟩ := hfg a b r r' hm h
    refine ⟨hm₂, ⟨w ++ v, w' ++ v', ?_, ?_, List.rel_append hevents hevents₂⟩, hends₂⟩
    · show (f a r).2.seen.2 = before ++ (w ++ v)
      rw [hv, hw, List.append_assoc]
    · show (g b r').2.seen.2 = before' ++ (w' ++ v')
      rw [hv', hw', List.append_assoc]

theorem Tandem.announce {obs : Observer σ ε} {obs' : Observer σ' ε} (hobs : obs.LooksOn)
    (hobs' : obs'.LooksOn) {kind : EventKind} {env : EnvId} {pos : Option Position}
    {next : Unit → Eval (σ × List Sighting) ε α} {next' : Unit → Eval (σ' × List Sighting) ε β}
    {run : Run (σ × List Sighting)} {run' : Run (σ' × List Sighting)}
    (hm : L.memory run.memory run'.memory)
    (hnext : ∀ (r : Run (σ × List Sighting)) (r' : Run (σ' × List Sighting)),
      L.memory r.memory r'.memory → Tandem L R r.seen.2 r'.seen.2 (next () r) (next' () r')) :
    Tandem L R run.seen.2 run'.seen.2 ((Direct.announce obs.witnessed kind env pos >>= next) run)
      ((Direct.announce obs'.witnessed kind env pos >>= next') run') := by
  rw [announce_bind hobs, announce_bind hobs']
  obtain ⟨hm', ⟨w, w', hw, hw', hevents⟩, hends⟩ := hnext
    (obs.recorded run [shown run.memory.store kind env pos])
    (obs'.recorded run' [shown run'.memory.store kind env pos]) hm
  refine ⟨hm', ⟨shown run.memory.store kind env pos :: w,
    shown run'.memory.store kind env pos :: w', ?_, ?_,
    .cons ⟨rfl, run.memory, run'.memory, hm, rfl, rfl⟩ hevents⟩, hends⟩
  · rw [hw, Observer.recorded, List.append_assoc, List.singleton_append]
  · rw [hw', Observer.recorded, List.append_assoc, List.singleton_append]

end Tandem

/-! ## The evaluators in tandem -/

/-- Two callers whose calls of alike functions with alike arguments come to something alike. -/
def CallsAlike (L : Likeness) (call : Caller (σ × List Sighting) ε)
    (call' : Caller (σ' × List Sighting) ε) : Prop :=
  ∀ (argument : Text) {f f' : Closure} {v v' : Value} {run : Run (σ × List Sighting)}
    {run' : Run (σ' × List Sighting)}, L.memory run.memory run'.memory →
    L.value (.function f) (.function f') → L.value v v' →
    Tandem L L.value run.seen.2 run'.seen.2 (call argument f v run) (call' argument f' v' run')

section Evaluators

variable {L : Likeness} {obs : Observer σ ε} {obs' : Observer σ' ε} (hobs : obs.LooksOn)
  (hobs' : obs'.LooksOn) {call : Caller (σ × List Sighting) ε}
  {call' : Caller (σ' × List Sighting) ε} (hcall : CallsAlike L call call')
  {run : Run (σ × List Sighting)} {run' : Run (σ' × List Sighting)}
  (hm : L.memory run.memory run'.memory)

include hm

theorem diagnose_tandem {R : α → β → Prop} {x : Except Diagnosis α} {y : Except Diagnosis β}
    (h : EndsLike L.diagnosis R x y) :
    Tandem (ε := ε) L R run.seen.2 run'.seen.2 (diagnose x run) (diagnose y run') := by
  cases h with
  | ok h => exact .intro hm (.ok h)
  | error h => exact .intro hm (.error (.diagnosed h))

theorem bindName_tandem (env : EnvId) (name : Text) {v v' : Value} (hv : L.value v v') :
    Tandem (ε := ε) L L.value run.seen.2 run'.seen.2
      ((do bindName env name v; return v) run) ((do bindName env name v'; return v') run') := by
  rw [Eval.bind_apply, Eval.bind_apply, bindName_apply, bindName_apply]
  have hbind := L.bind hm hv env name
  generalize run.memory.bind env name v = bound at *
  generalize run'.memory.bind env name v' = bound' at *
  cases hbind with
  | none => exact .intro hm (.error (.unbindable name))
  | @some memory memory' h =>
    exact Tandem.intro (r := { run with memory }) (q := { run' with memory := memory' }) h (.ok hv)

theorem declare_tandem (env : EnvId) {decl decl' : FunctionDecl}
    (hdecl : decl.Like L.lexeme decl') :
    Tandem (ε := ε) L L.value run.seen.2 run'.seen.2 (declare env decl run)
      (declare env decl' run') := by
  rw [declare_apply, declare_apply, hdecl.name]
  have hdeclare := L.declare hm hdecl env
  generalize run.memory.declare env decl = made at *
  generalize run'.memory.declare env decl' = made' at *
  cases hdeclare with
  | none => exact .intro hm (.error (.unbindable decl'.name))
  | @some a a' h =>
    exact Tandem.intro (r := { run with memory := a.2 }) (q := { run' with memory := a'.2 }) h.2
      (.ok h.1)

include hcall in
theorem initial_tandem (env : EnvId) (name : Text) (pos : Position) {value value' : Initializer}
    (hvalue : value.Like L.lexeme value') :
    Tandem L L.value run.seen.2 run'.seen.2 (initial call env name pos value run)
      (initial call' env name pos value' run') := by
  cases hvalue with
  | literal hl => exact diagnose_tandem hm (L.literalValue hl name pos)
  | call callee argument =>
    simp only [initial]
    rw [← bind_assoc, ← bind_assoc]
    refine Tandem.bind (R := fun a a' => L.value (.function a.1) (.function a'.1) ∧
      L.value a.2 a'.2) ?_ fun a a' r r' hm hvalues => ?_
    · exact diagnose_tandem hm (L.resolveCall hm env callee argument pos)
    · exact hcall argument hm hvalues.1 hvalues.2
  | hole => exact .intro hm (.error (.missing .initializer))

include hobs hobs' hcall

theorem statement_tandem (env : EnvId) {s s' : Statement} (hs : s.Like L.lexeme s') :
    Tandem L L.value run.seen.2 run'.seen.2 (statement obs.witnessed call env s run)
      (statement obs'.witnessed call' env s' run') := by
  cases hs with
  | define hvalue =>
    simp only [statement]
    refine Tandem.announce hobs hobs' hm fun r r' hm => ?_
    refine Tandem.announce hobs hobs' hm fun r r' hm => ?_
    refine (initial_tandem hcall hm env _ _ hvalue).bind fun v v' r r' hm hv => ?_
    exact bindName_tandem hm env _ hv
  | function hbody =>
    simp only [statement]
    refine Tandem.announce hobs hobs' hm fun r r' hm => ?_
    refine Tandem.announce hobs hobs' hm fun r r' hm => ?_
    exact declare_tandem hm env ⟨rfl, rfl, hbody, rfl, rfl⟩
  | hole =>
    simp only [statement]
    refine Tandem.announce hobs hobs' hm fun r r' hm => ?_
    exact .intro hm (.error (.missing .statement))

omit hm in
/-- What the value before the statements was is of no matter, unless there are none. -/
theorem statements_tandem (env : EnvId) {R : Option Value → Option Value → Prop}
    (hR : ∀ v v', L.value v v' → R (some v) (some v')) {ss ss' : List Statement}
    (hss : List.Forall₂ (Statement.Like L.lexeme) ss ss') :
    ∀ (last last' : Option Value) {run : Run (σ × List Sighting)}
      {run' : Run (σ' × List Sighting)}, L.memory run.memory run'.memory →
      (ss = [] → R last last') →
      Tandem L R run.seen.2 run'.seen.2 (statements obs.witnessed call env last ss run)
        (statements obs'.witnessed call' env last' ss' run') := by
  induction hss with
  | nil =>
    intro last last' run run' hm hlast
    exact .intro hm (.ok (hlast rfl))
  | cons hs _ ih =>
    intro last last' run run' hm _
    refine (statement_tandem hobs hobs' hcall hm env hs).bind fun v v' r r' hm hv => ?_
    exact ih (some v) (some v') hm fun _ => hR v v' hv

theorem statementList_tandem (env : EnvId) {ss ss' : List Statement}
    (hss : List.Forall₂ (Statement.Like L.lexeme) ss ss') :
    Tandem L (Option.Rel L.value) run.seen.2 run'.seen.2
      (statementList obs.witnessed call env ss run)
      (statementList obs'.witnessed call' env ss' run') := by
  refine Tandem.announce hobs hobs' hm fun r r' hm => ?_
  exact statements_tandem hobs hobs' hcall env (fun _ _ => .some) hss none none hm fun _ => .none

variable (run run') in
theorem functionBody_tandem (env : EnvId) {decl decl' : FunctionDecl}
    (hdecl : decl.Like L.lexeme decl') :
    Tandem L L.value run.seen.2 run'.seen.2 (functionBody obs.witnessed call env decl run)
      (functionBody obs'.witnessed call' env decl' run') := by
  rw [functionBody_eq, functionBody_eq]
  refine Tandem.announce hobs hobs' hm fun r r' hm => ?_
  refine (statementList_tandem hobs hobs' hcall hm env hdecl.body).bind fun _ _ r r' hm _ => ?_
  exact .intro hm (L.returnValue hm hdecl env)

end Evaluators

section Evaluators

variable {L : Likeness} {obs : Observer σ ε} {obs' : Observer σ' ε} (hobs : obs.LooksOn)
  (hobs' : obs'.LooksOn)
include hobs hobs'

theorem call_tandem (limit : Nat) :
    CallsAlike L (call obs.witnessed limit) (call obs'.witnessed limit) := by
  induction limit with
  | zero =>
    intro argument f f' v v' run run' hm _ _
    exact .intro hm (.error .tooDeep)
  | succ limit ih =>
    intro argument f f' v v' run run' hm hf hv
    obtain ⟨hcapture, hdecl⟩ := L.function hf
    simp only [call, ← hcapture]
    cases f.capture with
    | detached tag => exact .intro hm (.error .uncaptured)
    | env e =>
      obtain ⟨hm', hevents, hends⟩ := functionBody_tandem hobs hobs' ih
        { run with memory := run.memory.beginCall f e argument v }
        { run' with memory := run'.memory.beginCall f' e argument v' }
        (L.beginCall hm hdecl hv e argument) e hdecl
      refine ⟨?_, hevents, hends⟩
      have hended := L.endCall hm' f.decl.name e
      nth_rewrite 2 [hdecl.name] at hended
      exact hended

theorem program_tandem (limit : Nat) (env : EnvId) {p p' : Program} (hp : p.Like L.lexeme p')
    (run : Run (σ × List Sighting)) (run' : Run (σ' × List Sighting))
    (hm : L.memory run.memory run'.memory) :
    Tandem L L.value run.seen.2 run'.seen.2 (program obs.witnessed limit env p run)
      (program obs'.witnessed limit env p' run') := by
  simp only [program, ← hp.pos]
  refine Tandem.announce hobs hobs' hm fun r r' hm => ?_
  refine Tandem.announce hobs hobs' hm fun r r' hm => ?_
  refine (statementList_tandem hobs hobs' (call_tandem hobs hobs' limit) hm env hp.statements).bind
    fun last last' r r' hm hlast => ?_
  cases hlast with
  | none => exact .intro hm (.error (.diagnosed (L.emptyProgram p.pos)))
  | some hv => exact .intro hm (.ok hv)

end Evaluators
end Direct
end Stepwise
