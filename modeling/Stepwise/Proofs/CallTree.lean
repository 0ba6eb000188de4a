/-
The events of an evaluation are those of its call tree, in order.

Which events follow one another is said by a grammar.  A word of it for some statements has, for
each of them in turn, the events of that statement; if the statement defines a variable by a call
that can be resolved, then these go on with a word for the body of the function that is called.  So
a derivation of a word is a call tree, and its word is what one reads on a walk through the tree.

A word is complete, or it is cut at a statement or at a return expression that fails.  The words
are indexed by how many calls may still be entered, one inside another; where none may, the word
is cut at the call.

`program_emits` says that an evaluation under an observer who only looks on emits a word, and
`events_are_callTree` that it emits a complete one exactly if it has a value.
-/
import Stepwise.Proofs.Safety

namespace Stepwise

open Observer (Sighting)

variable {σ ε α β : Type}

/-! ## The grammar -/

/-- An event that stands at a position of the source or at none. -/
def shown (s : Store) (kind : EventKind) (env : EnvId) (pos : Option Position) : Sighting :=
  { event := { kind, env, pos }, store := s }

/-- How a word ends: it is complete, or it is cut for a reason. -/
abbrev Ending (ε : Type) := Option (Stop ε)

mutual

/-- The events of statements in an environment, one statement after another. -/
inductive StatementsWord {ε : Type} :
    (limit : Nat) → EnvId → List Statement → Ending ε → List Sighting → Prop
  | nil {limit : Nat} {env : EnvId} : StatementsWord limit env [] none []
  | cons {limit : Nat} {env : EnvId} {s : Statement} {ss : List Statement} {ending : Ending ε}
      {w w' : List Sighting} : StatementWord limit env s none w →
      StatementsWord limit env ss ending w' → StatementsWord limit env (s :: ss) ending (w ++ w')
  | cut {limit : Nat} {env : EnvId} {s : Statement} {ss : List Statement} {why : Stop ε}
      {w : List Sighting} : StatementWord limit env s (some why) w →
      StatementsWord limit env (s :: ss) (some why) w

/-- The events of one statement: that there is one, which one it is, and what its value takes. -/
inductive StatementWord {ε : Type} :
    (limit : Nat) → EnvId → Statement → Ending ε → List Sighting → Prop
  | function {limit : Nat} {env : EnvId} {name parameter : Text} {body : List Statement}
      {ret : ReturnExpr} {pos : Position} (s : Store) :
      StatementWord limit env (.function name parameter body ret pos) none
        [shown s .statement env none, shown s .functionDeclaration env (some pos)]
  | define {limit : Nat} {env : EnvId} {name : Text} {value : Initializer} {pos : Position}
      {s : Store} {ending : Ending ε} {w : List Sighting} :
      InitializerWord limit s env name pos value ending w →
      StatementWord limit env (.define name value pos) ending
        (shown s .statement env none :: shown s .variableDeclaration env (some pos) :: w)

/-- The events of finding the value of a variable in the store `s`: none, unless it is called for
and both the function and the argument are found. -/
inductive InitializerWord {ε : Type} : (limit : Nat) → (s : Store) → EnvId → (name : Text) →
    Position → Initializer → Ending ε → List Sighting → Prop
  | literal {limit : Nat} {s : Store} {env : EnvId} {name lexeme : Text} {pos : Position}
      {v : Value} : literalValue name pos lexeme = .ok v →
      InitializerWord limit s env name pos (.literal lexeme) none []
  | badLiteral {limit : Nat} {s : Store} {env : EnvId} {name lexeme : Text} {pos : Position}
      {d : Diagnosis} : literalValue name pos lexeme = .error d →
      InitializerWord limit s env name pos (.literal lexeme) (some (.diagnosed d)) []
  | unresolved {limit : Nat} {s : Store} {env : EnvId} {name callee argument : Text}
      {pos : Position} {d : Diagnosis} :
      ((∀ f, s.lookup env callee ≠ some (.function f)) ∨ s.lookup env argument = none) →
      InitializerWord limit s env name pos (.call callee argument) (some (.diagnosed d)) []
  | call {limit : Nat} {s : Store} {env : EnvId} {name callee argument : Text} {pos : Position}
      {f : Closure} {v : Value} {ending : Ending ε} {w : List Sighting} :
      s.lookup env callee = some (.function f) → s.lookup env argument = some v →
      CallWord limit s f v ending w →
      InitializerWord limit s env name pos (.call callee argument) ending w

/-- The events of a call of `f` with the value `v`. -/
inductive CallWord {ε : Type} :
    (limit : Nat) → (s : Store) → (f : Closure) → (v : Value) → Ending ε → List Sighting → Prop
  | tooDeep {s : Store} {f : Closure} {v : Value} : CallWord 0 s f v (some .tooDeep) []
  | entered {limit : Nat} {s : Store} {f : Closure} {v : Value} {e : EnvId} {ending : Ending ε}
      {w : List Sighting} : f.capture = .env e →
      BodyWord limit (s.push e f.decl.parameter v) e f.decl ending w →
      CallWord (limit + 1) s f v ending w

/-- The events of a function body.  A body whose return expression fails has had all its events. -/
inductive BodyWord {ε : Type} :
    (limit : Nat) → (s : Store) → EnvId → FunctionDecl → Ending ε → List Sighting → Prop
  | statements {limit : Nat} {s : Store} {e : EnvId} {decl : FunctionDecl} {ending : Ending ε}
      {w : List Sighting} : StatementsWord limit e decl.body ending w →
      BodyWord limit s e decl ending
        (shown s .functionBody e none :: shown s .statementList e none :: w)
  | badReturn {limit : Nat} {s t : Store} {e : EnvId} {decl : FunctionDecl} {why : Stop ε}
      {w : List Sighting} : StatementsWord limit e decl.body (none : Ending ε) w →
      returnValue t e decl = .error why →
      BodyWord limit s e decl (some why)
        (shown s .functionBody e none :: shown s .statementList e none :: w)

end

/-! ## Parts that emit words -/

/-- A reason that lies in the program or in the limit on calls. -/
def Stop.Regular : Stop ε → Prop
  | .diagnosed _ => True
  | .tooDeep => True
  | _ => False

theorem Stop.Expected.regular {obs : Observer σ ε} (hun : obs.Unstopping) {seen : σ} {why : Stop ε}
    (h : why.Expected obs seen) : why.Regular := by
  cases why with
  | interrupted why =>
    obtain ⟨ev, s, before, hstop, -⟩ := h
    rw [hun ev s before] at hstop
    cases hstop
  | diagnosed d => trivial
  | tooDeep => trivial
  | _ => exact h.elim

namespace Direct

/-- What was recorded before a part, and then a word of it: a complete one if the part succeeds, and
one that is cut if it fails for a regular reason. -/
def Emits (words : Ending ε → List Sighting → Prop) (before : List Sighting)
    (result : Except (Stop ε) α × Run (σ × List Sighting)) : Prop :=
  ∃ w, result.2.seen.2 = before ++ w ∧ (∀ a, result.1 = .ok a → words none w) ∧
    ∀ why, result.1 = .error why → why.Regular → words (some why) w

section Emits

variable {words words' : Ending ε → List Sighting → Prop} {memory : Memory}
  {seen : σ × List Sighting}

theorem Emits.mono {before : List Sighting} {result : Except (Stop ε) α × Run (σ × List Sighting)}
    (h : Emits words before result) (hwords : ∀ ending w, words ending w → words' ending w) :
    Emits words' before result := by
  obtain ⟨w, hseen, hok, herror⟩ := h
  exact ⟨w, hseen, fun a ha => hwords none w (hok a ha),
    fun why hwhy hregular => hwords (some why) w (herror why hwhy hregular)⟩

theorem Emits.bind {first rest : Ending ε → List Sighting → Prop}
    {x : Eval (σ × List Sighting) ε α} {f : α → Eval (σ × List Sighting) ε β}
    {run : Run (σ × List Sighting)} (hx : Emits first run.seen.2 (x run))
    (hf : ∀ a run', x run = (.ok a, run') → Emits rest run'.seen.2 (f a run'))
    (hcut : ∀ why w, first (some why) w → words (some why) w)
    (happend : ∀ ending w w', first none w → rest ending w' → words ending (w ++ w')) :
    Emits words run.seen.2 ((x >>= f) run) := by
  rw [Eval.bind_apply]
  obtain ⟨w, hseen, hok, herror⟩ := hx
  generalize x run = result at *
  rcases result with ⟨why | a, run'⟩
  · refine ⟨w, hseen, nofun, fun why' h hregular => ?_⟩
    cases h
    exact hcut why w (herror why rfl hregular)
  · have hw : first none w := hok a rfl
    obtain ⟨w', hseen', hok', herror'⟩ := hf a run' rfl
    refine ⟨w ++ w', ?_, fun b hb => happend none w w' hw (hok' b hb),
      fun why hwhy hregular => happend (some why) w w' hw (herror' why hwhy hregular)⟩
    show (f a run').2.seen.2 = _
    rw [hseen', hseen, List.append_assoc]

theorem Emits.pure {a : α} (h : words none []) :
    Emits words seen.2 ((Pure.pure a : Eval (σ × List Sighting) ε α) ⟨memory, seen⟩) :=
  ⟨[], (List.append_nil _).symm, fun _ _ => h, nofun⟩

theorem Emits.throw {why : Stop ε} (h : why.Regular → words (some why) []) :
    Emits words seen.2 ((MonadExcept.throw why : Eval (σ × List Sighting) ε α) ⟨memory, seen⟩) :=
  ⟨[], (List.append_nil _).symm, nofun, fun why' hwhy => by cases hwhy; exact h⟩

theorem bindName_emits (env : EnvId) (name : Text) (v : Value) (h : words none []) :
    Emits words seen.2
      ((do bindName env name v; return v : Eval (σ × List Sighting) ε Value) ⟨memory, seen⟩) := by
  rw [Eval.bind_apply, bindName_apply]
  cases memory.bind env name v with
  | none => exact Emits.throw False.elim
  | some memory => exact ⟨[], (List.append_nil _).symm, fun _ _ => h, nofun⟩

theorem declare_emits (env : EnvId) (decl : FunctionDecl) (h : words none []) :
    Emits words seen.2 (declare env decl ⟨memory, seen⟩) := by
  rw [declare_apply]
  cases memory.declare env decl with
  | none => exact Emits.throw False.elim
  | some fm => exact ⟨[], (List.append_nil _).symm, fun _ _ => h, nofun⟩

end Emits

section Evaluator

variable {obs : Observer σ ε} (hobs : obs.Passive) (hun : obs.Unstopping)

/-- An event is recorded, and the evaluation goes on with the store as it was. -/
theorem Emits.announce (hobs : obs.Passive) (hun : obs.Unstopping)
    {words : Ending ε → List Sighting → Prop} {next : Unit → Eval (σ × List Sighting) ε α}
    {kind : EventKind} {env : EnvId} {pos : Option Position} {memory : Memory}
    {seen : σ × List Sighting}
    (hnext : ∀ seen, Emits (fun ending w => words ending (shown memory.store kind env pos :: w))
      seen.2 (next () ⟨memory, seen⟩)) :
    Emits words seen.2 ((Direct.announce obs.witnessed kind env pos >>= next) ⟨memory, seen⟩) := by
  have hrun : Direct.announce obs.witnessed kind env pos ⟨memory, seen⟩ = (.ok (),
      ⟨memory, (obs { kind, env, pos } memory.store seen.1).seen,
        seen.2 ++ [shown memory.store kind env pos]⟩) := by
    rw [announce_apply]
    simp only [Observer.witnessed, hobs { kind, env, pos } memory.store seen.1,
      hun { kind, env, pos } memory.store seen.1]
    rfl
  rw [Eval.bind_apply, hrun]
  obtain ⟨w, hseen, hok, herror⟩ := hnext ((obs { kind, env, pos } memory.store seen.1).seen,
    seen.2 ++ [shown memory.store kind env pos])
  refine ⟨shown memory.store kind env pos :: w, ?_, hok, herror⟩
  show (next () _).2.seen.2 = _
  rw [hseen, List.append_assoc]
  rfl

theorem resolveCall_eq_error {s : Store} {env : EnvId} {callee argument : Text} {pos : Position}
    {d : Diagnosis} (h : resolveCall s env callee argument pos = .error d) :
    (∀ f, s.lookup env callee ≠ some (.function f)) ∨ s.lookup env argument = none := by
  unfold resolveCall at h
  split at h
  · split at h
    · cases h
    · rename_i hv
      exact .inr hv
  · rename_i hf
    exact .inl hf

/-- A caller whose calls emit the words of calls. -/
def EmitsCalls (limit : Nat) (call : Caller (σ × List Sighting) ε) : Prop :=
  ∀ (argument : Text) (f : Closure) (v : Value) (run : Run (σ × List Sighting)),
    Emits (CallWord limit run.memory.store f v) run.seen.2 (call argument f v run)

variable {limit : Nat} {call : Caller (σ × List Sighting) ε} (hcall : EmitsCalls limit call)
include hcall

theorem initial_emits (env : EnvId) (name : Text) (pos : Position) (value : Initializer)
    (run : Run (σ × List Sighting)) :
    Emits (InitializerWord limit run.memory.store env name pos value) run.seen.2
      (initial call env name pos value run) := by
  cases value with
  | literal lexeme =>
    show Emits _ _ (diagnose (literalValue name pos lexeme) run)
    cases hvalue : literalValue name pos lexeme with
    | ok v => exact Emits.pure (.literal hvalue)
    | error d => exact Emits.throw fun _ => .badLiteral hvalue
  | call callee argument =>
    simp only [initial]
    rw [← bind_assoc, Eval.bind_apply, diagnose_ask_apply]
    cases hresolve : resolveCall run.memory.store env callee argument pos with
    | error d => exact Emits.throw fun _ => .unresolved (resolveCall_eq_error hresolve)
    | ok fv =>
      obtain ⟨hf, hv⟩ := resolveCall_eq_ok hresolve
      exact (hcall argument fv.1 fv.2 run).mono fun ending w => .call hf hv
  | hole => exact Emits.throw False.elim

include hobs hun

theorem statement_emits (env : EnvId) (s : Statement) (run : Run (σ × List Sighting)) :
    Emits (StatementWord limit env s) run.seen.2 (statement obs.witnessed call env s run) := by
  cases s with
  | define name value pos =>
    simp only [statement]
    refine Emits.announce hobs hun fun _ => ?_
    refine Emits.announce hobs hun fun seen => ?_
    have hbind : ∀ (v : Value) (run : Run (σ × List Sighting)),
        Emits (ε := ε) (fun ending w => ending = none ∧ w = []) run.seen.2
          ((do bindName env name v; return v : Eval (σ × List Sighting) ε Value) run) :=
      fun v run => bindName_emits env name v ⟨rfl, rfl⟩
    refine Emits.bind (initial_emits hcall env name pos value ⟨run.memory, seen⟩)
      (fun v run _ => hbind v run) ?_ ?_
    · exact fun why w hw => .define hw
    · rintro ending w w' hw ⟨rfl, rfl⟩
      rw [List.append_nil]
      exact .define hw
  | function name parameter body ret pos =>
    simp only [statement]
    refine Emits.announce hobs hun fun _ => ?_
    refine Emits.announce hobs hun fun seen => ?_
    exact declare_emits env { name, parameter, body, ret, pos } (.function run.memory.store)
  | hole =>
    simp only [statement]
    refine Emits.announce hobs hun fun _ => ?_
    exact Emits.throw False.elim

theorem statements_emits (env : EnvId) (ss : List Statement) :
    ∀ (last : Option Value) (run : Run (σ × List Sighting)),
      Emits (StatementsWord limit env ss) run.seen.2
        (statements obs.witnessed call env last ss run) := by
  induction ss with
  | nil => exact fun last run => Emits.pure .nil
  | cons s rest ih =>
    intro last run
    refine Emits.bind (statement_emits hobs hun hcall env s run) (fun v run _ => ih (some v) run)
      ?_ ?_
    · exact fun why w hw => .cut hw
    · exact fun ending w w' hw hw' => .cons hw hw'

theorem statementList_emits (env : EnvId) (ss : List Statement) (run : Run (σ × List Sighting)) :
    Emits (fun ending w => ∃ w', w = shown run.memory.store .statementList env none :: w' ∧
        StatementsWord limit env ss ending w') run.seen.2
      (statementList obs.witnessed call env ss run) := by
  refine Emits.announce hobs hun fun seen => ?_
  refine (statements_emits hobs hun hcall env ss none ⟨run.memory, seen⟩).mono ?_
  exact fun ending w hw => ⟨w, rfl, hw⟩

theorem functionBody_emits (env : EnvId) (decl : FunctionDecl) (run : Run (σ × List Sighting)) :
    Emits (BodyWord limit run.memory.store env decl) run.seen.2
      (functionBody obs.witnessed call env decl run) := by
  rw [functionBody_eq]
  refine Emits.announce hobs hun fun seen => ?_
  -- All that the return expression adds to the events is a reason to stop, if it fails.
  have hreturn : ∀ (_ : Option Value) (run : Run (σ × List Sighting)),
      Emits (ε := ε)
        (fun ending w => w = [] ∧ ∀ why ∈ ending, ∃ t, returnValue t env decl = .error why)
        run.seen.2 (answer (fun s => returnValue s env decl) run) := by
    intro _ run
    exact ⟨[], (List.append_nil _).symm, fun _ _ => ⟨rfl, nofun⟩,
      fun why hwhy _ => ⟨rfl, fun why' h => by cases h; exact ⟨_, hwhy⟩⟩⟩
  refine Emits.bind (statementList_emits hobs hun hcall env decl.body ⟨run.memory, seen⟩)
    (fun last run _ => hreturn last run) ?_ ?_
  · rintro why _ ⟨w, rfl, hw⟩
    exact .statements hw
  · rintro ending _ _ ⟨w, rfl, hw⟩ ⟨rfl, hwhy⟩
    rw [List.append_nil]
    cases ending with
    | none => exact .statements hw
    | some why =>
      obtain ⟨t, ht⟩ := hwhy why rfl
      exact .badReturn hw ht

end Evaluator

section Evaluator

variable {obs : Observer σ ε} (hobs : obs.Passive) (hun : obs.Unstopping)
include hobs hun

theorem call_emits (limit : Nat) : EmitsCalls limit (call obs.witnessed limit) := by
  induction limit with
  | zero => exact fun argument f v run => Emits.throw fun _ => .tooDeep
  | succ limit ih =>
    intro argument f v run
    simp only [call]
    cases hcapture : f.capture with
    | detached tag => exact Emits.throw False.elim
    | env e =>
      have hbody := functionBody_emits hobs hun ih e f.decl
        { run with memory := run.memory.beginCall f e argument v }
      rw [Memory.store_beginCall] at hbody
      exact Emits.mono hbody fun ending w hw => .entered hcapture hw

omit hobs hun in
theorem statements_eq_none_iff {call : Caller σ ε} {env : EnvId} {ss : List Statement} :
    ∀ {last result : Option Value} {run run' : Run σ},
      statements obs call env last ss run = (.ok result, run') →
        (result = none ↔ last = none ∧ ss = []) := by
  induction ss with
  | nil =>
    intro last result run run' h
    cases h
    exact ⟨fun h => ⟨h, rfl⟩, And.left⟩
  | cons s rest ih =>
    intro last result run run' h
    have h : (statement obs call env s >>= fun v => statements obs call env (some v) rest) run =
      (.ok result, run') := h
    rw [Eval.bind_apply] at h
    generalize statement obs call env s run = first at h
    rcases first with ⟨why | v, run₁⟩
    · cases h
    · rw [ih h]
      exact ⟨nofun, nofun⟩

omit hobs hun in
/-- Only a list of no statements has no value. -/
theorem statementList_eq_none_iff {call : Caller σ ε} {env : EnvId} {ss : List Statement}
    {result : Option Value} {run run' : Run σ}
    (h : statementList obs call env ss run = (.ok result, run')) : result = none ↔ ss = [] := by
  unfold statementList at h
  rw [Eval.bind_apply] at h
  generalize announce obs .statementList env none run = first at h
  rcases first with ⟨why | _, run₁⟩
  · cases h
  · rw [statements_eq_none_iff h]
    exact ⟨And.right, fun h => ⟨rfl, h⟩⟩

/-- A program emits a word for its statements, and the one without statements fails then. -/
theorem program_emits (limit : Nat) (env : EnvId) (p : Program) (run : Run (σ × List Sighting)) :
    Emits (fun ending w => ∃ w', w =
          shown run.memory.store .start env (some 0) ::
          shown run.memory.store .sourceFile env (some p.pos) ::
          shown run.memory.store .statementList env none :: w' ∧
        (p.statements ≠ [] ∧ StatementsWord limit env p.statements ending w' ∨
          p.statements = [] ∧ ending = some (.diagnosed (emptyProgram p.pos)) ∧ w' = []))
      run.seen.2 (program obs.witnessed limit env p run) := by
  refine Emits.announce hobs hun fun _ => ?_
  refine Emits.announce hobs hun fun seen => ?_
  have hlist := statementList_emits hobs hun (call_emits hobs hun limit) env p.statements
    ⟨run.memory, seen⟩
  -- Nothing is shown behind the list; whether there was a statement decides how it ends.
  let rest : Ending ε → List Sighting → Prop := fun ending w =>
    w = [] ∧ (p.statements ≠ [] ∧ ending = none ∨
      p.statements = [] ∧ ending = some (.diagnosed (emptyProgram p.pos)))
  refine Emits.bind hlist (fun last run' hlast => (?_ : Emits rest run'.seen.2 _)) ?_ ?_
  · have hlast := statementList_eq_none_iff hlast
    cases last with
    | some v =>
      have hne : p.statements ≠ [] := fun h => Option.some_ne_none v (hlast.mpr h)
      exact Emits.pure ⟨rfl, .inl ⟨hne, rfl⟩⟩
    | none => exact Emits.throw fun _ => ⟨rfl, .inr ⟨hlast.mp rfl, rfl⟩⟩
  · rintro why _ ⟨w, rfl, hw⟩
    refine ⟨w, rfl, .inl ⟨fun hempty => ?_, hw⟩⟩
    rw [hempty] at hw
    cases hw
  · rintro ending _ _ ⟨w, rfl, hw⟩ ⟨rfl, ⟨hne, rfl⟩ | ⟨hempty, rfl⟩⟩
    · exact ⟨w, by rw [List.append_nil], .inl ⟨hne, hw⟩⟩
    · rw [hempty] at hw
      cases hw
      exact ⟨[], rfl, .inr ⟨hempty, rfl, rfl⟩⟩

end Evaluator
end Direct

/-! ## Whole evaluations -/

/-- Evaluating a complete program under an observer who only looks on shows the start, the source
file and the statement list, in the global environment, and then a word for the statements of the
program.  The word is complete exactly if the evaluation has a value, or if it fails because
there are no statements at all; otherwise it is cut for the reason for which the evaluation fails,
which is a diagnosis or the limit on calls. -/
theorem events_are_callTree {p : Program} (hcomplete : p.isComplete = true) {obs : Observer σ ε}
    (hobs : obs.Passive) (hun : obs.Unstopping) (limit : Nat) (seen : σ) :
    ∃ w, p.sightings obs limit .fresh seen =
        shown Memory.fresh.store .start Memory.globalEnv (some 0) ::
        shown Memory.fresh.store .sourceFile Memory.globalEnv (some p.pos) ::
        shown Memory.fresh.store .statementList Memory.globalEnv none :: w ∧
      match (p.evaluate obs.witnessed limit .fresh (seen, [])).1 with
      | .ok _ => p.statements ≠ [] ∧
          StatementsWord limit Memory.globalEnv p.statements (none : Ending ε) w
      | .error why => why.Regular ∧
          (p.statements ≠ [] ∧
              StatementsWord limit Memory.globalEnv p.statements (some why) w ∨
            p.statements = [] ∧ why = .diagnosed (emptyProgram p.pos) ∧ w = []) := by
  have hpassive : obs.witnessed.Passive := fun ev s seen => hobs ev s seen.1
  have hunstopping : obs.witnessed.Unstopping := fun ev s seen => hun ev s seen.1
  have hglobal : Memory.fresh.store.chain Memory.globalEnv = [0] := rfl
  have hsafe : Direct.Safe obs.witnessed Value.Proper
      (p.evaluate obs.witnessed limit .fresh (seen, [])) :=
    Direct.program_safe hpassive Memory.sound_fresh .fresh hglobal limit hcomplete
  obtain ⟨w, hseen, hok, herror⟩ :=
    Direct.program_emits hobs hun limit Memory.globalEnv p ⟨.fresh, seen, []⟩
  have hevents : p.sightings obs limit .fresh seen = w := hseen
  cases hresult : (p.evaluate obs.witnessed limit .fresh (seen, [])).1 with
  | ok v =>
    obtain ⟨w', rfl, hword | ⟨-, hending, -⟩⟩ := hok v hresult
    · exact ⟨w', hevents, hword⟩
    · cases hending
  | error why =>
    have hregular := (hsafe.stop why hresult).regular hunstopping
    obtain ⟨w', rfl, hword | ⟨hempty, hending, hw⟩⟩ := herror why hresult hregular
    · exact ⟨w', hevents, hregular, .inl hword⟩
    · exact ⟨w', hevents, hregular, .inr ⟨hempty, Option.some.inj hending, hw⟩⟩

/-- The evaluation that ends shows a complete word, with one call in it; and the one that never
ends, allowed two calls inside one another, shows a word that is cut. -/
theorem selfApplied_endless_events_are_callTree :
    (∃ w, selfApplied.sightings (Observer.silent (ε := Empty)) 1 .fresh () =
        shown Memory.fresh.store .start 0 (some 0) ::
        shown Memory.fresh.store .sourceFile 0 (some 0) ::
        shown Memory.fresh.store .statementList 0 none :: w ∧
      StatementsWord 1 0 selfApplied.statements (none : Ending Empty) w) ∧
    ∃ w why, endless.sightings (Observer.silent (ε := Empty)) 2 .fresh () =
        shown Memory.fresh.store .start 0 (some 0) ::
        shown Memory.fresh.store .sourceFile 0 (some 0) ::
        shown Memory.fresh.store .statementList 0 none :: w ∧
      StatementsWord 2 0 endless.statements (some why : Ending Empty) w := by
  have hpassive : (Observer.silent (ε := Empty)).Passive := fun _ _ _ => rfl
  have hun : (Observer.silent (ε := Empty)).Unstopping := fun _ _ _ => rfl
  constructor
  · have hok : (selfApplied.evaluate (Observer.silent (ε := Empty)).witnessed 1 .fresh
        ((), [])).1.isOk = true := by decide +kernel
    have hcomplete : selfApplied.isComplete = true := by decide
    have htree := events_are_callTree hcomplete hpassive hun 1 ()
    generalize (selfApplied.evaluate (Observer.silent (ε := Empty)).witnessed 1 .fresh
      ((), [])).1 = outcome at hok htree
    cases outcome with
    | error why => cases hok
    | ok v =>
      obtain ⟨w, hevents, -, hword⟩ := htree
      exact ⟨w, hevents, hword⟩
  · have hok : (endless.evaluate (Observer.silent (ε := Empty)).witnessed 2 .fresh
        ((), [])).1.isOk = false := by decide +kernel
    have hcomplete : endless.isComplete = true := by decide
    have htree := events_are_callTree hcomplete hpassive hun 2 ()
    generalize (endless.evaluate (Observer.silent (ε := Empty)).witnessed 2 .fresh
      ((), [])).1 = outcome at hok htree
    cases outcome with
    | ok v => cases hok
    | error why =>
      obtain ⟨w, hevents, -, ⟨-, hword⟩ | ⟨hempty, -⟩⟩ := htree
      · exact ⟨w, why, hevents, hword⟩
      · cases hempty

end Stepwise
