/-
Every failure is diagnosed exactly.

A diagnosis says what is wrong at one place of the call tree, and it comes out of an evaluation as
it was made there, however many calls are left on the way.  `Program.ComesTo` says which places an
evaluation comes to, and with which memory and which events on record: it follows the call tree
down, past statements that have succeeded.  `Program.Fault` says what is wrong there.  A declaration
is at fault right after its event, in the environment of that event; a return expression is at fault
when all statements of the body have succeeded, in the frames that its call has had from the
beginning.

The evaluators are followed with the place that they have come to in hand, for calls by induction on
how many may still be entered.
-/
import Stepwise.Proofs.Onlookers

namespace Stepwise

open Observer (Sighting)
open Direct (opening)

variable {σ ε α β : Type}

/-! ## Places in the call tree -/

/-- A place between two statements of a function that is being called, or of the program. -/
structure Place where
  callee : Option Closure
  env : EnvId
  /-- The frames in which names are looked up, innermost first. -/
  chain : List FrameId
  done : List Statement
  rest : List Statement

namespace Place

def start (p : Program) : Place :=
  { callee := none, env := Memory.globalEnv, chain := [0], done := [], rest := p.statements }

/-- The beginning of the body of `f`, which was called in the store `s` and runs in `e`. -/
def entry (s : Store) (f : Closure) (e : EnvId) : Place :=
  { callee := some f, env := e, chain := s.frames.size :: s.chain e, done := []
    rest := f.decl.body }

/-- The place behind the next `ss` of the statements, where `rest` are left. -/
def past (place : Place) (ss rest : List Statement) : Place :=
  { place with done := place.done ++ ss, rest }

end Place

/-- The events of a variable declaration. -/
def declaring (s : Store) (env : EnvId) (pos : Position) : List Sighting :=
  [shown s .statement env none, shown s .variableDeclaration env (some pos)]

/-- The events of entering a function body. -/
def entering (s : Store) (env : EnvId) : List Sighting :=
  [shown s .functionBody env none, shown s .statementList env none]

/-- The places that an evaluation of `p` comes to before `obs`, each with how many calls may still be
entered there and with what has become of the run. -/
inductive Program.ComesTo (p : Program) (obs : Observer σ ε) (limit : Nat) (seen : σ) :
    (room : Nat) → Place → Run (σ × List Sighting) → Prop where
  | start : ComesTo p obs limit seen limit (.start p)
      (obs.recorded ⟨.fresh, seen, []⟩ (opening Memory.fresh.store Memory.globalEnv p.pos))
  /-- Past a statement that has succeeded. -/
  | next {room : Nat} {place : Place} {run run' : Run (σ × List Sighting)} {s : Statement}
      {rest : List Statement} {v : Value} (h : ComesTo p obs limit seen room place run)
      (hrest : place.rest = s :: rest)
      (hs : Direct.statement obs.witnessed (Direct.call obs.witnessed room) place.env s run =
        (.ok v, run')) :
      ComesTo p obs limit seen room (place.past [s] rest) run'
  /-- Into the function that the next statement calls. -/
  | call {room : Nat} {place : Place} {run : Run (σ × List Sighting)} {name callee argument : Text}
      {pos : Position} {rest : List Statement} {f : Closure} {v : Value} {e : EnvId}
      (h : ComesTo p obs limit seen (room + 1) place run)
      (hrest : place.rest = .define name (.call callee argument) pos :: rest)
      (hf : run.memory.store.lookup place.env callee = some (.function f))
      (hv : run.memory.store.lookup place.env argument = some v) (he : f.capture = .env e) :
      ComesTo p obs limit seen room (.entry run.memory.store f e)
        (obs.recorded { run with memory := run.memory.beginCall f e argument v }
          (declaring run.memory.store place.env pos ++
            entering (run.memory.beginCall f e argument v).store e))

/-! ## Faults -/

/-- What can be wrong with the value that `name` is declared to have. -/
inductive DeclarationFault (s : Store) (env : EnvId) (name : Text) (pos : Position) :
    Initializer → Diagnosis → Prop where
  | invalidLiteral {lexeme : Text} {why : Numeral.Error} (h : Numeral.read lexeme = .error why) :
      DeclarationFault s env name pos (.literal lexeme)
        { kind := .invalidLiteral, names := [name], pos, cause := some (.numeral why) }
  | unboundFunction {callee argument : Text}
      (h : s.lookup env callee = none ∨ ∃ x, s.lookup env callee = some (.number x)) :
      DeclarationFault s env name pos (.call callee argument)
        { kind := .unboundFunction, names := [callee], pos }
  | unboundArgument {callee argument : Text} {f : Closure}
      (hf : s.lookup env callee = some (.function f)) (hv : s.lookup env argument = none) :
      DeclarationFault s env name pos (.call callee argument)
        { kind := .unboundArgument, names := [argument], pos }

/-- What can be wrong with the value that a function returns. -/
inductive ReturnFault (s : Store) (env : EnvId) (decl : FunctionDecl) : Diagnosis → Prop where
  | unboundReturnValue {x : Text} (hret : decl.ret = .name x) (hx : s.lookup env x = none) :
      ReturnFault s env decl { kind := .unboundReturnValue, names := [x], pos := decl.pos }
  /-- The operands that are not bound, in their order. -/
  | unboundOperand {left right : Text} {names : List Text} (hret : decl.ret = .sum left right)
      (hnames : names = [left, right].filter fun x => (s.lookup env x).isNone)
      (hne : names ≠ []) :
      ReturnFault s env decl { kind := .unboundOperand, names, pos := decl.pos }
  /-- Both operands are bound, and one at least is not a number. -/
  | typeMismatch {left right : Text} {x y : Value} {why : Value.SumError}
      (hret : decl.ret = .sum left right) (hx : s.lookup env left = some x)
      (hy : s.lookup env right = some y)
      (hnumber : (∃ f, x = .function f) ∨ ∃ f, y = .function f) (hwhy : x.add y = .error why) :
      ReturnFault s env decl
        { kind := .typeMismatch, names := [left, right], pos := decl.pos, cause := some (.sum why) }

/-- The evaluation of `p` before `obs` fails with this diagnosis, when this has become of the run. -/
inductive Program.Fault (p : Program) (obs : Observer σ ε) (limit : Nat) (seen : σ) :
    Diagnosis → Run (σ × List Sighting) → Prop where
  /-- The program has no statements. -/
  | empty (h : p.statements = []) :
      Fault p obs limit seen { kind := .emptySourceFile, names := [], pos := p.pos }
        (obs.recorded ⟨.fresh, seen, []⟩ (opening Memory.fresh.store Memory.globalEnv p.pos))
  /-- The last event is that of a variable declaration, which is at fault. -/
  | declaration {room : Nat} {place : Place} {run : Run (σ × List Sighting)} {name : Text}
      {value : Initializer} {pos : Position} {rest : List Statement} {d : Diagnosis}
      (h : p.ComesTo obs limit seen room place run)
      (hrest : place.rest = .define name value pos :: rest)
      (hd : DeclarationFault run.memory.store place.env name pos value d) :
      Fault p obs limit seen d (obs.recorded run (declaring run.memory.store place.env pos))
  /-- All statements of the function that is being called have succeeded, and its return expression
  is at fault. -/
  | return {room : Nat} {place : Place} {run : Run (σ × List Sighting)} {f : Closure}
      {d : Diagnosis} (h : p.ComesTo obs limit seen room place run)
      (hcallee : place.callee = some f) (hdone : place.done = f.decl.body)
      (hchain : run.memory.store.chain place.env = place.chain)
      (hd : ReturnFault run.memory.store place.env f.decl d) : Fault p obs limit seen d run

theorem literalValue_fault {s : Store} {env : EnvId} {name lexeme : Text} {pos : Position}
    {d : Diagnosis} (h : literalValue name pos lexeme = .error d) :
    DeclarationFault s env name pos (.literal lexeme) d := by
  unfold literalValue at h
  cases hread : Numeral.read lexeme with
  | ok x => rw [hread] at h; cases h
  | error why =>
    rw [hread] at h
    cases h
    exact .invalidLiteral hread

/-- What is bound to a proper value but not to a function is bound to a number. -/
theorem resolveCall_fault {m : Memory} (hm : m.Proper) {env : EnvId} {name callee argument : Text}
    {pos : Position} {d : Diagnosis}
    (h : resolveCall m.store env callee argument pos = .error d) :
    DeclarationFault m.store env name pos (.call callee argument) d := by
  unfold resolveCall at h
  cases hf : m.store.lookup env callee with
  | none =>
    rw [hf] at h
    cases h
    exact .unboundFunction (.inl hf)
  | some v =>
    rw [hf] at h
    cases v with
    | number x =>
      cases h
      exact .unboundFunction (.inr ⟨x, hf⟩)
    | absent => exact (hm.lookup hf).elim
    | function f =>
      cases hv : m.store.lookup env argument with
      | some v => rw [hv] at h; cases h
      | none =>
        rw [hv] at h
        cases h
        exact .unboundArgument hf hv

/-- Of two proper values that have no sum, one is a function. -/
theorem exists_function_of_add {x y : Value} {why : Value.SumError} (hx : x.Proper) (hy : y.Proper)
    (h : x.add y = .error why) : (∃ f, x = .function f) ∨ ∃ f, y = .function f := by
  cases x with
  | function f => exact .inl ⟨f, rfl⟩
  | absent => exact hx.elim
  | number x =>
    cases y with
    | function f => exact .inr ⟨f, rfl⟩
    | absent => exact hy.elim
    | number y => cases h

theorem sumOf_fault {m : Memory} (hm : m.Proper) {env : EnvId} {decl : FunctionDecl}
    {left right : Text} (hret : decl.ret = .sum left right) {d : Diagnosis}
    (h : sumOf m.store env left right decl.pos = .error d) : ReturnFault m.store env decl d := by
  unfold sumOf at h
  cases hx : m.store.lookup env left with
  | none =>
    cases hy : m.store.lookup env right with
    | none =>
      rw [hx, hy] at h
      cases h
      exact .unboundOperand hret (by simp [hx, hy]) (by simp)
    | some y =>
      rw [hx, hy] at h
      cases h
      exact .unboundOperand hret (by simp [hx, hy]) (by simp)
  | some x =>
    cases hy : m.store.lookup env right with
    | none =>
      rw [hx, hy] at h
      cases h
      exact .unboundOperand hret (by simp [hx, hy]) (by simp)
    | some y =>
      rw [hx, hy] at h
      cases hsum : x.add y with
      | ok v => simp only [hsum] at h; cases h
      | error why =>
        simp only [hsum] at h
        cases h
        exact .typeMismatch hret hx hy
          (exists_function_of_add (hm.lookup hx) (hm.lookup hy) hsum) hsum

theorem returnValue_fault {m : Memory} (hm : m.Proper) {env : EnvId} {decl : FunctionDecl}
    {d : Diagnosis} (h : returnValue (ε := ε) m.store env decl = .error (.diagnosed d)) :
    ReturnFault m.store env decl d := by
  unfold returnValue at h
  cases hret : decl.ret with
  | name x =>
    rw [hret] at h
    cases hx : m.store.lookup env x with
    | some v => simp only [hx] at h; cases h
    | none =>
      simp only [hx] at h
      cases h
      exact .unboundReturnValue hret hx
  | sum left right =>
    rw [hret] at h
    cases hsum : sumOf m.store env left right decl.pos with
    | ok v => simp only [hsum] at h; cases h
    | error d' =>
      simp only [hsum] at h
      cases h
      exact sumOf_fault hm hret hsum
  | hole => rw [hret] at h; cases h

theorem Place.past_nil {place : Place} (h : place.rest = []) : place.past [] [] = place := by
  obtain ⟨callee, env, chain, done, rest⟩ := place
  subst h
  simp only [past, List.append_nil]

theorem Place.past_past (place : Place) (s : Statement) (ss rest rest' : List Statement) :
    (place.past [s] rest).past ss rest' = place.past (s :: ss) rest' := by
  simp only [past, List.append_assoc, List.singleton_append]

namespace Direct

/-! ## Going on from a place -/

/-- Names can be looked up and bound at the place, and what is bound is proper. -/
structure Ready (memory : Memory) (place : Place) : Prop where
  sound : memory.store.Sound
  proper : memory.Proper
  chain : memory.store.chain place.env = place.chain
  ne_nil : place.chain ≠ []

theorem Ready.exists_cons {memory : Memory} {place : Place} (h : Ready memory place) :
    ∃ i outer, memory.store.chain place.env = i :: outer := by
  rw [h.chain]
  exact List.exists_cons_of_ne_nil h.ne_nil

theorem statement_ready {obs : Observer σ ε} (hobs : obs.LooksOn) {room : Nat} {place : Place}
    {s : Statement} {v : Value} {run run' : Run (σ × List Sighting)}
    (h : Ready run.memory place) (hs : s.isComplete = true)
    (hrun : statement obs.witnessed (call obs.witnessed room) place.env s run = (.ok v, run'))
    (rest : List Statement) : Ready run'.memory (place.past [s] rest) := by
  obtain ⟨i, outer, hc⟩ := h.exists_cons
  have he : place.env < run.memory.store.chains.size := Store.lt_of_chain_eq_cons hc
  have hpassive := hobs.witnessed.passive
  have hcall := call_discreet hpassive room
  have hleaves : Leaves (fun j => j = i) Value.Sound run.memory.store
      (statement obs.witnessed (call obs.witnessed room) place.env s run) :=
    (statement_effect hpassive hcall h.sound he s).leaves hc
  have hsafe : Safe obs.witnessed Value.Proper
      (statement obs.witnessed (call obs.witnessed room) place.env s run) :=
    statement_safe hpassive hcall (call_safe hpassive room) h.sound h.proper he hs
  rw [hrun] at hleaves hsafe
  exact ⟨hleaves.sound, hsafe.proper, (hleaves.keeps.chain place.env he).trans h.chain, h.ne_nil⟩

/-! ## Failing at a place -/

/-- The diagnosis with which an evaluation has failed. -/
def diagnosis? : Except (Stop ε) α → Option Diagnosis
  | .error (.diagnosed d) => some d
  | _ => none

theorem eq_of_diagnosis? {outcome : Except (Stop ε) α} {d : Diagnosis}
    (h : diagnosis? outcome = some d) : outcome = .error (.diagnosed d) := by
  unfold diagnosis? at h
  split at h
  · rw [Option.some.inj h]
  · cases h

section Blames

variable {obs : Observer σ ε} {p : Program} {limit : Nat} {seen : σ}

/-- If it fails with a diagnosis, then this fault was found, with the events and the frames that are
left. -/
def Blames (obs : Observer σ ε) (p : Program) (limit : Nat) (seen : σ)
    (result : Except (Stop ε) α × Run (σ × List Sighting)) : Prop :=
  ∀ d, result.1 = .error (.diagnosed d) →
    ∃ found, p.Fault obs limit seen d found ∧ found.seen = result.2.seen ∧
      found.memory.store.frames = result.2.memory.store.frames

theorem Blames.of_none {x : Except (Stop ε) α} {run : Run (σ × List Sighting)}
    (h : diagnosis? x = none) : Blames obs p limit seen (x, run) := by
  intro d hd
  rw [show x = _ from hd] at h
  cases h

theorem Blames.fault {d : Diagnosis} {run : Run (σ × List Sighting)}
    (h : p.Fault obs limit seen d run) :
    Blames (α := α) obs p limit seen (.error (.diagnosed d), run) := by
  intro d' hd
  cases hd
  exact ⟨run, h, rfl, rfl⟩

/-- The failure of a first part is that of the whole. -/
theorem Blames.bind {x : Eval (σ × List Sighting) ε α} {f : α → Eval (σ × List Sighting) ε β}
    {run : Run (σ × List Sighting)} (hx : Blames obs p limit seen (x run))
    (hf : ∀ a run', x run = (.ok a, run') → Blames obs p limit seen (f a run')) :
    Blames obs p limit seen ((x >>= f) run) := by
  rw [Eval.bind_apply]
  generalize x run = result at *
  rcases result with ⟨why | a, run'⟩
  · intro d hd
    cases hd
    exact hx d rfl
  · exact hf a run' rfl

theorem bindName_blames (env : EnvId) (name : Text) (v : Value) (run : Run (σ × List Sighting)) :
    Blames obs p limit seen ((do bindName env name v; return v) run) := by
  rw [Eval.bind_apply, bindName_apply]
  cases run.memory.bind env name v with
  | none => exact .of_none rfl
  | some memory => exact .of_none rfl

theorem declare_blames (env : EnvId) (decl : FunctionDecl) (run : Run (σ × List Sighting)) :
    Blames obs p limit seen (declare (ε := ε) env decl run) := by
  rw [declare_apply]
  cases run.memory.declare env decl with
  | none => exact .of_none rfl
  | some made => exact .of_none rfl

/-- Leaving a call drops a frame from an environment, and keeps all frames. -/
theorem Blames.inCall {f : Closure} {e : EnvId} {argument : Text} {v : Value}
    {body : Eval (σ × List Sighting) ε α} {run : Run (σ × List Sighting)}
    (h : Blames obs p limit seen
      (body { run with memory := run.memory.beginCall f e argument v })) :
    Blames obs p limit seen (Direct.inCall f e argument v body run) := by
  intro d hd
  obtain ⟨found, hfault, hseen, hframes⟩ := h d hd
  refine ⟨found, hfault, hseen, hframes.trans ?_⟩
  show _ = ((body _).2.memory.endCall f.decl.name e).store.frames
  rw [Memory.store_endCall, Store.frames_popped]

/-- The calls that can be made at a place with this much room only fail for faults. -/
def BlamesCalls (obs : Observer σ ε) (p : Program) (limit : Nat) (seen : σ) (room : Nat) : Prop :=
  ∀ {place : Place} {name callee argument : Text} {pos : Position} {rest : List Statement}
    {f : Closure} {v : Value} {run : Run (σ × List Sighting)},
    p.ComesTo obs limit seen room place run →
    place.rest = .define name (.call callee argument) pos :: rest → Ready run.memory place →
    run.memory.store.lookup place.env callee = some (.function f) →
    run.memory.store.lookup place.env argument = some v →
    Blames obs p limit seen (call obs.witnessed room argument f v
      (obs.recorded run (declaring run.memory.store place.env pos)))

end Blames

section Evaluator

variable {obs : Observer σ ε} (hobs : obs.LooksOn) {p : Program} {limit : Nat} {seen : σ}
  {room : Nat} {place : Place} {run : Run (σ × List Sighting)}
  (hcalls : BlamesCalls obs p limit seen room)

include hcalls

theorem initial_blames {name : Text} {value : Initializer} {pos : Position} {rest : List Statement}
    (hplace : p.ComesTo obs limit seen room place run)
    (hrest : place.rest = .define name value pos :: rest) (hready : Ready run.memory place) :
    Blames obs p limit seen (initial (call obs.witnessed room) place.env name pos value
      (obs.recorded run (declaring run.memory.store place.env pos))) := by
  cases value with
  | literal lexeme =>
    show Blames obs p limit seen (diagnose (literalValue name pos lexeme) _)
    cases hvalue : literalValue name pos lexeme with
    | ok v => exact .of_none rfl
    | error d => exact .fault (.declaration hplace hrest (literalValue_fault hvalue))
  | call callee argument =>
    simp only [initial]
    rw [← bind_assoc, Eval.bind_apply, diagnose_ask_apply, Observer.memory_recorded]
    cases hresolve : resolveCall run.memory.store place.env callee argument pos with
    | error d => exact .fault (.declaration hplace hrest (resolveCall_fault hready.proper hresolve))
    | ok fv =>
      obtain ⟨hf, hv⟩ := resolveCall_eq_ok hresolve
      exact hcalls hplace hrest hready hf hv
  | hole => exact .of_none rfl

include hobs

theorem statement_blames {s : Statement} {rest : List Statement}
    (hplace : p.ComesTo obs limit seen room place run) (hrest : place.rest = s :: rest)
    (hready : Ready run.memory place) :
    Blames obs p limit seen (statement obs.witnessed (call obs.witnessed room) place.env s run) := by
  cases s with
  | define name value pos =>
    simp only [statement]
    rw [announce_bind hobs, announce_bind hobs, Observer.recorded_recorded]
    refine Blames.bind (initial_blames hcalls hplace hrest hready) fun v run' _ => ?_
    exact bindName_blames place.env name v run'
  | function name parameter body ret pos =>
    simp only [statement]
    rw [announce_bind hobs, announce_bind hobs]
    exact declare_blames place.env { name, parameter, body, ret, pos } _
  | hole =>
    simp only [statement]
    rw [announce_bind hobs]
    exact .of_none rfl

/-- The statements that are left at a place lead to the place behind them, or to a fault. -/
theorem statements_blames {ss : List Statement} (hcomplete : Statement.areComplete ss = true)
    (last : Option Value) (hrest : place.rest = ss)
    (hplace : p.ComesTo obs limit seen room place run) (hready : Ready run.memory place) :
    Blames obs p limit seen
      (statements obs.witnessed (call obs.witnessed room) place.env last ss run) ∧
    ∀ a run', statements obs.witnessed (call obs.witnessed room) place.env last ss run =
        (.ok a, run') →
      p.ComesTo obs limit seen room (place.past ss []) run' ∧
        Ready run'.memory (place.past ss []) := by
  induction ss generalizing place last run with
  | nil =>
    refine ⟨.of_none rfl, fun a run' hrun => ?_⟩
    cases hrun
    rw [Place.past_nil hrest]
    exact ⟨hplace, hready⟩
  | cons s rest ih =>
    obtain ⟨hs, hrest'⟩ := (Bool.and_eq_true _ _).mp hcomplete
    have hstatement := statement_blames hobs hcalls hplace hrest hready
    have hnext {v : Value} {run' : Run (σ × List Sighting)}
        (hrun : statement obs.witnessed (call obs.witnessed room) place.env s run = (.ok v, run')) :=
      ih hrest' (some v) rfl (.next hplace hrest hrun) (statement_ready hobs hready hs hrun rest)
    refine ⟨Blames.bind hstatement fun v run' hrun => (hnext hrun).1, ?_⟩
    intro a run' hrun
    obtain ⟨v, between, hrun, hstatements⟩ := Eval.bind_eq_ok hrun
    rw [← Place.past_past place s rest rest []]
    exact (hnext hrun).2 a run' hstatements

end Evaluator

section Evaluator

variable {obs : Observer σ ε} (hobs : obs.LooksOn) {p : Program} {limit : Nat} {seen : σ}
include hobs

/-- The body of `f`, entered from the store `s`. -/
theorem functionBody_blames {room : Nat} (hcalls : BlamesCalls obs p limit seen room) (s : Store)
    {f : Closure} {e : EnvId} {run : Run (σ × List Sighting)}
    (hf : f.decl.statement.isComplete = true)
    (hplace : p.ComesTo obs limit seen room (.entry s f e)
      (obs.recorded run (entering run.memory.store e)))
    (hready : Ready run.memory (.entry s f e)) :
    Blames obs p limit seen
      (functionBody obs.witnessed (call obs.witnessed room) e f.decl run) := by
  obtain ⟨hbody, -⟩ := (Bool.and_eq_true _ _).mp hf
  rw [functionBody_eq]
  simp only [statementList, bind_assoc]
  rw [announce_bind hobs, announce_bind hobs, Observer.recorded_recorded]
  obtain ⟨hblames, hbehind⟩ := statements_blames hobs hcalls hbody none rfl hplace hready
  refine Blames.bind hblames fun last run' hrun d hd => ?_
  -- Nothing is shown between the last statement and the return expression.
  obtain ⟨hplace', hready'⟩ := hbehind last run' hrun
  exact ⟨run', .return hplace' rfl rfl hready'.chain (returnValue_fault hready'.proper hd), rfl, rfl⟩

theorem call_blames (room : Nat) : BlamesCalls obs p limit seen room := by
  induction room with
  | zero =>
    intro place name callee argument pos rest f v run _ _ _ _ _
    exact .of_none rfl
  | succ room ih =>
    intro place name callee argument pos rest f v run hplace hrest hready hf hv
    obtain ⟨e, hcapture, -, he⟩ := hready.sound.lookup hf
    have hproper : f.decl.statement.isComplete = true := hready.proper.lookup hf
    have hstore := Memory.store_beginCall run.memory f e argument v
    simp only [call, hcapture]
    refine Blames.inCall (functionBody_blames hobs ih run.memory.store hproper ?_ ?_)
    · have hentered := Program.ComesTo.call hplace hrest hf hv hcapture
      rwa [← Observer.recorded_recorded] at hentered
    · refine ⟨?_, hready.proper.beginCall f e argument (hready.proper.lookup hv), ?_,
        List.cons_ne_nil _ _⟩
      · show (run.memory.beginCall f e argument v).store.Sound
        rw [hstore]
        exact hready.sound.push e f.decl.parameter (hready.sound.lookup hv)
      · show (run.memory.beginCall f e argument v).store.chain e = _
        rw [hstore]
        exact Store.chain_push_self he f.decl.parameter v

/-- A whole program, with its opening behind it. -/
theorem remainder_blames (hcomplete : p.isComplete = true) :
    Blames obs p limit seen (remainder obs.witnessed limit Memory.globalEnv p.pos none p.statements
      (obs.recorded ⟨.fresh, seen, []⟩ (opening Memory.fresh.store Memory.globalEnv p.pos))) := by
  have hready : Ready .fresh (.start p) := ⟨Memory.sound_fresh, .fresh, rfl, List.cons_ne_nil _ _⟩
  have hstart : p.ComesTo obs limit seen limit (.start p) _ := .start
  obtain ⟨hblames, -⟩ :=
    statements_blames hobs (call_blames hobs limit) hcomplete none rfl hstart hready
  refine Blames.bind hblames fun last run' hrun => ?_
  cases last with
  | some v => exact .of_none rfl
  | none =>
    obtain ⟨-, hempty⟩ := (statements_eq_none_iff hrun).mp rfl
    rw [hempty] at hrun
    cases hrun
    exact .fault (.empty hempty)

end Evaluator
end Direct

/-! ## Whole evaluations -/

/-- If a complete program fails under an observer who only looks on, then it is for the limit on
calls, or with the diagnosis of a fault at a place that the evaluation has come to.  No event was
shown and no frame has changed since the fault was found. -/
theorem failure_diagnosed_exactly {p : Program} (hcomplete : p.isComplete = true)
    {obs : Observer σ ε} (hobs : obs.LooksOn) (limit : Nat) (seen : σ) {why : Stop ε}
    (hfails : (p.evaluate obs.witnessed limit .fresh (seen, [])).1 = .error why) :
    why = .tooDeep ∨ ∃ d found, why = .diagnosed d ∧ p.Fault obs limit seen d found ∧
      found.seen.2 = p.sightings obs limit .fresh seen ∧
      found.memory.store.frames =
        (p.evaluate obs.witnessed limit .fresh (seen, [])).2.memory.store.frames := by
  have hsafe : Direct.Safe obs.witnessed Value.Proper
      (p.evaluate obs.witnessed limit .fresh (seen, [])) :=
    Direct.program_safe hobs.witnessed.passive Memory.sound_fresh .fresh rfl limit hcomplete
  have hregular := (hsafe.stop why hfails).regular hobs.witnessed.unstopping
  cases why with
  | tooDeep => exact .inl rfl
  | diagnosed d =>
    have hblames : Direct.Blames obs p limit seen
        (p.evaluate obs.witnessed limit .fresh (seen, [])) :=
      Direct.evaluate_eq_remainder hobs limit p.statements p.pos .fresh seen ▸
        Direct.remainder_blames hobs hcomplete
    obtain ⟨found, hfault, hseen, hframes⟩ := hblames d hfails
    exact .inr ⟨d, found, rfl, hfault, congrArg Prod.snd hseen, hframes⟩
  | _ => exact hregular.elim

/-- A function called inside another adds its argument, which is a function, to a number. -/
def mismatched : Program :=
  .numbered [
    .function "g" "x" [.define "n" (.literal "1") 10] (.sum "n" "x") 0,
    .function "h" "w" [.define "r" (.call "g" "w") 20] (.name "r") 0,
    .define "y" (.call "h" "h") 0] 0

theorem mismatched_diagnosed_exactly :
    ∃ d found, (mismatched.evaluate (Observer.silent (ε := Empty)).witnessed 2 .fresh ((), [])).1 =
        .error (.diagnosed d) ∧
      (d.kind = .typeMismatch ∧ d.names = (["n", "x"] : List Text) ∧ d.pos = some 0) ∧
      mismatched.Fault (Observer.silent (ε := Empty)) 2 () d found ∧
      found.seen.2 = mismatched.sightings (Observer.silent (ε := Empty)) 2 .fresh () ∧
      found.memory.store.frames = (mismatched.evaluate (Observer.silent (ε := Empty)).witnessed 2
        .fresh ((), [])).2.memory.store.frames := by
  have hsilent : (Observer.silent (ε := Empty)).LooksOn := ⟨fun _ _ _ => rfl, fun _ _ _ => rfl⟩
  have hshape : ((Direct.diagnosis? (mismatched.evaluate
      (Observer.silent (ε := Empty)).witnessed 2 .fresh ((), [])).1).any fun d => decide
        (d.kind = .typeMismatch ∧ d.names = (["n", "x"] : List Text) ∧ d.pos = some 0)) = true := by
    decide +kernel
  obtain ⟨d, hd, hshape⟩ := (Option.any_eq_true _ _).mp hshape
  have hfails := Direct.eq_of_diagnosis? hd
  rcases failure_diagnosed_exactly (by decide) hsilent 2 () hfails with
    h | ⟨_, found, h, hfault, hseen, hframes⟩
  · cases h
  · cases h
    exact ⟨d, found, hfails, of_decide_eq_true hshape, hfault, hseen, hframes⟩

end Stepwise
