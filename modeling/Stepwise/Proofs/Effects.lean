/-
What evaluating a part of a program does to the environments that are there already.

Under an observer that leaves the environments alone, a statement that succeeds makes one
binding, in the innermost frame of the environment it is evaluated in; a statement that
fails makes none, whatever it failed of.  Everything else that a statement does happens in
frames and environments of its own making, and each call leaves the environment of its
function with the frames it found there.  `statement_effect` says so for one statement and
`call_discreet` for one call; the two need each other, so the first is proved for any caller
that is `Discreet`, and then the evaluator's own caller is shown to be so by induction on its
limit.
-/
import Stepwise.Evaluation.Direct
import Stepwise.Proofs.Environments

namespace Stepwise

variable {σ ε α β : Type}

theorem Eval.bind_apply {ρ κ : Type} (x : ExceptT κ (StateM ρ) α) (f : α → ExceptT κ (StateM ρ) β)
    (run : ρ) :
    (x >>= f) run = match x run with
      | (.ok a, run) => f a run
      | (.error why, run) => (.error why, run) := by
  show (match x run with | (outcome, run) => ExceptT.bindCont f outcome run) = _
  rcases x run with ⟨_ | _, _⟩ <;> rfl

/-- The name that a statement binds if it succeeds. -/
def Statement.target : Statement → Text
  | define name _ _ => name
  | function name _ _ _ _ => name
  | hole => []

namespace Direct

/-! ## Parts that keep to themselves -/

/-- How a part that began with the store `s` leaves it. -/
structure Leaves (exempt : FrameId → Prop) (good : Store → α → Prop) (s : Store)
    (result : Except (Stop ε) α × Run σ) : Prop where
  sound : result.2.memory.store.Sound
  keeps : s.Keeps exempt result.2.memory.store
  value : ∀ a, result.1 = .ok a → good result.2.memory.store a

section Leaves

variable {exempt : FrameId → Prop} {good : Store → α → Prop} {good' : Store → β → Prop}
  {s : Store} {memory : Memory} {seen : σ}

theorem Leaves.bind {x : Eval σ ε α} {f : α → Eval σ ε β} {run : Run σ}
    (hx : Leaves exempt good s (x run))
    (hf : ∀ a run, run.memory.store.Sound → s.Keeps exempt run.memory.store →
      good run.memory.store a → Leaves exempt good' run.memory.store (f a run)) :
    Leaves exempt good' s ((x >>= f) run) := by
  rw [Eval.bind_apply]
  obtain ⟨hsound, hkeeps, hgood⟩ := hx
  generalize x run = result at *
  rcases result with ⟨why | a, run⟩
  · exact ⟨hsound, hkeeps, nofun⟩
  · obtain ⟨hsound', hkeeps', hgood'⟩ := hf a run hsound hkeeps (hgood a rfl)
    exact ⟨hsound', hkeeps.trans hkeeps', hgood'⟩

theorem Leaves.pure {a : α} (hs : memory.store.Sound) (ha : good memory.store a) :
    Leaves exempt good memory.store ((Pure.pure a : Eval σ ε α) ⟨memory, seen⟩) :=
  ⟨hs, .refl _, fun b hb => by cases hb; exact ha⟩

theorem Leaves.throw (hs : memory.store.Sound) (why : Stop ε) :
    Leaves exempt good memory.store ((MonadExcept.throw why : Eval σ ε α) ⟨memory, seen⟩) :=
  ⟨hs, .refl _, nofun⟩

end Leaves

theorem announce_apply (obs : Observer σ ε) (kind : EventKind) (env : EnvId)
    (pos : Option Position) (run : Run σ) :
    announce obs kind env pos run =
      let reaction := obs { kind, env, pos } run.memory.store run.seen
      (match reaction.stop with
        | none => .ok ()
        | some why => .error (.interrupted why),
        { memory := { run.memory with store := reaction.store }, seen := reaction.seen }) := by
  simp only [announce, Eval.bind_apply]
  show (match (obs { kind, env, pos } run.memory.store run.seen).stop with
    | none => _
    | some why => _ : Eval σ ε Unit) _ = _
  cases (obs { kind, env, pos } run.memory.store run.seen).stop <;> rfl

section Passive

variable {obs : Observer σ ε} (hobs : obs.Passive)
include hobs

/-- An observer that leaves the environments alone only ever remembers something. -/
theorem announce_of_passive (kind : EventKind) (env : EnvId) (pos : Option Position)
    (run : Run σ) : ∃ answer seen, announce obs kind env pos run = (answer, { run with seen }) := by
  rw [announce_apply]
  simp only [hobs { kind, env, pos } run.memory.store run.seen]
  exact ⟨_, _, rfl⟩

theorem announce_leaves {exempt : FrameId → Prop} {memory : Memory} {seen : σ}
    (hs : memory.store.Sound) (kind : EventKind) (env : EnvId) (pos : Option Position) :
    Leaves exempt (fun _ _ => True) memory.store (announce obs kind env pos ⟨memory, seen⟩) := by
  obtain ⟨answer, seen', h⟩ := announce_of_passive hobs kind env pos ⟨memory, seen⟩
  rw [h]
  exact ⟨hs, .refl _, fun _ _ => trivial⟩

end Passive

theorem bindName_apply (env : EnvId) (name : Text) (v : Value) (run : Run σ) :
    bindName (ε := ε) env name v run = match run.memory.bind env name v with
      | none => (.error (.unbindable name), run)
      | some memory => (.ok (), { run with memory }) := by
  simp only [bindName, Eval.bind_apply]
  show (match run.memory.bind env name v with
    | none => _
    | some memory => _ : Eval σ ε Unit) run = _
  cases run.memory.bind env name v <;> rfl

theorem declare_apply (env : EnvId) (decl : FunctionDecl) (run : Run σ) :
    declare (ε := ε) env decl run = match run.memory.declare env decl with
      | none => (.error (.unbindable decl.name), run)
      | some (f, memory) => (.ok f, { run with memory }) := by
  simp only [declare, Eval.bind_apply]
  show (match run.memory.declare env decl with
    | none => _
    | some (f, memory) => _ : Eval σ ε Value) run = _
  cases run.memory.declare env decl <;> rfl

theorem diagnose_ask_apply (question : Store → Except Diagnosis α) (run : Run σ) :
    (do diagnose (← ask question) : Eval σ ε α) run =
      ((question run.memory.store).mapError .diagnosed, run) := by
  rw [Eval.bind_apply]
  show diagnose (question run.memory.store) run = _
  cases question run.memory.store <;> rfl

/-- An answer that the environments give, or the reason why they have none. -/
def answer (question : Store → Except (Stop ε) α) : Eval σ ε α :=
  fun run => (question run.memory.store, run)

theorem functionBody_eq (obs : Observer σ ε) (call : Caller σ ε) (env : EnvId)
    (decl : FunctionDecl) :
    functionBody obs call env decl = (do
      announce obs .functionBody env none
      let _ ← statementList obs call env decl.body
      answer fun s => returnValue s env decl) := by
  unfold functionBody
  refine congrArg (announce obs .functionBody env none >>= ·) (funext fun _ => ?_)
  refine congrArg (statementList obs call env decl.body >>= ·) (funext fun _ => ?_)
  funext run
  have hask : ask (σ := σ) (ε := ε) (fun s => returnValue (ε := ε) s env decl) run =
    (.ok (returnValue run.memory.store env decl), run) := rfl
  rw [Eval.bind_apply, hask, answer]
  cases returnValue (ε := ε) run.memory.store env decl <;> rfl

/-- The function and the argument of a call are found in the store. -/
theorem resolveCall_eq_ok {s : Store} {env : EnvId} {callee argument : Text} {pos : Position}
    {fv : Closure × Value} (h : resolveCall s env callee argument pos = .ok fv) :
    s.lookup env callee = some (.function fv.1) ∧ s.lookup env argument = some fv.2 := by
  unfold resolveCall at h
  split at h
  · rename_i hf
    split at h
    · rename_i hv
      cases h
      exact ⟨hf, hv⟩
    · cases h
  · cases h

/-! ## One statement -/

/-- How a statement that would bind `name` in `env` leaves the store `s`: with that one
binding, if it has a value, and else as it was. -/
structure Effect (env : EnvId) (name : Text) (s : Store) (result : Except (Stop ε) Value × Run σ) :
    Prop where
  sound : result.2.memory.store.Sound
  success : ∀ v, result.1 = .ok v → v.Sound result.2.memory.store ∧
    ∃ bound, s.bind env name v = some bound ∧ bound.KeepsAll result.2.memory.store
  failure : ∀ why, result.1 = .error why → s.KeepsAll result.2.memory.store

/-- A caller that changes nothing which was there before the call. -/
def Discreet (call : Caller σ ε) : Prop :=
  ∀ (argument : Text) (f : Closure) (v : Value) (run : Run σ), run.memory.store.Sound →
    (Value.function f).Sound run.memory.store → v.Sound run.memory.store →
      Leaves (fun _ => False) Value.Sound run.memory.store (call argument f v run)

section Effect

variable {env : EnvId} {name : Text} {memory : Memory} {seen : σ}

theorem Effect.throw (hs : memory.store.Sound) (why : Stop ε) :
    Effect env name memory.store ((MonadExcept.throw why : Eval σ ε Value) ⟨memory, seen⟩) :=
  ⟨hs, nofun, fun _ _ => .refl _⟩

theorem Effect.announce {obs : Observer σ ε} (hobs : obs.Passive) {next : Unit → Eval σ ε Value}
    {kind : EventKind} {e : EnvId} {pos : Option Position} (hs : memory.store.Sound)
    (hnext : ∀ seen, Effect env name memory.store (next () ⟨memory, seen⟩)) :
    Effect env name memory.store ((Direct.announce obs kind e pos >>= next) ⟨memory, seen⟩) := by
  obtain ⟨answer, seen', h⟩ := announce_of_passive hobs kind e pos ⟨memory, seen⟩
  rw [Eval.bind_apply, h]
  rcases answer with why | _
  · exact ⟨hs, nofun, fun _ _ => .refl _⟩
  · exact hnext seen'

theorem initial_leaves {call : Caller σ ε} (hcall : Discreet call) (hs : memory.store.Sound)
    (name : Text) (pos : Position) (value : Initializer) :
    Leaves (fun _ => False) Value.Sound memory.store
      (initial call env name pos value ⟨memory, seen⟩) := by
  cases value with
  | literal lexeme =>
    show Leaves _ _ _ (diagnose (literalValue name pos lexeme) _)
    unfold literalValue
    cases Numeral.read lexeme with
    | ok x => exact Leaves.pure hs trivial
    | error e => exact Leaves.throw hs _
  | call callee argument =>
    simp only [initial]
    rw [← bind_assoc, Eval.bind_apply, diagnose_ask_apply]
    cases hfv : resolveCall memory.store env callee argument pos with
    | error d => exact Leaves.throw hs _
    | ok fv =>
      obtain ⟨hf, hv⟩ := resolveCall_eq_ok hfv
      exact hcall argument fv.1 fv.2 ⟨memory, seen⟩ hs (hs.lookup hf) (hs.lookup hv)
  | hole => exact Leaves.throw hs _

/-- A value found without touching anything, and then bound. -/
theorem Effect.bindName {x : Eval σ ε Value} {run : Run σ} {s : Store} (hs : s.Sound)
    (he : env < s.chains.size) (hx : Leaves (fun _ => False) Value.Sound s (x run)) :
    Effect env name s ((do let v ← x; bindName env name v; return v) run) := by
  rw [Eval.bind_apply]
  obtain ⟨hsound, hkeeps, hgood⟩ := hx
  generalize x run = result at *
  rcases result with ⟨why | v, run⟩
  · exact ⟨hsound, nofun, fun _ _ => hkeeps⟩
  · have hv : v.Sound run.memory.store := hgood v rfl
    obtain ⟨bound, hbound⟩ := hs.bind_isSome he name v
    obtain ⟨t, ht, hkeeps'⟩ := hkeeps.bind_bind hbound (hs.chain_lt env)
    have hrun : (do Direct.bindName env name v; return v : Eval σ ε Value) run =
        (.ok v, { run with memory := { run.memory with store := t } }) := by
      rw [Eval.bind_apply, bindName_apply, Memory.bind, ht]
      rfl
    show Effect env name s ((do Direct.bindName env name v; return v : Eval σ ε Value) run)
    rw [hrun]
    refine ⟨hsound.bind ht hv, fun w hw => ?_, nofun⟩
    obtain rfl : v = w := by cases hw; rfl
    exact ⟨hv.mono (Nat.le_of_eq (Store.size_chains_bind ht).symm), bound, hbound, hkeeps'⟩

theorem Effect.declare (hs : memory.store.Sound) (he : env < memory.store.chains.size)
    (decl : FunctionDecl) :
    Effect env decl.name memory.store (Direct.declare (ε := ε) env decl ⟨memory, seen⟩) := by
  obtain ⟨bound, hbound⟩ := hs.bind_isSome he decl.name (memory.declared decl)
  obtain ⟨hsound, hf⟩ := Memory.sound_declare hs he hbound
  have hrun : Direct.declare (ε := ε) env decl ⟨memory, seen⟩ = (.ok (memory.declared decl),
      ⟨{ memory with store := (bound.snapshot env).2 }, seen⟩) := by
    rw [declare_apply, Memory.declare_eq, hbound]
    rfl
  rw [hrun]
  refine ⟨hsound, fun w hw => ?_, nofun⟩
  obtain rfl : memory.declared decl = w := by cases hw; rfl
  exact ⟨hf, bound, hbound, .snapshot bound env⟩

/-- A statement writes only to the innermost frame `i` of its environment. -/
theorem Effect.leaves {s : Store} {result : Except (Stop ε) Value × Run σ} {i : FrameId}
    {outer : List FrameId} (h : Effect env name s result) (hc : s.chain env = i :: outer) :
    Leaves (fun j => j = i) Value.Sound s result := by
  obtain ⟨hsound, hsuccess, hfailure⟩ := h
  refine ⟨hsound, ?_, fun v hv => (hsuccess v hv).1⟩
  cases hr : result.1 with
  | error why => exact (hfailure why hr).weaken fun _ _ => False.elim
  | ok v =>
    obtain ⟨-, bound, hbound, hkeeps⟩ := hsuccess v hr
    have hwrite : s.Keeps (fun j => j = i) bound :=
      .bind hbound fun j rest hj => (List.cons.inj (hj.symm.trans hc)).1
    exact hwrite.trans (hkeeps.weaken fun _ _ => False.elim)

end Effect

section Evaluator

variable {obs : Observer σ ε} (hobs : obs.Passive) {call : Caller σ ε} (hcall : Discreet call)
include hobs hcall

theorem statement_effect {env : EnvId} {memory : Memory} {seen : σ} (hs : memory.store.Sound)
    (he : env < memory.store.chains.size) (s : Statement) :
    Effect env s.target memory.store (statement obs call env s ⟨memory, seen⟩) := by
  cases s with
  | define name value pos =>
    simp only [statement]
    refine Effect.announce hobs hs fun _ => ?_
    refine Effect.announce hobs hs fun _ => ?_
    exact Effect.bindName hs he (initial_leaves hcall hs name pos value)
  | function name parameter body ret pos =>
    simp only [statement]
    refine Effect.announce hobs hs fun _ => ?_
    refine Effect.announce hobs hs fun _ => ?_
    exact Effect.declare hs he { name, parameter, body, ret, pos }
  | hole =>
    simp only [statement]
    refine Effect.announce hobs hs fun _ => ?_
    exact Effect.throw hs _

/-! ## Many statements -/

theorem statements_leaves {env : EnvId} {i : FrameId} {outer : List FrameId}
    (ss : List Statement) : ∀ {last : Option Value} {run : Run σ}, run.memory.store.Sound →
      run.memory.store.chain env = i :: outer → last.elim True (Value.Sound run.memory.store) →
        Leaves (fun j => j = i) (fun s last => last.elim True (Value.Sound s)) run.memory.store
          (statements obs call env last ss run) := by
  induction ss with
  | nil =>
    intro last run hs _ hlast
    exact Leaves.pure hs hlast
  | cons s rest ih =>
    intro last run hs hc _
    have he : env < run.memory.store.chains.size := Store.lt_of_chain_eq_cons hc
    refine ((statement_effect hobs hcall hs he s).leaves hc).bind fun v run' hs' hkeeps hv => ?_
    exact ih hs' ((hkeeps.chain env he).trans hc) hv

theorem statementList_leaves {env : EnvId} {i : FrameId} {outer : List FrameId} {run : Run σ}
    (hs : run.memory.store.Sound) (hc : run.memory.store.chain env = i :: outer)
    (ss : List Statement) :
    Leaves (fun j => j = i) (fun s last => last.elim True (Value.Sound s)) run.memory.store
      (statementList obs call env ss run) := by
  refine (announce_leaves hobs hs _ _ _).bind fun _ run' hs' hkeeps _ => ?_
  have he : env < run.memory.store.chains.size := Store.lt_of_chain_eq_cons hc
  exact statements_leaves hobs hcall ss hs' ((hkeeps.chain env he).trans hc) trivial

omit hobs hcall

theorem exists_number_of_add {x y v : Value} (h : x.add y = .ok v) : ∃ z, v = .number z := by
  cases x with
  | number x =>
    cases y with
    | number y => exact ⟨x + y, (Except.ok.inj h).symm⟩
    | function g => cases h
    | absent => cases h
  | function f => cases h
  | absent => cases h

/-- A value that is returned is a number or was bound. -/
theorem returnValue_of_holds {P : Value → Prop} (hnumber : ∀ x, P (.number x)) {s : Store}
    (hs : s.Holds P) {env : EnvId} {decl : FunctionDecl} {v : Value}
    (h : returnValue (ε := ε) s env decl = .ok v) : P v := by
  unfold returnValue at h
  split at h
  · split at h
    · rename_i hv
      exact Except.ok.inj h ▸ hs.lookup hv
    · cases h
  · unfold sumOf at h
    split at h
    · split at h
      · rename_i hsum
        obtain ⟨z, rfl⟩ := exists_number_of_add hsum
        exact Except.ok.inj h ▸ hnumber z
      · cases h
    all_goals cases h
  · cases h

theorem returnValue_sound {s : Store} (hs : s.Sound) {env : EnvId} {decl : FunctionDecl}
    {v : Value} (h : returnValue (ε := ε) s env decl = .ok v) : v.Sound s :=
  returnValue_of_holds (fun _ => trivial) hs.value h

include hobs hcall

theorem functionBody_leaves {env : EnvId} {i : FrameId} {outer : List FrameId}
    {memory : Memory} {seen : σ} (hs : memory.store.Sound)
    (hc : memory.store.chain env = i :: outer) (decl : FunctionDecl) :
    Leaves (fun j => j = i) Value.Sound memory.store
      (functionBody obs call env decl ⟨memory, seen⟩) := by
  have he : env < memory.store.chains.size := Store.lt_of_chain_eq_cons hc
  rw [functionBody_eq]
  refine (announce_leaves hobs hs _ _ _).bind fun _ run hs hkeeps _ => ?_
  refine (statementList_leaves hobs hcall hs ((hkeeps.chain env he).trans hc) decl.body).bind
    fun _ run hs _ _ => ?_
  exact ⟨hs, .refl _, fun v hv => returnValue_sound hs hv⟩

end Evaluator

/-! ## Calls -/

/-- A call keeps everything: its own frame is new, and gone from its environment when the
call has ended. -/
theorem inCall_leaves {f : Closure} {e : EnvId} {argument : Text} {v : Value}
    {body : Eval σ ε Value} {run : Run σ} (hs : run.memory.store.Sound)
    (he : e < run.memory.store.chains.size)
    (hbody : Leaves (fun j => j = run.memory.store.frames.size) Value.Sound
      (run.memory.store.push e f.decl.parameter v)
      (body { run with memory := run.memory.beginCall f e argument v })) :
    Leaves (fun _ => False) Value.Sound run.memory.store (inCall f e argument v body run) := by
  obtain ⟨hsound, hkeeps, hgood⟩ := hbody
  show Leaves _ _ _
    ((body { run with memory := run.memory.beginCall f e argument v }).1,
      { (body { run with memory := run.memory.beginCall f e argument v }).2 with
        memory := (body { run with memory := run.memory.beginCall f e argument v }).2.memory.endCall
          f.decl.name e })
  generalize body { run with memory := run.memory.beginCall f e argument v } = result at *
  have he' : e < (run.memory.store.push e f.decl.parameter v).chains.size := by
    rw [Store.size_chains_push]
    exact he
  -- The body leaves its environment as the call made it, so the frame that is dropped is the
  -- one that was pushed.
  have hchain := (hkeeps.chain e he').trans (Store.chain_push_self he f.decl.parameter v)
  refine ⟨?_, ?_, fun w hw => ?_⟩
  · show (result.2.memory.endCall f.decl.name e).store.Sound
    rw [Memory.store_endCall]
    refine hsound.popped ?_
    rw [hchain]
    exact hs.chain_ne_nil e he
  · show run.memory.store.KeepsAll (result.2.memory.endCall f.decl.name e).store
    rw [Memory.store_endCall]
    exact hkeeps.push_popped he
  · show w.Sound (result.2.memory.endCall f.decl.name e).store
    rw [Memory.store_endCall]
    exact (hgood w hw).mono (Nat.le_of_eq (Store.size_chains_popped _ _).symm)

section Evaluator

variable {obs : Observer σ ε} (hobs : obs.Passive)
include hobs

theorem call_discreet (limit : Nat) : Discreet (call obs limit) := by
  induction limit with
  | zero =>
    intro argument f v run hs _ _
    exact Leaves.throw hs _
  | succ limit ih =>
    intro argument f v run hs hf hv
    obtain ⟨e, hcapture, -, he⟩ := hf
    simp only [call, hcapture]
    refine inCall_leaves hs he ?_
    have hs' := hs.push e f.decl.parameter hv
    have hc := Store.chain_push_self he f.decl.parameter v
    rw [← Memory.store_beginCall run.memory f e argument v] at hs' hc
    exact functionBody_leaves hobs ih hs' hc f.decl

/-- A whole program writes only to the innermost frame of its environment. -/
theorem program_leaves {env : EnvId} {i : FrameId} {outer : List FrameId} {memory : Memory}
    {seen : σ} (hs : memory.store.Sound) (hc : memory.store.chain env = i :: outer) (limit : Nat)
    (p : Program) :
    Leaves (fun j => j = i) Value.Sound memory.store (program obs limit env p ⟨memory, seen⟩) := by
  have he : env < memory.store.chains.size := Store.lt_of_chain_eq_cons hc
  refine (announce_leaves hobs hs _ _ _).bind fun _ run hs hkeeps _ => ?_
  have hc := (hkeeps.chain env he).trans hc
  have he : env < run.memory.store.chains.size := Store.lt_of_chain_eq_cons hc
  refine (announce_leaves hobs hs _ _ _).bind fun _ run hs hkeeps _ => ?_
  have hc := (hkeeps.chain env he).trans hc
  refine (statementList_leaves hobs (call_discreet hobs limit) hs hc p.statements).bind
    fun last run hs _ hlast => ?_
  cases last with
  | none => exact Leaves.throw hs _
  | some v => exact Leaves.pure hs hlast

end Evaluator

end Direct
end Stepwise
