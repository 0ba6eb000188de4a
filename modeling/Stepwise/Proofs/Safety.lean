/-
Evaluating a complete program never goes wrong of itself.

A program without holes, in a fresh memory and under an observer that leaves the environments
alone, ends with a value, with a diagnosis, or because the observer or the limit on calls says so.
No hole is met, every function that is called has an environment, every name can be bound, and each
call finds its frame when it ends.

The last two rest on `Store.Sound`, which holds between any two steps (see `Effects`): no
environment is without frames.  The first rests on what is bound: `Value.Proper` says that a
function has no hole in its declaration.  The evaluator is followed function by function, as in
`Effects`, for a caller that is itself safe, and then for its own by induction on the limit.

A program that was decoded has no holes (`Program.isComplete_of_decode`).
-/
import Stepwise.Proofs.Endings
import Stepwise.Proofs.Ownership
import Stepwise.Proofs.Walking
import Stepwise.Wire.Decode

namespace Stepwise

variable {σ ε α β : Type}

/-! ## Decoded programs -/

theorem Statement.areComplete_iff {ss : List Statement} :
    areComplete ss = true ↔ ∀ s ∈ ss, s.isComplete = true := by
  induction ss with
  | nil => exact ⟨nofun, fun _ => rfl⟩
  | cons s ss ih => rw [areComplete, Bool.and_eq_true, ih, List.forall_mem_cons]

theorem exists_of_mapM_eq_ok {f : α → Except ε β} {l : List α} :
    ∀ {l' : List β}, l.mapM f = .ok l' → ∀ b ∈ l', ∃ a ∈ l, f a = .ok b := by
  induction l with
  | nil =>
    intro l' h
    cases h
    exact nofun
  | cons a l ih =>
    intro l' h b hb
    rw [List.mapM_cons] at h
    obtain ⟨a', ha', h⟩ := exists_of_bind_eq_ok h
    obtain ⟨rest, hrest, h⟩ := exists_of_bind_eq_ok h
    cases h
    rcases List.mem_cons.mp hb with rfl | hb
    · exact ⟨a, List.mem_cons_self, ha'⟩
    · obtain ⟨x, hx, hfx⟩ := ih hrest b hb
      exact ⟨x, List.mem_cons_of_mem a hx, hfx⟩

namespace Wire

theorem initializer_isComplete {name t : Text} {value : Initializer}
    (h : initializer name t = .ok value) : value.isComplete = true := by
  unfold initializer at h
  split at h
  · rename_i literal hfield
    have h := explain_ok h
    cases hs : getString ["source"] literal with
    | error e => rw [hs] at h; cases h
    | ok s => rw [hs] at h; cases h; rfl
  · split at h
    · obtain ⟨callee, -, h⟩ := exists_of_bind_eq_ok h
      obtain ⟨argument, -, h⟩ := exists_of_bind_eq_ok h
      cases h
      rfl
    · cases h

theorem definition_isComplete {t : Text} {s : Statement} (h : definition t = .ok s) :
    s.isComplete = true := by
  obtain ⟨name, -, h⟩ := exists_of_bind_eq_ok h
  obtain ⟨text, -, h⟩ := exists_of_bind_eq_ok h
  obtain ⟨value, hvalue, h⟩ := exists_of_bind_eq_ok h
  obtain ⟨pos, -, h⟩ := exists_of_bind_eq_ok h
  cases h
  exact initializer_isComplete hvalue

theorem returnExpr_isComplete {name body : Text} {ret : ReturnExpr}
    (h : returnExpr name body = .ok ret) : ret.isComplete = true := by
  obtain ⟨value, -, h⟩ := exists_of_bind_eq_ok h
  split at h
  · rename_i literal hfield
    have h := explain_ok h
    cases hs : getString ["source"] literal with
    | error e => rw [hs] at h; cases h
    | ok s => rw [hs] at h; cases h; rfl
  · split at h
    · obtain ⟨left, -, h⟩ := exists_of_bind_eq_ok h
      obtain ⟨right, -, h⟩ := exists_of_bind_eq_ok h
      cases h
      rfl
    · cases h

theorem statement_isComplete {t : Text} {s : Statement} (h : statement t = .ok s) :
    s.isComplete = true := by
  induction hn : t.length using Nat.strongRecOn generalizing t s with
  | _ n ih =>
    subst hn
    rw [statement] at h
    split at h
    · exact definition_isComplete h
    · split at h
      · cases h
      · rename_i v hv
        split at h
        · cases h
        · rename_i o ho
          obtain ⟨body, hbody, h⟩ := exists_of_bind_eq_ok h
          obtain ⟨ret, hret, h⟩ := exists_of_bind_eq_ok h
          obtain ⟨pos, -, h⟩ := exists_of_bind_eq_ok h
          cases h
          have hcomplete : Statement.areComplete body = true := by
            refine Statement.areComplete_iff.mpr fun s hs => ?_
            obtain ⟨⟨e, he⟩, -, hes⟩ := exists_of_mapM_eq_ok hbody s hs
            have hlength : e.length < t.length :=
              Nat.lt_trans (outline_length ho e he) (field_length hv)
            exact ih e.length hlength hes rfl
          show (Statement.areComplete body && ret.isComplete) = true
          rw [hcomplete, returnExpr_isComplete hret]
          rfl

end Wire

theorem Program.isComplete_of_decode {t : Text} {p : Program} (h : Program.decode t = .ok p) :
    p.isComplete = true := by
  obtain ⟨file, -, h⟩ := exists_of_bind_eq_ok h
  obtain ⟨texts, -, h⟩ := exists_of_bind_eq_ok h
  obtain ⟨statements, hstatements, h⟩ := exists_of_bind_eq_ok h
  obtain ⟨pos, -, h⟩ := exists_of_bind_eq_ok h
  cases h
  refine Statement.areComplete_iff.mpr fun s hs => ?_
  obtain ⟨t, -, ht⟩ := exists_of_mapM_eq_ok hstatements s hs
  exact Wire.statement_isComplete ht

/-! ## What is bound -/

/-- A value that evaluating a complete program can give. -/
def Value.Proper : Value → Prop
  | .number _ => True
  | .function f => f.decl.statement.isComplete = true
  | .absent => False

/-- All names are bound to proper values, and no call has missed its frame. -/
structure Memory.Proper (m : Memory) : Prop where
  value : ∀ i name v, (m.store.frame i).get? name = some v → v.Proper
  log : ∀ name, .unbalanced name ∉ m.log

namespace Memory.Proper

variable {m : Memory} {e : EnvId} {name : Text} {v : Value}

theorem fresh : Memory.fresh.Proper where
  value := holds_fresh _
  log _ := Array.not_mem_empty _

theorem lookup (h : m.Proper) (hl : m.store.lookup e name = some v) : v.Proper :=
  Store.Holds.lookup h.value hl

theorem bind {t : Store} (h : m.Proper) (hb : m.store.bind e name v = some t) (hv : v.Proper) :
    ({ m with store := t } : Memory).Proper where
  value := Store.Holds.bind h.value hb hv
  log := h.log

theorem snapshot (h : m.Proper) (e : EnvId) :
    ({ m with store := (m.store.snapshot e).2 } : Memory).Proper where
  value := h.value
  log := h.log

theorem beginCall (h : m.Proper) (f : Closure) (e : EnvId) (argument : Text) (hv : v.Proper) :
    (m.beginCall f e argument v).Proper where
  value := Store.Holds.push h.value e f.decl.parameter hv
  log n hn := by
    rcases Array.mem_push.mp hn with hn | hn
    · exact h.log n hn
    · cases hn

/-- Where there is a frame to drop, nothing is noted. -/
theorem endCall (h : m.Proper) (hc : m.store.chain e ≠ []) : (m.endCall name e).Proper := by
  cases hchain : m.store.chain e with
  | nil => exact absurd hchain hc
  | cons i rest =>
    rw [Memory.endCall, Store.pop_of_chain hchain]
    exact ⟨h.value, h.log⟩

end Memory.Proper

/-! ## Safe parts -/

/-- An ending that the program, the limit on calls or the observer has to answer for.  If it is the
observer, then it has just given that reason. -/
def Stop.Expected (obs : Observer σ ε) (seen : σ) : Stop ε → Prop
  | .diagnosed _ => True
  | .tooDeep => True
  | .interrupted why => ∃ ev s before,
      (obs ev s before).stop = some why ∧ (obs ev s before).seen = seen
  | .unbindable _ => False
  | .missing _ => False
  | .uncaptured => False

namespace Direct

/-- How a part that nothing went wrong in may leave a run. -/
structure Safe (obs : Observer σ ε) (good : α → Prop) (result : Except (Stop ε) α × Run σ) :
    Prop where
  proper : result.2.memory.Proper
  stop : ∀ why, result.1 = .error why → why.Expected obs result.2.seen
  value : ∀ a, result.1 = .ok a → good a

section Safe

variable {obs : Observer σ ε} {good : α → Prop} {good' : β → Prop} {run : Run σ}

theorem Safe.bind {exempt : FrameId → Prop} {sound : Store → α → Prop} {s : Store}
    {x : Eval σ ε α} {f : α → Eval σ ε β} (hleaves : Leaves exempt sound s (x run))
    (hx : Safe obs good (x run))
    (hf : ∀ a run, run.memory.store.Sound → s.Keeps exempt run.memory.store →
      sound run.memory.store a → run.memory.Proper → good a → Safe obs good' (f a run)) :
    Safe obs good' ((x >>= f) run) := by
  rw [Eval.bind_apply]
  obtain ⟨hsound, hkeeps, hgood⟩ := hleaves
  obtain ⟨hproper, hstop, hvalue⟩ := hx
  generalize x run = result at *
  rcases result with ⟨why | a, run⟩
  · refine ⟨hproper, fun why' h => ?_, nofun⟩
    cases h
    exact hstop why rfl
  · exact hf a run hsound hkeeps (hgood a rfl) hproper (hvalue a rfl)

theorem Safe.pure {a : α} (hm : run.memory.Proper) (ha : good a) :
    Safe obs good ((Pure.pure a : Eval σ ε α) run) :=
  ⟨hm, nofun, fun b hb => by cases hb; exact ha⟩

theorem Safe.throw {why : Stop ε} (hm : run.memory.Proper) (hwhy : why.Expected obs run.seen) :
    Safe obs good ((MonadExcept.throw why : Eval σ ε α) run) :=
  ⟨hm, fun why' h => by cases h; exact hwhy, nofun⟩

theorem Safe.announce (hobs : obs.Passive) (hs : run.memory.store.Sound) (hm : run.memory.Proper)
    {next : Unit → Eval σ ε β} {kind : EventKind} {env : EnvId} {pos : Option Position}
    (hnext : ∀ u run', run'.memory.store.Sound → run.memory.store.KeepsAll run'.memory.store →
      run'.memory.Proper → Safe obs good' (next u run')) :
    Safe obs good' ((Direct.announce obs kind env pos >>= next) run) := by
  rw [Eval.bind_apply, announce_apply]
  simp only [hobs { kind, env, pos } run.memory.store run.seen]
  cases hstop : (obs { kind, env, pos } run.memory.store run.seen).stop with
  | none => exact hnext () _ hs (.refl _) hm
  | some reason =>
    refine ⟨hm, fun why h => ?_, nofun⟩
    cases h
    exact ⟨_, _, _, hstop, rfl⟩

end Safe

/-- A caller that is safe. -/
def SafeCaller (obs : Observer σ ε) (call : Caller σ ε) : Prop :=
  ∀ (argument : Text) (f : Closure) (v : Value) (run : Run σ), run.memory.store.Sound →
    (Value.function f).Sound run.memory.store → v.Sound run.memory.store → run.memory.Proper →
      (Value.function f).Proper → v.Proper → Safe obs Value.Proper (call argument f v run)

/-- A return expression that is there gives a number or a value that is bound, or a diagnosis. -/
theorem returnValue_holds {P : Value → Prop} (hnumber : ∀ x, P (.number x)) {s : Store}
    (hs : s.Holds P) (env : EnvId) {decl : FunctionDecl} (hret : decl.ret.isComplete = true) :
    (∃ v, P v ∧ returnValue (ε := ε) s env decl = .ok v) ∨
      ∃ d, returnValue (ε := ε) s env decl = .error (.diagnosed d) := by
  cases hv : returnValue (ε := ε) s env decl with
  | ok v => exact .inl ⟨v, returnValue_of_holds hnumber hs hv, rfl⟩
  | error why =>
    refine .inr ?_
    unfold returnValue at hv
    cases hr : decl.ret with
    | name x =>
      rw [hr] at hv
      simp only at hv
      split at hv
      · cases hv
      · exact ⟨_, hv.symm⟩
    | sum left right =>
      rw [hr] at hv
      simp only at hv
      cases hsum : sumOf s env left right decl.pos with
      | ok v => rw [hsum] at hv; cases hv
      | error d =>
        rw [hsum] at hv
        exact ⟨d, hv.symm⟩
    | hole =>
      rw [hr] at hret
      cases hret

section Evaluator

variable {obs : Observer σ ε} (hobs : obs.Passive) {call : Caller σ ε} (hcall : Discreet call)
  (hsafe : SafeCaller obs call)

section

include hsafe

theorem initial_safe {env : EnvId} {memory : Memory} {seen : σ} (hs : memory.store.Sound)
    (hm : memory.Proper) (name : Text) (pos : Position) {value : Initializer}
    (hvalue : value.isComplete = true) :
    Safe obs Value.Proper (initial call env name pos value ⟨memory, seen⟩) := by
  cases value with
  | literal lexeme =>
    show Safe obs _ (diagnose (literalValue name pos lexeme) _)
    unfold literalValue
    cases Numeral.read lexeme with
    | ok x => exact Safe.pure hm trivial
    | error e => exact Safe.throw hm trivial
  | call callee argument =>
    simp only [initial]
    rw [← bind_assoc, Eval.bind_apply, diagnose_ask_apply]
    cases hfv : resolveCall memory.store env callee argument pos with
    | error d => exact Safe.throw hm trivial
    | ok fv =>
      obtain ⟨hf, hv⟩ := resolveCall_eq_ok hfv
      exact hsafe argument fv.1 fv.2 ⟨memory, seen⟩ hs (hs.lookup hf) (hs.lookup hv) hm
        (hm.lookup hf) (hm.lookup hv)
  | hole => cases hvalue

end

/-- A value that was found safely can be bound, where there is an environment. -/
theorem Safe.bindName {env : EnvId} {name : Text} {x : Eval σ ε Value} {run : Run σ} {s : Store}
    (he : env < s.chains.size) (hleaves : Leaves (fun _ => False) Value.Sound s (x run))
    (hx : Safe obs Value.Proper (x run)) :
    Safe obs Value.Proper ((do let v ← x; bindName env name v; return v) run) := by
  refine Safe.bind hleaves hx fun v run hsound hkeeps _ hm hv => ?_
  have he' : env < run.memory.store.chains.size := Nat.lt_of_lt_of_le he hkeeps.chains_le
  obtain ⟨t, ht⟩ := hsound.bind_isSome he' name v
  have hrun : (do Direct.bindName env name v; return v : Eval σ ε Value) run =
      (.ok v, { run with memory := { run.memory with store := t } }) := by
    rw [Eval.bind_apply, bindName_apply, Memory.bind, ht]
    rfl
  rw [hrun]
  refine ⟨hm.bind ht hv, ?_, ?_⟩
  · intro why hwhy
    cases hwhy
  · intro w hw
    cases hw
    exact hv

theorem Safe.declare {env : EnvId} {memory : Memory} {seen : σ} (hs : memory.store.Sound)
    (hm : memory.Proper) (he : env < memory.store.chains.size) {decl : FunctionDecl}
    (hdecl : decl.statement.isComplete = true) :
    Safe obs Value.Proper (Direct.declare env decl ⟨memory, seen⟩) := by
  have hf : (memory.declared decl).Proper := hdecl
  obtain ⟨t, ht⟩ := hs.bind_isSome he decl.name (memory.declared decl)
  have hrun : Direct.declare (ε := ε) env decl ⟨memory, seen⟩ = (.ok (memory.declared decl),
      ⟨{ memory with store := (t.snapshot env).2 }, seen⟩) := by
    rw [declare_apply, Memory.declare_eq, ht]
    rfl
  rw [hrun]
  exact ⟨(hm.bind ht hf).snapshot env, nofun, fun w hw => by cases hw; exact hf⟩

include hobs hcall hsafe

theorem statement_safe {env : EnvId} {memory : Memory} {seen : σ} (hs : memory.store.Sound)
    (hm : memory.Proper) (he : env < memory.store.chains.size) {s : Statement}
    (hcomplete : s.isComplete = true) :
    Safe obs Value.Proper (statement obs call env s ⟨memory, seen⟩) := by
  cases s with
  | define name value pos =>
    simp only [statement]
    refine Safe.announce hobs hs hm fun _ run hs hkeeps hm => ?_
    have he := Nat.lt_of_lt_of_le he hkeeps.chains_le
    refine Safe.announce hobs hs hm fun _ run hs hkeeps hm => ?_
    have he := Nat.lt_of_lt_of_le he hkeeps.chains_le
    exact Safe.bindName he (initial_leaves hcall hs name pos value)
      (initial_safe hsafe hs hm name pos hcomplete)
  | function name parameter body ret pos =>
    simp only [statement]
    refine Safe.announce hobs hs hm fun _ run hs hkeeps hm => ?_
    have he := Nat.lt_of_lt_of_le he hkeeps.chains_le
    refine Safe.announce hobs hs hm fun _ run hs hkeeps hm => ?_
    have he := Nat.lt_of_lt_of_le he hkeeps.chains_le
    exact Safe.declare hs hm he hcomplete
  | hole => cases hcomplete

theorem statements_safe {env : EnvId} {i : FrameId} {outer : List FrameId} {ss : List Statement}
    (hcomplete : Statement.areComplete ss = true) :
    ∀ {last : Option Value} {run : Run σ}, run.memory.store.Sound → run.memory.Proper →
      run.memory.store.chain env = i :: outer → (∀ v ∈ last, v.Proper) →
        Safe obs (fun last => ∀ v ∈ last, v.Proper) (statements obs call env last ss run) := by
  induction ss with
  | nil =>
    intro last run _ hm _ hlast
    exact Safe.pure hm hlast
  | cons s rest ih =>
    intro last run hs hm hc _
    have he : env < run.memory.store.chains.size := Store.lt_of_chain_eq_cons hc
    obtain ⟨hs', hrest⟩ := (Bool.and_eq_true _ _).mp hcomplete
    refine Safe.bind ((statement_effect hobs hcall hs he s).leaves hc)
      (statement_safe hobs hcall hsafe hs hm he hs') fun v run hs hkeeps _ hm hv => ?_
    refine ih hrest hs hm ((hkeeps.chain env he).trans hc) fun w hw => ?_
    cases hw
    exact hv

theorem statementList_safe {env : EnvId} {i : FrameId} {outer : List FrameId} {run : Run σ}
    (hs : run.memory.store.Sound) (hm : run.memory.Proper)
    (hc : run.memory.store.chain env = i :: outer) {ss : List Statement}
    (hcomplete : Statement.areComplete ss = true) :
    Safe obs (fun last => ∀ v ∈ last, v.Proper) (statementList obs call env ss run) := by
  have he : env < run.memory.store.chains.size := Store.lt_of_chain_eq_cons hc
  refine Safe.announce hobs hs hm fun _ run hs hkeeps hm => ?_
  exact statements_safe hobs hcall hsafe hcomplete hs hm ((hkeeps.chain env he).trans hc) nofun

theorem functionBody_safe {env : EnvId} {i : FrameId} {outer : List FrameId} {run : Run σ}
    (hs : run.memory.store.Sound) (hm : run.memory.Proper)
    (hc : run.memory.store.chain env = i :: outer) {decl : FunctionDecl}
    (hcomplete : decl.statement.isComplete = true) :
    Safe obs Value.Proper (functionBody obs call env decl run) := by
  have he : env < run.memory.store.chains.size := Store.lt_of_chain_eq_cons hc
  obtain ⟨hbody, hret⟩ := (Bool.and_eq_true _ _).mp hcomplete
  rw [functionBody_eq]
  refine Safe.announce hobs hs hm fun _ run hs hkeeps hm => ?_
  have hc := (hkeeps.chain env he).trans hc
  refine Safe.bind (statementList_leaves hobs hcall hs hc decl.body)
    (statementList_safe hobs hcall hsafe hs hm hc hbody) fun _ run hs _ _ hm _ => ?_
  rcases returnValue_holds (ε := ε) (P := Value.Proper) (fun _ => trivial) hm.value env hret with
    ⟨v, hv, hreturn⟩ | ⟨d, hreturn⟩
  · refine ⟨hm, fun why h => ?_, fun w hw => ?_⟩
    · cases hreturn.symm.trans h
    · cases hreturn.symm.trans hw
      exact hv
  · refine ⟨hm, fun why h => ?_, fun w hw => ?_⟩
    · cases hreturn.symm.trans h
      trivial
    · cases hreturn.symm.trans hw

end Evaluator

theorem inCall_safe {obs : Observer σ ε} {f : Closure} {e : EnvId} {argument : Text} {v : Value}
    {body : Eval σ ε Value} {run : Run σ} (he : e < run.memory.store.chains.size)
    (hbody : Leaves (fun j => j = run.memory.store.frames.size) Value.Sound
      (run.memory.store.push e f.decl.parameter v)
      (body { run with memory := run.memory.beginCall f e argument v }))
    (hsafe : Safe obs Value.Proper
      (body { run with memory := run.memory.beginCall f e argument v })) :
    Safe obs Value.Proper (inCall f e argument v body run) := by
  obtain ⟨hproper, hstop, hvalue⟩ := hsafe
  refine ⟨?_, hstop, hvalue⟩
  have he' : e < (run.memory.store.push e f.decl.parameter v).chains.size := by
    rw [Store.size_chains_push]
    exact he
  -- The frame that the call pushed is still there when the body has ended.
  have hchain := (hbody.keeps.chain e he').trans (Store.chain_push_self he f.decl.parameter v)
  refine hproper.endCall ?_
  rw [hchain]
  exact List.cons_ne_nil _ _

section Evaluator

variable {obs : Observer σ ε} (hobs : obs.Passive)
include hobs

theorem call_safe (limit : Nat) : SafeCaller obs (call obs limit) := by
  induction limit with
  | zero =>
    intro argument f v run _ _ _ hm _ _
    exact Safe.throw hm trivial
  | succ limit ih =>
    intro argument f v run hs hf hv hm hf' hv'
    obtain ⟨e, hcapture, -, he⟩ := hf
    simp only [call, hcapture]
    have hs' := hs.push e f.decl.parameter hv
    have hc := Store.chain_push_self he f.decl.parameter v
    rw [← Memory.store_beginCall run.memory f e argument v] at hs' hc
    have hcall := call_discreet hobs limit
    exact inCall_safe he (functionBody_leaves hobs hcall hs' hc f.decl)
      (functionBody_safe hobs hcall ih hs' (hm.beginCall f e argument hv') hc hf')

theorem program_safe {env : EnvId} {i : FrameId} {outer : List FrameId} {run : Run σ}
    (hs : run.memory.store.Sound) (hm : run.memory.Proper)
    (hc : run.memory.store.chain env = i :: outer) (limit : Nat) {p : Program}
    (hcomplete : p.isComplete = true) :
    Safe obs Value.Proper (program obs limit env p run) := by
  have he : env < run.memory.store.chains.size := Store.lt_of_chain_eq_cons hc
  refine Safe.announce hobs hs hm fun _ run hs hkeeps hm => ?_
  have hc := (hkeeps.chain env he).trans hc
  have he : env < run.memory.store.chains.size := Store.lt_of_chain_eq_cons hc
  refine Safe.announce hobs hs hm fun _ run hs hkeeps hm => ?_
  have hc := (hkeeps.chain env he).trans hc
  have hcall := call_discreet hobs limit
  refine Safe.bind (statementList_leaves hobs hcall hs hc p.statements)
    (statementList_safe hobs hcall (call_safe hobs limit) hs hm hc hcomplete)
    fun last run _ _ _ hm hlast => ?_
  cases last with
  | none => exact Safe.throw hm trivial
  | some v => exact Safe.pure hm (hlast v rfl)

end Evaluator

end Direct

/-! ## Whole evaluations -/

/-- Every function that a frame holds has an environment to run in, and that has a frame. -/
def Store.Runnable (s : Store) : Prop :=
  ∀ i name f, (s.frame i).get? name = some (.function f) →
    ∃ e, f.capture = .env e ∧ s.chain e ≠ []

theorem Store.Sound.runnable {s : Store} (hs : s.Sound) : s.Runnable := by
  intro i name f hf
  obtain ⟨e, hcapture, -, he⟩ := hs.value i name _ hf
  exact ⟨e, hcapture, hs.chain_ne_nil e he⟩

/-- As many steps, as many scenes. -/
theorem Scene.isSome_after_of_steps {obs : Observer σ ε} (hobs : obs.Passive) {n : Nat} :
    ∀ {sc : Scene} {seen : σ} {c : Machine.Config σ ε},
      Machine.Steps obs n (sc.config seen) c → ∀ i < n, (sc.after i).isSome = true := by
  induction n with
  | zero => exact fun _ i hi => absurd hi (Nat.not_lt_zero i)
  | succ n ih =>
    intro sc seen c h i hi
    cases i with
    | zero => rfl
    | succ i =>
      have hi : i < n := Nat.lt_of_succ_lt_succ hi
      cases h with
      | step h =>
        rw [react_of_passive hobs] at h
        simp only at h
        cases hstop : (obs sc.machine.event sc.memory.store seen).stop with
        | some why =>
          rw [hstop] at h
          obtain ⟨rfl, -⟩ := h.of_ended
          omega
        | none =>
          rw [hstop] at h
          rcases sc.resume_cases ε with ⟨sc', hnext, hresume⟩ | ⟨memory, outcome, -, hresume⟩
          · simp only [hresume] at h
            rw [after_succ hnext]
            exact ih h i hi
          · simp only [hresume] at h
            obtain ⟨rfl, -⟩ := h.of_ended
            omega

/-- The limit on calls ends only an evaluation of at least as many events. -/
theorem Program.isSome_sceneAt_of_tooDeep {obs : Observer σ ε} (hobs : obs.Passive) {p : Program}
    {limit : Nat} {memory : Memory} {seen : σ}
    (h : (p.evaluate obs limit memory seen).1 = .error .tooDeep) :
    ∀ i < limit, (p.sceneAt memory i).isSome = true := by
  have hfollows := Machine.evaluate_follows obs limit p memory seen
  generalize p.evaluate obs limit memory seen = result at *
  rcases result with ⟨outcome, run⟩
  obtain rfl : outcome = .error .tooDeep := h
  obtain ⟨n, d, hn, hsteps, -⟩ := hfollows
  have hsteps : Machine.Steps obs n ((Scene.start p memory).config seen) d := hsteps
  intro i hi
  exact Scene.isSome_after_of_steps hobs hsteps i (Nat.lt_of_lt_of_le hi hn)

/-- A program that was decoded has no holes.  And a program without holes is evaluated without
anything going wrong, under any observer that leaves the environments alone: the evaluation ends
with a number or a function, or with a diagnosis, or because the observer has just said so, or at
the limit on calls if it has that many events.  Each call finds its frame when it ends.  At every
event and at the end, every function that is bound has an environment with a frame, and so have the
environments in which the program and the running calls are evaluated. -/
theorem complete_never_goes_wrong :
    (∀ (t : Text) (p : Program), Program.decode t = .ok p → p.isComplete = true) ∧
    ∀ (p : Program), p.isComplete = true → ∀ {obs : Observer σ ε}, obs.Passive →
      ∀ (limit : Nat) (seen : σ),
        (let result := p.evaluate obs limit .fresh seen
         result.2.memory.store.Runnable ∧ result.2.memory.store.chain Memory.globalEnv ≠ [] ∧
         (∀ name, .unbalanced name ∉ result.2.memory.log) ∧
         (∀ v, result.1 = .ok v → v.Proper) ∧
         (∀ why, result.1 = .error why → why.Expected obs result.2.seen) ∧
         (result.1 = .error .tooDeep → ∀ i < limit, (p.sceneAt .fresh i).isSome = true)) ∧
        ∀ (i : Nat) s, (p.sightings obs limit .fresh seen)[i]? = some s →
          s.store.Runnable ∧ s.store.chain Memory.globalEnv ≠ [] ∧ s.store.chain s.event.env ≠ [] ∧
          ∃ sc, p.sceneAt .fresh i = some sc ∧ s = sc.sighting ∧
            ∀ a ∈ sc.machine.calls, s.store.chain a.env ≠ [] := by
  refine ⟨fun t p => Program.isComplete_of_decode, fun p hcomplete obs hobs limit seen => ⟨?_, ?_⟩⟩
  · have hglobal : Memory.fresh.store.chain Memory.globalEnv = [0] := rfl
    have hleaves : Direct.Leaves (fun j => j = 0) Value.Sound Memory.fresh.store
        (p.evaluate obs limit .fresh seen) :=
      Direct.program_leaves hobs Memory.sound_fresh hglobal limit p
    have hsafe : Direct.Safe obs Value.Proper (p.evaluate obs limit .fresh seen) :=
      Direct.program_safe hobs Memory.sound_fresh .fresh hglobal limit hcomplete
    have hlt : Memory.globalEnv < Memory.fresh.store.chains.size := Nat.zero_lt_one
    exact ⟨hleaves.sound.runnable,
      hleaves.sound.chain_ne_nil _ (Nat.lt_of_lt_of_le hlt hleaves.keeps.chains_le),
      hsafe.proper.log, hsafe.value, hsafe.stop, Program.isSome_sceneAt_of_tooDeep hobs⟩
  · intro i s hs
    obtain ⟨sc, hsc, rfl⟩ := Program.sightings_scene hobs hs
    have hbalanced := Program.sceneAt_isBalanced Memory.sound_fresh rfl hsc
    have hsound := hbalanced.balanced.sound
    obtain ⟨outer, henv⟩ := hbalanced.chain_env
    refine ⟨hsound.runnable, ?_, ?_, sc, hsc, rfl, fun a ha => ?_⟩
    · show sc.memory.store.chain Memory.globalEnv ≠ []
      rw [hbalanced.balanced.global]
      exact List.cons_ne_nil _ _
    · show sc.memory.store.chain sc.machine.event.env ≠ []
      rw [Machine.event_env]
      exact henv ▸ List.cons_ne_nil _ _
    · exact hsound.chain_ne_nil a.env (hbalanced.balanced.callees a ha).2

/-- The declaration of a function that calls itself. -/
def recursionText : Text :=
  "\x7b\"SourceFile\":\x7b\"StatementList\":[\x7b\"FunctionDeclaration\":\x7b" ++
    "\"FunctionName\":\x7b\"source\":\"f\"\x7d,\"FunctionParameter\":\x7b\"source\":\"x\"\x7d," ++
    "\"FunctionBody\":\x7b\"StatementList\":[\x7b\"VariableDeclaration\":\x7b" ++
    "\"VariableName\":\x7b\"source\":\"y\"\x7d,\"VariableValue\":\x7b\"CallExpression\":\x7b" ++
    "\"FunctionName\":\x7b\"source\":\"f\"\x7d,\"FunctionArgument\":" ++
    "\x7b\"source\":\"x\"\x7d\x7d\x7d\x7d\x7d],\"ReturnStatement\":\x7b\"ReturnValue\":" ++
    "\x7b\"Literal\":\x7b\"source\":\"y\"\x7d\x7d\x7d\x7d\x7d\x7d]\x7d\x7d"

/-- The text is decoded to a program without holes; and the evaluation that never ends is stopped
inside its fifth call, and nothing has gone wrong. -/
theorem endless_never_goes_wrong :
    (∃ p, Program.decode recursionText = .ok p ∧ p.isComplete = true) ∧
    endless.isComplete = true ∧
    let result := endless.evaluate (.scripted [] 24 ()) 30 .fresh #[]
    result.1 = .error (.interrupted ()) ∧ result.2.memory.store.Runnable ∧
    (∀ name, .unbalanced name ∉ result.2.memory.log) ∧
    ∀ (i : Nat) s, (endless.sightings (.scripted [] 24 ()) 30 .fresh #[])[i]? = some s →
      s.store.Runnable ∧ s.store.chain s.event.env ≠ [] := by
  have hsafe := @complete_never_goes_wrong (Array Observer.Sighting) Unit
  have hpassive : (Observer.scripted [] 24 ()).Passive := Observer.scripted_passive 24 ()
  have hcomplete : endless.isComplete = true := by decide
  refine ⟨?_, hcomplete, ?_⟩
  · cases hdecode : Program.decode recursionText with
    | ok p => exact ⟨p, rfl, hsafe.1 recursionText p hdecode⟩
    | error e =>
      have hok : (Program.decode recursionText).isOk = true := by decide +kernel
      rw [hdecode] at hok
      cases hok
  · obtain ⟨sc, hsc⟩ : ∃ sc, endless.sceneAt .fresh 23 = some sc :=
      Option.isSome_iff_exists.mp (by decide +kernel)
    have hafter : (Observer.scripted [] 24 ()).StopsAfter () 23 #[] :=
      Observer.scripted_stopsAfter () (by decide)
    have hstopped : (endless.evaluate (.scripted [] 24 ()) 30 .fresh #[]).1 =
        .error (.interrupted ()) := by
      rw [Program.evaluate_of_stopped hpassive (hafter.stopsAt _) hsc (by decide)]
    have hrun := hsafe.2 endless hcomplete hpassive 30 #[]
    exact ⟨hstopped, hrun.1.1, hrun.1.2.2.1, fun i s hs =>
      ⟨(hrun.2 i s hs).1, (hrun.2 i s hs).2.2.1⟩⟩

end Stepwise
