/-
Which frames an environment consists of while calls are running.

A function keeps one environment for all its calls.  Each call pushes a frame onto it and
pops it again, so at any event the environment consists of the frames that the function
captured and, in front of them, the frames of those of its calls that are running.
`Balanced` says so of all environments at once, and every scene is balanced
(`Program.sceneAt_isBalanced`).

It follows that a running call sees the captured frames and its own and no others exactly if
its function was not running already when it was called.
-/
import Stepwise.Proofs.Scenes

namespace Stepwise

variable {σ ε : Type}

/-- The frames, among those `owned` by the running `calls`, of the calls in the
environment `e`. -/
def framesOf (e : EnvId) : (calls : List Activation) → (owned : List FrameId) → List FrameId
  | a :: calls, i :: owned =>
    if a.env = e then i :: framesOf e calls owned else framesOf e calls owned
  | _, _ => []

theorem framesOf_cons_self (a : Activation) (calls : List Activation) (i : FrameId)
    (owned : List FrameId) :
    framesOf a.env (a :: calls) (i :: owned) = i :: framesOf a.env calls owned :=
  if_pos rfl

theorem framesOf_cons_of_ne {e : EnvId} {a : Activation} (h : a.env ≠ e) (calls : List Activation)
    (i : FrameId) (owned : List FrameId) :
    framesOf e (a :: calls) (i :: owned) = framesOf e calls owned :=
  if_neg h

theorem framesOf_eq_nil_iff {e : EnvId} {calls : List Activation} :
    ∀ {owned : List FrameId}, owned.length = calls.length →
      (framesOf e calls owned = [] ↔ ∀ a ∈ calls, a.env ≠ e) := by
  induction calls with
  | nil =>
    intro owned _
    exact ⟨fun _ => nofun, fun _ => by cases owned <;> rfl⟩
  | cons a calls ih =>
    intro owned h
    cases owned with
    | nil => cases h
    | cons i owned =>
      by_cases ha : a.env = e
      · subst ha
        rw [framesOf_cons_self]
        exact ⟨fun h => absurd h nofun, fun h => absurd rfl (h a List.mem_cons_self)⟩
      · rw [framesOf_cons_of_ne ha, ih (Nat.succ.inj h)]
        simp [ha]

/-! ## Balance -/

/-- Each environment consists of the frames it captured and of those of its running calls. -/
structure Balanced (calls : List Activation) (owned : List FrameId)
    (captured : List (List FrameId)) (s : Store) : Prop where
  sound : s.Sound
  global : s.chain Memory.globalEnv = [0]
  aligned : owned.length = calls.length
  callees : ∀ a ∈ calls, 0 < a.env ∧ a.env < s.chains.size
  captures : captured.length = s.chains.size
  captured_ne_nil : ∀ chain ∈ captured, chain ≠ []
  chain : ∀ e, e < s.chains.size → s.chain e = framesOf e calls owned ++ captured.getD e []

namespace Balanced

variable {calls : List Activation} {owned : List FrameId} {captured : List (List FrameId)}
  {s t : Store}

theorem bind {e : EnvId} {name : Text} {v : Value} (h : Balanced calls owned captured s)
    (hb : s.bind e name v = some t) (hv : v.Sound s) : Balanced calls owned captured t where
  sound := h.sound.bind hb hv
  global := (Store.chain_bind hb _).trans h.global
  aligned := h.aligned
  callees a ha := by
    rw [Store.size_chains_bind hb]
    exact h.callees a ha
  captures := h.captures.trans (Store.size_chains_bind hb).symm
  captured_ne_nil := h.captured_ne_nil
  chain e he := by
    rw [Store.chain_bind hb]
    exact h.chain e (Store.size_chains_bind hb ▸ he)

/-- A declaration captures the frames of the environment in which it stands. -/
theorem declare {m : Memory} {e : EnvId} {decl : FunctionDecl}
    (h : Balanced calls owned captured m.store) (he : e < m.store.chains.size)
    (hb : m.store.bind e decl.name (m.declared decl) = some t) :
    Balanced calls owned (captured ++ [m.store.chain e]) (t.snapshot e).2 where
  sound := (Memory.sound_declare h.sound he hb).1
  global := by
    have hpos : Memory.globalEnv ≠ t.chains.size := by
      rw [Store.size_chains_bind hb]
      exact Nat.ne_of_lt (Nat.lt_of_le_of_lt (Nat.zero_le e) he)
    rw [Store.chain_snapshot_of_ne hpos, Store.chain_bind hb]
    exact h.global
  aligned := h.aligned
  callees a ha := by
    obtain ⟨hpos, hlt⟩ := h.callees a ha
    rw [Store.size_chains_snapshot, Store.size_chains_bind hb]
    exact ⟨hpos, Nat.lt_succ_of_lt hlt⟩
  captures := by
    rw [Store.size_chains_snapshot, Store.size_chains_bind hb, ← h.captures]
    exact List.length_append
  captured_ne_nil chain hchain := by
    rcases List.mem_append.mp hchain with hchain | hchain
    · exact h.captured_ne_nil chain hchain
    · rw [List.mem_singleton.mp hchain]
      exact h.sound.chain_ne_nil e he
  chain d hd := by
    -- The environment is new, so none of the running calls is in it.
    have hnew : framesOf m.store.chains.size calls owned = [] :=
      (framesOf_eq_nil_iff h.aligned).mpr fun a ha => Nat.ne_of_lt (h.callees a ha).2
    refine Memory.chain_declare hb h.captures (fun d chain => framesOf d calls owned ++ chain)
      h.chain ?_ hd
    rw [hnew, List.nil_append]

theorem push {a : Activation} {name : Text} {v : Value} (h : Balanced calls owned captured s)
    (ha : 0 < a.env ∧ a.env < s.chains.size) (hv : v.Sound s) :
    Balanced (a :: calls) (s.frames.size :: owned) captured (s.push a.env name v) where
  sound := h.sound.push a.env name hv
  global := (Store.chain_push_of_ne (Nat.ne_of_lt ha.1) name v).trans h.global
  aligned := congrArg (· + 1) h.aligned
  callees b hb := by
    rw [Store.size_chains_push]
    rcases List.mem_cons.mp hb with rfl | hb
    · exact ha
    · exact h.callees b hb
  captures := h.captures.trans (Store.size_chains_push s a.env name v).symm
  captured_ne_nil := h.captured_ne_nil
  chain e he := by
    rw [Store.size_chains_push] at he
    by_cases hea : a.env = e
    · subst hea
      rw [Store.chain_push_self he, framesOf_cons_self, h.chain a.env he]
      rfl
    · rw [Store.chain_push_of_ne (Ne.symm hea), framesOf_cons_of_ne hea]
      exact h.chain e he

theorem popped {a : Activation} {i : FrameId}
    (h : Balanced (a :: calls) (i :: owned) captured s) :
    Balanced calls owned captured (s.popped a.env) := by
  obtain ⟨hpos, hlt⟩ := h.callees a List.mem_cons_self
  have htail : (s.chain a.env).tail = framesOf a.env calls owned ++ captured.getD a.env [] := by
    rw [h.chain a.env hlt, framesOf_cons_self]
    rfl
  have hne : captured.getD a.env [] ≠ [] := by
    have hlt' : a.env < captured.length := h.captures ▸ hlt
    rw [List.getD_eq_getElem?_getD, List.getElem?_eq_getElem hlt']
    exact h.captured_ne_nil _ (List.getElem_mem hlt')
  refine ⟨?_, ?_, Nat.succ.inj h.aligned, fun b hb => ?_, ?_, h.captured_ne_nil, fun e he => ?_⟩
  · refine h.sound.popped ?_
    rw [htail]
    exact List.append_ne_nil_of_right_ne_nil _ hne
  · exact (Store.chain_popped_of_ne (Nat.ne_of_lt hpos)).trans h.global
  · rw [Store.size_chains_popped]
    exact h.callees b (List.mem_cons_of_mem a hb)
  · rw [Store.size_chains_popped]
    exact h.captures
  · rw [Store.size_chains_popped] at he
    by_cases hea : a.env = e
    · subst hea
      rw [Store.chain_popped_self, htail]
    · rw [Store.chain_popped_of_ne (Ne.symm hea), h.chain e he, framesOf_cons_of_ne hea]

theorem env_lt (h : Balanced calls owned captured s) :
    Machine.currentEnv Memory.globalEnv calls < s.chains.size := by
  cases calls with
  | nil => exact Store.lt_of_chain_eq_cons h.global
  | cons a calls => exact (h.callees a List.mem_cons_self).2

end Balanced

/-! ## Every scene is balanced -/

namespace Machine

/-- Where the innermost call returns, its frame is dropped, the value is bound for the caller,
and the caller goes on. -/
theorem proceed_of_return {m m' : Machine} {a : Activation} {calls : List Activation}
    {owned : List FrameId} {captured : List (List FrameId)} {last : Option Value}
    {memory memory' : Memory} (h : Balanced (a :: calls) owned captured memory.store)
    (hproceed : m.proceed (ε := ε) (a :: calls) last [] memory = (memory', .parked m')) :
    ∃ i outer v bound, owned = i :: outer ∧
      Balanced calls outer captured (memory.store.popped a.env) ∧
      v.Sound (memory.store.popped a.env) ∧
      (memory.store.popped a.env).bind (currentEnv m.globalEnv calls) a.target v =
        some bound.store ∧
      m.proceed (ε := ε) calls (some v) a.rest bound = (memory', .parked m') := by
  cases owned with
  | nil => exact absurd h.aligned nofun
  | cons i outer =>
    rw [proceed] at hproceed
    cases hv : returnValue (ε := ε) memory.store a.env a.decl with
    | error why =>
      rw [hv] at hproceed
      cases hproceed
    | ok v =>
      have hsound : v.Sound (memory.store.popped a.env) :=
        (Direct.returnValue_sound h.sound hv).mono
          (Nat.le_of_eq (Store.size_chains_popped _ _).symm)
      simp only [hv, Memory.bind, Memory.store_endCall] at hproceed
      cases hb : (memory.store.popped a.env).bind (currentEnv m.globalEnv calls) a.target v with
      | none =>
        rw [hb] at hproceed
        cases hproceed
      | some t =>
        rw [hb] at hproceed
        exact ⟨i, outer, v, _, rfl, h.popped, hsound, hb, hproceed⟩

/-- Going on ends some of the running calls, and balance is kept. -/
theorem proceed_balanced {m : Machine} (hm : m.globalEnv = Memory.globalEnv)
    {captured : List (List FrameId)} {memory' : Memory} {m' : Machine} (calls : List Activation) :
    ∀ {owned : List FrameId} {last : Option Value} {rest : List Statement} {memory : Memory},
      Balanced calls owned captured memory.store →
      m.proceed (ε := ε) calls last rest memory = (memory', .parked m') →
      m'.globalEnv = Memory.globalEnv ∧ ∃ k, k ≤ calls.length ∧ m'.calls = calls.drop k ∧
        Balanced (calls.drop k) (owned.drop k) captured memory'.store := by
  induction calls with
  | nil =>
    intro owned last rest memory h hproceed
    cases rest with
    | cons s rest =>
      cases hproceed
      exact ⟨hm, 0, Nat.le_refl 0, rfl, h⟩
    | nil => cases last <;> cases hproceed
  | cons a calls ih =>
    intro owned last rest memory h hproceed
    cases rest with
    | cons s rest =>
      cases hproceed
      exact ⟨hm, 0, Nat.zero_le _, rfl, h⟩
    | nil =>
      obtain ⟨i, outer, v, bound, rfl, hpopped, hv, hb, hproceed⟩ := proceed_of_return h hproceed
      obtain ⟨hglobal, k, hk, hcalls, hbalanced⟩ := ih (hpopped.bind hb hv) hproceed
      exact ⟨hglobal, k + 1, Nat.succ_le_succ hk, hcalls, hbalanced⟩

end Machine

namespace Scene

/-- The environments of a scene are balanced, and its program runs in the global one. -/
structure IsBalanced (sc : Scene) : Prop where
  global : sc.machine.globalEnv = Memory.globalEnv
  balanced : Balanced sc.machine.calls sc.owned sc.captured sc.memory.store

theorem ownedNext_drop (sc : Scene) {k : Nat} (hk : k ≤ sc.machine.calls.length) :
    sc.ownedNext (sc.machine.calls.drop k) = sc.owned.drop k := by
  have hlength : (sc.machine.calls.drop k).length = sc.machine.calls.length - k :=
    List.length_drop
  rw [ownedNext, hlength, if_neg (by omega)]
  congr 1
  omega

theorem ownedNext_cons (sc : Scene) (a : Activation) :
    sc.ownedNext (a :: sc.machine.calls) = sc.memory.store.frames.size :: sc.owned :=
  if_pos (Nat.lt_succ_self _)

/-! ### What happens between two scenes -/

/-- What a statement that is done has done itself: nothing, if it was only the head of a list,
and else it has bound a value or declared a function. -/
inductive Work (sc : Scene) : Memory → List (List FrameId) → Prop where
  | none : Work sc sc.memory sc.captured
  | bound {name : Text} {v : Value} {t : Store}
      (hbind : sc.memory.store.bind sc.env name v = some t) (hv : v.Sound sc.memory.store) :
      Work sc { sc.memory with store := t } sc.captured
  | declared {decl : FunctionDecl} {t : Store}
      (hbind : sc.memory.store.bind sc.env decl.name (sc.memory.declared decl) = some t) :
      Work sc { sc.memory with store := (t.snapshot sc.env).2 }
        (sc.captured ++ [sc.memory.store.chain sc.env])

/-- How one scene leads to another: by nothing more than an announcement, by entering a call,
or by going on after a statement. -/
inductive Successor (sc : Scene) : Scene → Prop where
  | announced {m : Machine} (hglobal : m.globalEnv = sc.machine.globalEnv)
      (hcalls : m.calls = sc.machine.calls) : Successor sc { sc with machine := m }
  | entered {m : Machine} {a : Activation} {memory : Memory} {v : Value}
      (hglobal : m.globalEnv = sc.machine.globalEnv) (hcalls : m.calls = a :: sc.machine.calls)
      (ha : 0 < a.env ∧ a.env < sc.memory.store.chains.size) (hv : v.Sound sc.memory.store)
      (hstore : memory.store = sc.memory.store.push a.env a.decl.parameter v) :
      Successor sc
        { machine := m
          memory
          captured := sc.captured
          owned := sc.memory.store.frames.size :: sc.owned }
  | proceeded {m : Machine} {memory memory' : Memory} {captured : List (List FrameId)}
      {last : Option Value} {rest : List Statement} (hwork : Work sc memory captured)
      (hproceed : sc.machine.proceed (ε := Empty) sc.machine.calls last rest memory =
        (memory', .parked m)) :
      Successor sc { machine := m, memory := memory', captured, owned := sc.ownedNext m.calls }

theorem Successor.of_announced {sc : Scene} {m : Machine}
    (hglobal : m.globalEnv = sc.machine.globalEnv) (hcalls : m.calls = sc.machine.calls) :
    Successor sc
      { machine := m
        memory := sc.memory
        captured := sc.captured
        owned := sc.ownedNext m.calls } := by
  have howned : sc.ownedNext m.calls = sc.owned := by
    rw [hcalls]
    exact sc.ownedNext_drop (Nat.zero_le _)
  rw [howned]
  exact .announced hglobal hcalls

theorem Successor.of_bindAndProceed {sc : Scene} {memory : Memory} {m : Machine} {name : Text}
    {v : Value} {rest : List Statement} (hv : v.Sound sc.memory.store)
    (h : sc.machine.bindAndProceed (ε := Empty) name v rest sc.memory = (memory, .parked m)) :
    Successor sc
      { machine := m, memory, captured := sc.captured, owned := sc.ownedNext m.calls } := by
  simp only [Machine.bindAndProceed, Memory.bind] at h
  cases hb : sc.memory.store.bind (Machine.currentEnv sc.machine.globalEnv sc.machine.calls)
      name v with
  | none =>
    rw [hb] at h
    cases h
  | some t =>
    rw [hb] at h
    exact .proceeded (.bound hb hv) h

theorem Successor.of_enter {sc : Scene} {memory : Memory} {m : Machine} {target : Text}
    {rest : List Statement} {argument : Text} {f : Closure} {v : Value}
    (hf : (Value.function f).Sound sc.memory.store) (hv : v.Sound sc.memory.store)
    (h : sc.machine.enter (ε := Empty) target rest argument f v sc.memory = (memory, .parked m)) :
    Successor sc
      { machine := m, memory, captured := sc.captured, owned := sc.ownedNext m.calls } := by
  obtain ⟨e, hcapture, he⟩ := hf
  simp only [Machine.enter, hcapture] at h
  cases h
  rw [ownedNext_cons]
  exact .entered (a := { decl := f.decl, env := e, target, rest }) rfl rfl he hv rfl

theorem Successor.of_declare {sc : Scene} {memory : Memory} {m : Machine} {decl : FunctionDecl}
    {rest : List Statement}
    (h : (match sc.memory.declare sc.env decl with
      | .none => Machine.abort sc.machine.calls (.unbindable decl.name) sc.memory
      | some (f, memory) => sc.machine.proceed (ε := Empty) sc.machine.calls (some f) rest memory) =
        (memory, .parked m)) :
    Successor sc
      { machine := m
        memory
        captured := sc.captured ++ [sc.memory.store.chain sc.env]
        owned := sc.ownedNext m.calls } := by
  rw [Memory.declare_eq] at h
  cases hb : sc.memory.store.bind sc.env decl.name (sc.memory.declared decl) with
  | none =>
    rw [hb] at h
    cases h
  | some t =>
    rw [hb] at h
    exact .proceeded (.declared hb) h

theorem next_successor {sc sc' : Scene} (hs : sc.memory.store.Sound) (hnext : sc.next = some sc') :
    Successor sc sc' := by
  unfold next at hnext
  cases hresume : sc.machine.resume (ε := Empty) sc.memory with
  | mk memory progress =>
    rw [hresume] at hnext
    cases progress with
    | ended outcome => cases hnext
    | parked m =>
      obtain rfl := Option.some.inj hnext
      unfold Machine.resume at hresume
      unfold capturedNext
      cases htask : sc.machine.task with
      | start =>
        rw [htask] at hresume
        cases hresume
        exact .of_announced rfl rfl
      | sourceFile =>
        rw [htask] at hresume
        cases hresume
        exact .of_announced rfl rfl
      | functionBody decl =>
        rw [htask] at hresume
        cases hresume
        exact .of_announced rfl rfl
      | statementList ss =>
        rw [htask] at hresume
        exact .proceeded .none hresume
      | statement s rest =>
        rw [htask] at hresume
        cases s with
        | define name value pos =>
          cases hresume
          exact .of_announced rfl rfl
        | function name parameter body ret pos =>
          cases hresume
          exact .of_announced rfl rfl
        | hole => cases hresume
      | define name value pos rest =>
        rw [htask] at hresume
        cases value with
        | literal lexeme =>
          simp only [literalValue] at hresume
          cases hread : Numeral.read lexeme with
          | error e =>
            rw [hread] at hresume
            cases hresume
          | ok x =>
            rw [hread] at hresume
            exact .of_bindAndProceed (v := .number x) trivial hresume
        | call callee argument =>
          simp only at hresume
          cases hcall : resolveCall sc.memory.store
              (Machine.currentEnv sc.machine.globalEnv sc.machine.calls) callee argument pos with
          | error d =>
            rw [hcall] at hresume
            cases hresume
          | ok fv =>
            rw [hcall] at hresume
            obtain ⟨hf, hv⟩ := Direct.resolveCall_eq_ok hcall
            exact .of_enter (hs.lookup hf) (hs.lookup hv) hresume
        | hole => cases hresume
      | declare decl rest =>
        rw [htask] at hresume
        exact .of_declare hresume

/-! ### Balance from scene to scene -/

theorem Work.balanced {sc : Scene} {memory : Memory} {captured : List (List FrameId)}
    (hwork : sc.Work memory captured) (h : sc.IsBalanced) :
    Balanced sc.machine.calls sc.owned captured memory.store := by
  cases hwork with
  | none => exact h.balanced
  | bound hbind hv => exact h.balanced.bind hbind hv
  | declared hbind =>
    have henv : sc.env < sc.memory.store.chains.size := by
      rw [env, h.global]
      exact h.balanced.env_lt
    exact h.balanced.declare henv hbind

theorem Successor.isBalanced {sc sc' : Scene} (hsucc : sc.Successor sc') (h : sc.IsBalanced) :
    sc'.IsBalanced := by
  cases hsucc with
  | announced hglobal hcalls =>
    refine ⟨hglobal.trans h.global, ?_⟩
    rw [hcalls]
    exact h.balanced
  | entered hglobal hcalls ha hv hstore =>
    refine ⟨hglobal.trans h.global, ?_⟩
    rw [hcalls, hstore]
    exact h.balanced.push ha hv
  | proceeded hwork hproceed =>
    obtain ⟨hglobal, k, hk, hcalls, hbalanced⟩ :=
      Machine.proceed_balanced h.global _ (hwork.balanced h) hproceed
    refine ⟨hglobal, ?_⟩
    rw [hcalls, sc.ownedNext_drop hk]
    exact hbalanced

theorem IsBalanced.next {sc sc' : Scene} (h : sc.IsBalanced) (hnext : sc.next = some sc') :
    sc'.IsBalanced :=
  (next_successor h.balanced.sound hnext).isBalanced h

/-- At first no call is running, and every environment is as it was captured. -/
theorem start_isBalanced (p : Program) {memory : Memory} (hs : memory.store.Sound)
    (hglobal : memory.store.chain Memory.globalEnv = [0]) : (start p memory).IsBalanced where
  global := rfl
  balanced :=
    { sound := hs
      global := hglobal
      aligned := rfl
      callees := nofun
      captures := Array.length_toList
      captured_ne_nil := by
        intro chain hchain
        obtain ⟨e, he, rfl⟩ := List.getElem_of_mem hchain
        have he : e < memory.store.chains.size := he
        have hne := hs.chain_ne_nil e he
        rwa [Store.chain, Array.getElem?_eq_getElem he] at hne
      chain := by
        intro e he
        show memory.store.chain e = memory.store.chains.toList.getD e []
        rw [Store.chain, List.getD_eq_getElem?_getD, Array.getElem?_toList] }

end Scene

theorem Program.sceneAt_isBalanced {p : Program} {memory : Memory} (hs : memory.store.Sound)
    (hglobal : memory.store.chain Memory.globalEnv = [0]) {i : Nat} {sc : Scene}
    (h : p.sceneAt memory i = some sc) : sc.IsBalanced :=
  Scene.after_induction (fun _ _ => Scene.IsBalanced.next) (Scene.start_isBalanced p hs hglobal) h

/-! ## What a running call sees -/

/-- At every event of the innermost running call its environment consists of the frame that
was pushed for it, of the frames of the calls of the same function that run around it, and of
the frames that the function captured.  So it sees what was captured and its own frame, and
nothing else, exactly if no such call is running. -/
theorem activation_sees_captured_iff {obs : Observer σ ε} (hobs : obs.Passive) {p : Program}
    {limit : Nat} {seen : σ} {i : Nat} {sighting : Observer.Sighting}
    (h : (p.sightings obs limit .fresh seen)[i]? = some sighting) :
    ∃ sc, p.sceneAt .fresh i = some sc ∧ sighting = sc.sighting ∧
      ∀ a outer, sc.machine.calls = a :: outer →
        ∃ own owned captured, sc.owned = own :: owned ∧ sc.captured[a.env]? = some captured ∧
          sighting.event.env = a.env ∧
          sighting.store.chain a.env = own :: (framesOf a.env outer owned ++ captured) ∧
          (sighting.store.chain a.env = own :: captured ↔ ∀ b ∈ outer, b.env ≠ a.env) := by
  obtain ⟨sc, hsc, rfl⟩ := Program.sightings_scene hobs h
  obtain ⟨-, hbalanced⟩ := Program.sceneAt_isBalanced Memory.sound_fresh rfl hsc
  refine ⟨sc, hsc, rfl, fun a outer hcalls => ?_⟩
  rw [hcalls] at hbalanced
  have hlt := (hbalanced.callees a List.mem_cons_self).2
  have hlt' : a.env < sc.captured.length := hbalanced.captures ▸ hlt
  cases howned : sc.owned with
  | nil =>
    have := hbalanced.aligned
    rw [howned] at this
    exact absurd this nofun
  | cons own owned =>
    rw [howned] at hbalanced
    have hcaptured : sc.captured[a.env]? = some sc.captured[a.env] := List.getElem?_eq_getElem hlt'
    have hchain : sc.memory.store.chain a.env =
        own :: (framesOf a.env outer owned ++ sc.captured[a.env]) := by
      rw [hbalanced.chain a.env hlt, framesOf_cons_self, List.getD_eq_getElem?_getD, hcaptured]
      rfl
    refine ⟨own, owned, sc.captured[a.env], rfl, hcaptured, ?_, hchain, ?_⟩
    · show sc.machine.event.env = a.env
      have henv : sc.machine.event.env =
          Machine.currentEnv sc.machine.globalEnv sc.machine.calls := by
        unfold Machine.event
        cases sc.machine.task <;> rfl
      rw [henv, hcalls]
      rfl
    · show sc.memory.store.chain a.env = own :: sc.captured[a.env] ↔ _
      rw [hchain, ← framesOf_eq_nil_iff (Nat.succ.inj hbalanced.aligned), List.cons.injEq,
        List.append_left_eq_self]
      exact and_iff_right rfl

/-- A function that calls itself through its argument.  It first declares a function by a name
that is also bound outside. -/
def reentered : Program :=
  .numbered [
    .function "id" "z" [] (.name "z") 0,
    .function "t" "z" [] (.name "z") 0,
    .function "f" "x" [
      .function "t" "w" [] (.name "w") 10,
      .define "c" (.call "x" "id") 11] (.name "c") 0,
    .define "y" (.call "f" "f") 0] 0

/-- The outer call sees its own frame and the captured one. -/
theorem reentered_outer_call_sees_captured :
    ∃ sighting, (reentered.sightings (Observer.silent (ε := Empty)) 12 .fresh ())[11]? =
      some sighting ∧ sighting.event.env = 3 ∧ sighting.store.chain 3 = [1, 0] := by
  have hscene : (reentered.sceneAt .fresh 11).any (fun sc =>
      sc.machine.calls.map (·.env) = [3] ∧ sc.owned = [1] ∧ sc.captured[3]? = some [0]) = true := by
    decide +kernel
  obtain ⟨sc, hsc, hfacts⟩ := (Option.any_eq_true _ _).mp hscene
  obtain ⟨hcalls, howned, hcaptured⟩ := of_decide_eq_true hfacts
  obtain ⟨a, ha, henv⟩ := List.map_eq_singleton_iff.mp hcalls
  have hsighting : (reentered.sightings (Observer.silent (ε := Empty)) 12 .fresh ())[11]? =
      some sc.sighting := by
    rw [Program.sightings_complete (fun _ _ _ => rfl) (fun _ _ _ => rfl) (.inl (by decide)), hsc]
    rfl
  obtain ⟨sc', hsc', -, hsees⟩ := activation_sees_captured_iff (fun _ _ _ => rfl) hsighting
  obtain rfl : sc = sc' := Option.some.inj (hsc.symm.trans hsc')
  obtain ⟨own, owned, captured, hown, hcap, hevent, -, hiff⟩ := hsees a [] ha
  obtain ⟨rfl, -⟩ := List.cons.inj (howned.symm.trans hown)
  rw [henv] at hcap hevent hiff
  obtain rfl : [0] = captured := Option.some.inj (hcaptured.symm.trans hcap)
  exact ⟨sc.sighting, hsighting, hevent, hiff.mpr nofun⟩

/-- The scene at the first event of the inner call. -/
theorem reentered_scene : ∃ sc, reentered.sceneAt .fresh 17 = some sc ∧
    sc.machine.calls.map (·.env) = [3, 3] ∧ sc.owned = [2, 1] ∧ sc.captured[3]? = some [0] ∧
    sc.memory.store.chain 3 = [2, 1, 0] ∧ ∃ v w, sc.memory.store.lookup 3 "t" = some v ∧
      [2, 0].findSome? (fun i => (sc.memory.store.frame i).get? "t") = some w ∧
      v.equals w = false := by
  have hscene : (reentered.sceneAt .fresh 17).any (fun sc =>
      sc.machine.calls.map (·.env) = [3, 3] ∧ sc.owned = [2, 1] ∧ sc.captured[3]? = some [0] ∧
      sc.memory.store.chain 3 = [2, 1, 0] ∧ (sc.memory.store.lookup 3 "t").bind (fun v =>
        ([2, 0].findSome? fun i => (sc.memory.store.frame i).get? "t").map v.equals) =
          some false) = true := by
    decide +kernel
  obtain ⟨sc, hsc, hfacts⟩ := (Option.any_eq_true _ _).mp hscene
  obtain ⟨hcalls, howned, hcaptured, hchain, hlookup⟩ := of_decide_eq_true hfacts
  obtain ⟨v, hv, hlookup⟩ := Option.bind_eq_some_iff.mp hlookup
  obtain ⟨w, hw, hne⟩ := Option.map_eq_some_iff.mp hlookup
  exact ⟨sc, hsc, hcalls, howned, hcaptured, hchain, v, w, hv, hw, hne⟩

/-- The inner call sees the frame of the outer one between its own and the captured ones, and
finds there a function which it would not find in those. -/
theorem reentered_sees_outer_call :
    ∃ sc a outer own captured v w, reentered.sceneAt .fresh 17 = some sc ∧
      (reentered.sightings (Observer.silent (ε := Empty)) 18 .fresh ())[17]? = some sc.sighting ∧
      sc.machine.calls = a :: outer ∧ sc.owned.head? = some own ∧
      sc.captured[a.env]? = some captured ∧ sc.memory.store.chain a.env ≠ own :: captured ∧
      sc.memory.store.lookup a.env "t" = some v ∧
      (own :: captured).findSome? (fun i => (sc.memory.store.frame i).get? "t") = some w ∧
      v.equals w = false := by
  obtain ⟨sc, hsc, hcalls, howned, hcaptured, hchain, v, w, hv, hw, hne⟩ := reentered_scene
  obtain ⟨a, outer, hcalls, ha, -⟩ := List.map_eq_cons_iff.mp hcalls
  refine ⟨sc, a, outer, 2, [0], v, w, hsc, ?_, hcalls, ?_, ?_, ?_, ?_, hw, hne⟩
  · rw [Program.sightings_complete (fun _ _ _ => rfl) (fun _ _ _ => rfl) (.inl (by decide)), hsc]
    rfl
  · rw [howned]
    rfl
  · rw [ha, hcaptured]
  · rw [ha, hchain]
    decide
  · rw [ha, hv]

end Stepwise
