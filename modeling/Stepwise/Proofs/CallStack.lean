/-
The running calls, as the environments show them.

At any event the global environment is its one frame, and the environment of a function consists
of the frames it captured where it was declared and of the frames of its running calls, the
newest in front.  `Balanced` says this of the lists that a scene keeps; here those lists are tied
to the events at which the frames came about.  `Program.DeclaredBefore` looks back to the event
of a declaration and `Program.EnteredBefore` to the one at which a call was entered, so that the
main result `callStack_shape` speaks of what was captured and pushed, and of no bookkeeping.

While a call is running, it writes to its own frame and to no other frame that was there: the
calls that it makes write to frames of their own, and those around it wait.
-/
import Mathlib.Data.List.Forall2
import Stepwise.Proofs.Ownership

namespace Stepwise

variable {σ ε : Type}

/-! ## Looking back -/

/-- The function `f` was declared at an event before event `n`, where its environment consisted
of the frames `captured`. -/
def Program.DeclaredBefore (p : Program) (memory : Memory) (n : Nat) (f : Closure)
    (captured : List FrameId) : Prop :=
  ∃ k sc decl rest, k < n ∧ p.sceneAt memory k = some sc ∧ sc.machine.task = .declare decl rest ∧
    f = { decl, capture := .env sc.memory.nextEnv } ∧ captured = sc.memory.store.chain sc.env

/-- The call `a` was entered at an event before event `n`, and `i` is the frame that was pushed
for it, which binds its parameter. -/
def Program.EnteredBefore (p : Program) (memory : Memory) (n : Nat) (a : Activation)
    (i : FrameId) : Prop :=
  ∃ k sc sc' v, k < n ∧ p.sceneAt memory k = some sc ∧ sc.next = some sc' ∧
    sc'.machine.calls = a :: sc.machine.calls ∧ i = sc.memory.store.frames.size ∧
    sc'.memory.store = sc.memory.store.push a.env a.decl.parameter v

theorem Program.EnteredBefore.mono {p : Program} {memory : Memory} {n k : Nat} {a : Activation}
    {i : FrameId} (h : p.EnteredBefore memory n a i) (hk : n ≤ k) :
    p.EnteredBefore memory k a i := by
  obtain ⟨j, sc, sc', v, hj, hrest⟩ := h
  exact ⟨j, sc, sc', v, Nat.lt_of_lt_of_le hj hk, hrest⟩

theorem Scene.after_succ_last {n : Nat} {sc last : Scene} (h : sc.after (n + 1) = some last) :
    ∃ sc', sc.after n = some sc' ∧ sc'.next = some last := by
  rw [after_add] at h
  obtain ⟨sc', hsc', hlast⟩ := Option.bind_eq_some_iff.mp h
  obtain ⟨next, hnext, heq⟩ := Option.bind_eq_some_iff.mp hlast
  exact ⟨sc', hsc', hnext.trans heq⟩

/-! ## Captured frames -/

namespace Scene

theorem captured_next {sc sc' : Scene} (h : sc.next = some sc') : sc'.captured = sc.capturedNext := by
  unfold next at h
  generalize sc.machine.resume (ε := Empty) sc.memory = result at h
  rcases result with ⟨memory, machine | outcome⟩
  · exact Option.some.inj h ▸ rfl
  · cases h

theorem getElem?_capturedNext {sc : Scene} {e : EnvId} {captured : List FrameId}
    (h : sc.captured[e]? = some captured) : sc.capturedNext[e]? = some captured := by
  unfold capturedNext
  split
  · have he : e < sc.captured.length := (List.getElem?_eq_some_iff.mp h).1
    rw [List.getElem?_append_left he]
    exact h
  · exact h

theorem getElem?_captured_after {sc later : Scene} {n : Nat} (hlater : sc.after n = some later)
    {e : EnvId} {captured : List FrameId} (h : sc.captured[e]? = some captured) :
    later.captured[e]? = some captured := by
  have hstep : ∀ sc₁ sc₂ : Scene, sc₁.captured[e]? = some captured → sc₁.next = some sc₂ →
      sc₂.captured[e]? = some captured := by
    intro sc₁ sc₂ h₁ hnext
    rw [captured_next hnext]
    exact getElem?_capturedNext h₁
  exact after_induction hstep h hlater

end Scene

theorem Program.DeclaredBefore.getElem?_captured {p : Program} {memory : Memory}
    (hs : memory.store.Sound) (hglobal : memory.store.chain Memory.globalEnv = [0]) {n : Nat}
    {f : Closure} {captured : List FrameId} (hf : p.DeclaredBefore memory n f captured)
    {sc : Scene} (hsc : p.sceneAt memory n = some sc) :
    ∃ e, f.capture = .env e ∧ sc.captured[e]? = some captured := by
  obtain ⟨k, sc₀, decl, rest, hk, hsc₀, htask, rfl, rfl⟩ := hf
  refine ⟨sc₀.memory.nextEnv, rfl, ?_⟩
  have hsize := (Program.sceneAt_isBalanced hs hglobal hsc₀).balanced.captures
  obtain ⟨sc₁, hsc₁, hlater⟩ := Scene.after_of_after hsc (Nat.succ_le_of_lt hk)
  obtain ⟨sc₀', hsc₀', hnext⟩ := Scene.after_succ_last hsc₁
  obtain rfl : sc₀ = sc₀' := Option.some.inj (hsc₀.symm.trans hsc₀')
  refine Scene.getElem?_captured_after hlater ?_
  rw [Scene.captured_next hnext, Scene.capturedNext, htask, Memory.nextEnv, ← hsize]
  exact List.getElem?_concat_length

/-! ## Frames of running calls -/

theorem length_framesOf {e : EnvId} {calls : List Activation} :
    ∀ {owned : List FrameId}, owned.length = calls.length →
      (framesOf e calls owned).length = calls.countP fun a => a.env = e := by
  induction calls with
  | nil =>
    intro owned _
    cases owned <;> rfl
  | cons a calls ih =>
    intro owned h
    cases owned with
    | nil => cases h
    | cons i owned =>
      have hrest := ih (Nat.succ.inj h)
      by_cases ha : a.env = e
      · subst ha
        rw [framesOf_cons_self, List.length_cons, hrest]
        simp
      · rw [framesOf_cons_of_ne ha, hrest]
        simp [ha]

/-- The frame that a scene keeps for a running call is the one that was pushed for it. -/
theorem Program.calls_entered {p : Program} {memory : Memory} (hs : memory.store.Sound)
    (hglobal : memory.store.chain Memory.globalEnv = [0]) {n : Nat} :
    ∀ {sc : Scene}, p.sceneAt memory n = some sc →
      List.Forall₂ (p.EnteredBefore memory n) sc.machine.calls sc.owned := by
  induction n with
  | zero =>
    intro sc h
    obtain rfl := Option.some.inj h
    exact .nil
  | succ n ih =>
    intro sc' h
    obtain ⟨sc, hsc, hnext⟩ := Scene.after_succ_last h
    have hbalanced := Program.sceneAt_isBalanced hs hglobal hsc
    have hentered : List.Forall₂ (p.EnteredBefore memory (n + 1)) sc.machine.calls sc.owned :=
      (ih hsc).imp fun _ _ ha => ha.mono (Nat.le_succ n)
    have hsucc := Scene.next_successor hbalanced.balanced.sound hnext
    cases hsucc with
    | announced _ hcalls =>
      show List.Forall₂ _ _ sc.owned
      rw [hcalls]
      exact hentered
    | @entered _ a _ v _ hcalls _ _ hstore =>
      show List.Forall₂ _ _ (sc.memory.store.frames.size :: sc.owned)
      rw [hcalls]
      exact .cons ⟨n, sc, _, v, Nat.lt_succ_self n, hsc, hnext, hcalls, rfl, hstore⟩ hentered
    | proceeded hwork hproceed =>
      obtain ⟨-, k, hk, hcalls, -⟩ :=
        Machine.proceed_balanced hbalanced.global _ (hwork.balanced hbalanced) hproceed
      rw [hcalls, sc.ownedNext_drop hk]
      exact List.forall₂_drop k hentered

/-! ## What the running call writes -/

theorem mem_framesInTurn_append {i : FrameId} {inner owned : List FrameId} {returned : Nat}
    (hle : returned ≤ inner.length) (h : i ∈ framesInTurn (inner ++ owned) returned) :
    i ∈ inner ∨ i = owned.headD 0 := by
  have hsub : i ∈ (inner ++ (owned ++ [0])).take (inner.length + 1) := by
    rw [framesInTurn, List.append_assoc] at h
    exact (List.take_subset_take_left _ (Nat.succ_le_succ hle)) h
  rw [List.take_length_add_append] at hsub
  rcases List.mem_append.mp hsub with hi | hi
  · exact .inl hi
  · cases owned with
    | nil => exact .inr (List.mem_singleton.mp hi)
    | cons own owned => exact .inr (List.mem_singleton.mp hi)

/-- As long as no fewer calls are running, of the frames that were there only that of the
innermost call is written. -/
theorem Scene.IsBalanced.after_ownFrame {sc : Scene} (h : sc.IsBalanced) {n : Nat} :
    ∀ {later : Scene}, sc.after n = some later →
      (∀ k mid, k ≤ n → sc.after k = some mid →
        sc.machine.calls.length ≤ mid.machine.calls.length) →
      later.IsBalanced ∧ sc.memory.store.frames.size ≤ later.memory.store.frames.size ∧
      (∃ inner, (∀ i ∈ inner, sc.memory.store.frames.size ≤ i) ∧ later.owned = inner ++ sc.owned) ∧
      ∀ i, i < sc.memory.store.frames.size → i ≠ sc.ownFrame →
        later.memory.store.frame i = sc.memory.store.frame i := by
  induction n with
  | zero =>
    intro later hlater _
    obtain rfl := Option.some.inj hlater
    exact ⟨h, Nat.le_refl _, ⟨[], nofun, rfl⟩, fun _ _ _ => rfl⟩
  | succ n ih =>
    intro later hlater hrunning
    obtain ⟨mid, hmid, hnext⟩ := Scene.after_succ_last hlater
    obtain ⟨hbalanced, hsize, ⟨inner, hinner, howned⟩, hframe⟩ :=
      ih hmid fun k mid hk => hrunning k mid (Nat.le_succ_of_le hk)
    obtain ⟨hkeeps, pushed, hpushed, hlater_owned⟩ :=
      (next_successor hbalanced.balanced.sound hnext).keepsFrames hbalanced
    generalize hreturned : mid.machine.calls.length - later.machine.calls.length = returned at *
    -- Only calls that were entered since then have returned.
    have hle : returned ≤ inner.length := by
      have hlater_le := hrunning (n + 1) later (Nat.le_refl _) hlater
      have hmid_length : inner.length + sc.owned.length = mid.owned.length := by
        rw [howned, List.length_append]
      have haligned := h.balanced.aligned
      have hmid_aligned := hbalanced.balanced.aligned
      omega
    refine ⟨hbalanced.next hnext, Nat.le_trans hsize hkeeps.frames_le,
      ⟨pushed ++ inner.drop returned, fun i hi => ?_, ?_⟩, fun i hi hown => ?_⟩
    · rcases List.mem_append.mp hi with hi | hi
      · exact Nat.le_trans hsize (hpushed i hi)
      · exact hinner i (List.mem_of_mem_drop hi)
    · rw [hlater_owned, howned, List.drop_append_of_le_length hle, List.append_assoc]
    · refine (hkeeps.frame i (Nat.lt_of_lt_of_le hi hsize) fun hmem => ?_).trans (hframe i hi hown)
      rw [howned] at hmem
      rcases mem_framesInTurn_append hle hmem with hmem | hmem
      · exact Nat.not_le_of_lt hi (hinner i hmem)
      · exact hown hmem

/-! ## The shape -/

/-- At every event the global environment holds its one frame.  The environment of a function that
has been declared consists of the frames of its running calls, each of them pushed when the call
was entered, and of the frames captured at the declaration; so it is deeper than what was captured
by the number of its running calls.  The call that is innermost at the event has the frame in
front of its environment, and as long as it is running this is the only frame written of those
that are there. -/
theorem callStack_shape {obs : Observer σ ε} (hobs : obs.Passive) {p : Program} {limit : Nat}
    {seen : σ} {i : Nat} {sighting : Observer.Sighting}
    (h : (p.sightings obs limit .fresh seen)[i]? = some sighting) :
    ∃ sc, p.sceneAt .fresh i = some sc ∧ sighting = sc.sighting ∧
      sighting.store.chain Memory.globalEnv = [0] ∧
      List.Forall₂ (p.EnteredBefore .fresh i) sc.machine.calls sc.owned ∧
      (∀ f captured, p.DeclaredBefore .fresh i f captured → ∃ e, f.capture = .env e ∧
        sighting.store.chain e = framesOf e sc.machine.calls sc.owned ++ captured ∧
        sighting.store.depth e =
          captured.length + sc.machine.calls.countP fun a => a.env = e) ∧
      (∃ outer, sighting.store.chain sighting.event.env = sc.ownFrame :: outer) ∧
      ∀ n later, sc.after n = some later →
        (∀ k mid, k ≤ n → sc.after k = some mid →
          sc.machine.calls.length ≤ mid.machine.calls.length) →
        ∀ j, j < sighting.store.frames.size → j ≠ sc.ownFrame →
          later.memory.store.frame j = sighting.store.frame j := by
  obtain ⟨sc, hsc, rfl⟩ := Program.sightings_scene hobs h
  have hbalanced := Program.sceneAt_isBalanced Memory.sound_fresh rfl hsc
  refine ⟨sc, hsc, rfl, hbalanced.balanced.global, Program.calls_entered Memory.sound_fresh rfl hsc,
    fun f captured hf => ?_, ?_, fun n later hlater hrunning j hj hown => ?_⟩
  · obtain ⟨e, hcapture, hcaptured⟩ := hf.getElem?_captured Memory.sound_fresh rfl hsc
    have he : e < sc.memory.store.chains.size :=
      hbalanced.balanced.captures ▸ (List.getElem?_eq_some_iff.mp hcaptured).1
    have hchain : sc.memory.store.chain e = framesOf e sc.machine.calls sc.owned ++ captured := by
      rw [hbalanced.balanced.chain e he, List.getD_eq_getElem?_getD, hcaptured]
      rfl
    refine ⟨e, hcapture, hchain, ?_⟩
    show (sc.memory.store.chain e).length = _
    rw [hchain, List.length_append, length_framesOf hbalanced.balanced.aligned, Nat.add_comm]
  · obtain ⟨outer, hchain⟩ := hbalanced.chain_env
    rw [Scene.env, ← Machine.event_env] at hchain
    exact ⟨outer, hchain⟩
  · exact (hbalanced.after_ownFrame hlater hrunning).2.2.2 j hj hown

/-- Two calls of one function are running: its environment has their frames in front of the frame
that it captured, and when the inner call has declared a function, the frame of the outer call
holds what it held. -/
theorem reentered_callStack_shape :
    ∃ sighting later, (reentered.sightings (Observer.silent (ε := Empty)) 18 .fresh ())[17]? =
        some sighting ∧ reentered.sceneAt .fresh 21 = some later ∧
      sighting.store.chain Memory.globalEnv = [0] ∧ sighting.store.chain 3 = [2, 1, 0] ∧
      sighting.store.depth 3 = 1 + 2 ∧
      later.memory.store.frame 1 = sighting.store.frame 1 := by
  have hdeclared : (reentered.sceneAt .fresh 8).any (fun sc =>
      sc.machine.event.kind = .functionDeclaration ∧ sc.memory.nextEnv = 3 ∧
      sc.memory.store.chain sc.env = [0]) = true := by
    decide +kernel
  have hscene : (reentered.sceneAt .fresh 17).any (fun sc =>
      sc.machine.calls.map (·.env) = [3, 3] ∧ sc.owned = [2, 1] ∧
      sc.memory.store.frames.size = 3) = true := by
    decide +kernel
  have hinside : ∀ k, k ≤ 4 → ((reentered.sceneAt .fresh (17 + k)).any fun mid =>
      2 ≤ mid.machine.calls.length) = true := by
    decide +kernel
  obtain ⟨sc₀, hsc₀, hfacts₀⟩ := (Option.any_eq_true _ _).mp hdeclared
  obtain ⟨hkind, henv, hcaptured⟩ := of_decide_eq_true hfacts₀
  obtain ⟨sc, hsc, hfacts⟩ := (Option.any_eq_true _ _).mp hscene
  obtain ⟨hcalls, howned, hsize⟩ := of_decide_eq_true hfacts
  obtain ⟨later, hlater, -⟩ := (Option.any_eq_true _ _).mp (hinside 4 (by decide))
  have hafter : ∀ k, reentered.sceneAt .fresh (17 + k) = sc.after k := by
    intro k
    rw [Program.sceneAt, Scene.after_add, show (Scene.start reentered .fresh).after 17 = some sc
      from hsc]
    rfl
  have hsighting : (reentered.sightings (Observer.silent (ε := Empty)) 18 .fresh ())[17]? =
      some sc.sighting := by
    rw [Program.sightings_complete (fun _ _ _ => rfl) (fun _ _ _ => rfl) (.inl (by decide)), hsc]
    rfl
  obtain ⟨sc', hsc', -, hglobal, -, hshape, -, hwrites⟩ :=
    callStack_shape (fun _ _ _ => rfl) hsighting
  obtain rfl : sc = sc' := Option.some.inj (hsc.symm.trans hsc')
  obtain ⟨decl, rest, htask⟩ : ∃ decl rest, sc₀.machine.task = .declare decl rest := by
    cases htask : sc₀.machine.task <;> simp_all [Machine.event]
  obtain ⟨e, he, hchain, hdepth⟩ := hshape { decl, capture := .env sc₀.memory.nextEnv } [0]
    ⟨8, sc₀, decl, rest, by decide, hsc₀, htask, rfl, hcaptured.symm⟩
  obtain rfl : e = 3 := by
    rw [henv] at he
    exact (Capture.env.inj he).symm
  obtain ⟨a, outer, hcalls', ha, houter⟩ := List.map_eq_cons_iff.mp hcalls
  obtain ⟨b, rfl, hb⟩ := List.map_eq_singleton_iff.mp houter
  have hframes : framesOf 3 sc.machine.calls sc.owned = [2, 1] := by
    rw [hcalls', howned]
    simp [framesOf, ha, hb]
  have hcount : sc.machine.calls.countP (fun a => a.env = 3) = 2 := by
    rw [hcalls']
    simp [ha, hb]
  refine ⟨sc.sighting, later, hsighting, hlater, hglobal, by rw [hchain, hframes]; rfl,
    by rw [hdepth, hcount]; rfl, ?_⟩
  refine hwrites 4 later ((hafter 4).symm.trans hlater) (fun k mid hk hmid => ?_) 1 ?_ ?_
  · have hrunning := hinside k hk
    rw [hafter, hmid] at hrunning
    rw [hcalls']
    exact of_decide_eq_true hrunning
  · show 1 < sc.memory.store.frames.size
    rw [hsize]
    decide
  · rw [Scene.ownFrame, howned]
    decide

end Stepwise
