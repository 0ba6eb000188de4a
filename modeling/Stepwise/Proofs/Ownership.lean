/-
Who writes to a frame.

A frame belongs to the call that it was pushed for, and the first frame to the program.  A
statement writes to the frame of the call that it stands in, if it succeeds, and to no other
frame that was there before it; so a frame whose call has ended is never written again,
though functions that were declared in the call may still read it.

Evaluations may follow one another in one memory.  `Attained` are the memories that they can
leave behind, however they ended, as long as no observer has changed an environment.
-/
import Stepwise.Proofs.Scoping

namespace Stepwise

variable {σ ε : Type}

/-! ## Memories between evaluations -/

/-- A memory in which any number of evaluations have taken place. -/
inductive Memory.Attained : Memory → Prop where
  | fresh : Attained .fresh
  | evaluate {σ ε : Type} {memory : Memory} {obs : Observer σ ε} (h : Attained memory)
      (hobs : obs.Passive) (p : Program) (limit : Nat) (seen : σ) :
      Attained (p.evaluate obs limit memory seen).2.memory

theorem Memory.Attained.sound {memory : Memory} (h : memory.Attained) :
    memory.store.Sound ∧ memory.store.chain globalEnv = [0] := by
  induction h with
  | fresh => exact ⟨sound_fresh, rfl⟩
  | @evaluate _ _ memory obs _ hobs p limit seen ih =>
    obtain ⟨hs, hglobal⟩ := ih
    have hleaves : Direct.Leaves (fun j => j = 0) Value.Sound memory.store
        (Direct.program obs limit globalEnv p ⟨memory, seen⟩) :=
      Direct.program_leaves hobs hs hglobal limit p
    exact ⟨hleaves.sound, (hleaves.keeps.chain _ (Store.lt_of_chain_eq_cons hglobal)).trans hglobal⟩

/-! ## The frame of a scene -/

/-- The frame that was pushed for the innermost running call; the first frame, if none is
running. -/
def Scene.ownFrame (sc : Scene) : FrameId := sc.owned.headD 0

theorem Balanced.chain_env {calls : List Activation} {owned : List FrameId}
    {captured : List (List FrameId)} {s : Store} (h : Balanced calls owned captured s) :
    ∃ outer, s.chain (Machine.currentEnv Memory.globalEnv calls) = owned.headD 0 :: outer := by
  cases calls with
  | nil =>
    have howned : owned = [] := List.length_eq_zero_iff.mp h.aligned
    rw [howned]
    exact ⟨[], h.global⟩
  | cons a calls =>
    cases owned with
    | nil => exact absurd h.aligned nofun
    | cons i owned =>
      have hchain := h.chain a.env (h.callees a List.mem_cons_self).2
      rw [framesOf_cons_self] at hchain
      exact ⟨_, hchain⟩

theorem Scene.IsBalanced.chain_env {sc : Scene} (h : sc.IsBalanced) :
    ∃ outer, sc.memory.store.chain sc.env = sc.ownFrame :: outer := by
  rw [env, h.global]
  exact h.balanced.chain_env

/-! ## Frames of calls that have ended -/

/-- The later store `t` has the frames of `s`, unchanged but for those in `exempt`. -/
structure Store.KeepsFrames (exempt : List FrameId) (s t : Store) : Prop where
  frames_le : s.frames.size ≤ t.frames.size
  frame : ∀ i, i < s.frames.size → i ∉ exempt → t.frame i = s.frame i

namespace Store.KeepsFrames

variable {exempt : List FrameId} {s t u : Store}

theorem refl (s : Store) : KeepsFrames exempt s s := ⟨Nat.le_refl _, fun _ _ _ => rfl⟩

theorem trans (h : KeepsFrames exempt s t) (g : KeepsFrames exempt t u) :
    KeepsFrames exempt s u where
  frames_le := Nat.le_trans h.frames_le g.frames_le
  frame i hi hx := (g.frame i (Nat.lt_of_lt_of_le hi h.frames_le) hx).trans (h.frame i hi hx)

theorem weaken {exempt' : List FrameId} (h : KeepsFrames exempt s t)
    (hx : ∀ i ∈ exempt, i ∈ exempt') : KeepsFrames exempt' s t where
  frames_le := h.frames_le
  frame i hi hn := h.frame i hi fun he => hn (hx i he)

theorem bind {e : EnvId} {name : Text} {v : Value} {i : FrameId} {outer : List FrameId}
    (hb : s.bind e name v = some t) (hc : s.chain e = i :: outer) (hi : i ∈ exempt) :
    KeepsFrames exempt s t where
  frames_le := Nat.le_of_eq (size_frames_bind hb).symm
  frame _ _ hj := frame_bind_of_ne hb hc fun h => hj (h ▸ hi)

theorem popped (s : Store) (e : EnvId) : KeepsFrames exempt s (s.popped e) where
  frames_le := Nat.le_of_eq (size_frames_popped s e).symm
  frame i _ _ := frame_popped s e i

end Store.KeepsFrames

/-- The frames of the innermost running calls up to the one that goes on when `returned` of them
have returned.  Outside all calls the program goes on, whose frame is the first one. -/
def framesInTurn (owned : List FrameId) (returned : Nat) : List FrameId :=
  (owned ++ [0]).take (returned + 1)

theorem headD_mem_framesInTurn (owned : List FrameId) (returned : Nat) :
    owned.headD 0 ∈ framesInTurn owned returned := by
  cases owned with
  | nil => exact List.mem_cons_self
  | cons i owned => exact List.mem_cons_self

theorem framesInTurn_cons (i : FrameId) (owned : List FrameId) (returned : Nat) :
    framesInTurn (i :: owned) (returned + 1) = i :: framesInTurn owned returned := rfl

theorem mem_of_mem_framesInTurn {i : FrameId} {owned : List FrameId} {returned : Nat}
    (h : i ∈ framesInTurn owned returned) : i ∈ 0 :: owned := by
  have hmem : i ∈ owned ++ [0] := List.mem_of_mem_take h
  rcases List.mem_append.mp hmem with hmem | hmem
  · exact List.mem_cons_of_mem 0 hmem
  · exact List.mem_singleton.mp hmem ▸ List.mem_cons_self

/-- Going on writes only to frames of calls that come to be innermost. -/
theorem Machine.proceed_keepsFrames {m : Machine} (hm : m.globalEnv = Memory.globalEnv)
    {captured : List (List FrameId)} {memory' : Memory} {m' : Machine} (calls : List Activation) :
    ∀ {owned : List FrameId} {last : Option Value} {rest : List Statement} {memory : Memory},
      Balanced calls owned captured memory.store →
      m.proceed (ε := ε) calls last rest memory = (memory', .parked m') →
      Store.KeepsFrames (framesInTurn owned (calls.length - m'.calls.length)) memory.store
        memory'.store := by
  induction calls with
  | nil =>
    intro owned last rest memory _ hproceed
    cases rest with
    | cons s rest =>
      cases hproceed
      exact .refl _
    | nil => cases last <;> cases hproceed
  | cons a calls ih =>
    intro owned last rest memory h hproceed
    cases rest with
    | cons s rest =>
      cases hproceed
      exact .refl _
    | nil =>
      obtain ⟨i, outer, v, bound, rfl, hpopped, hv, hb, hproceed⟩ := proceed_of_return h hproceed
      have hbound := hpopped.bind hb hv
      obtain ⟨-, k, hk, hcalls, -⟩ := proceed_balanced hm calls hbound hproceed
      have hlength : (a :: calls).length - m'.calls.length =
          calls.length - m'.calls.length + 1 := by
        have hdrop : m'.calls.length = calls.length - k := by rw [hcalls, List.length_drop]
        have hcons : (a :: calls).length = calls.length + 1 := rfl
        omega
      obtain ⟨_, hchain⟩ := hpopped.chain_env
      rw [hm] at hb
      have hwritten := (Store.KeepsFrames.popped memory.store a.env).trans
        (.bind hb hchain (headD_mem_framesInTurn outer (calls.length - m'.calls.length)))
      rw [hlength, framesInTurn_cons]
      exact (hwritten.trans (ih hbound hproceed)).weaken fun j hj => List.mem_cons_of_mem i hj

namespace Scene

theorem Work.keepsFrames {sc : Scene} {memory : Memory} {captured : List (List FrameId)}
    (hwork : sc.Work memory captured) (h : sc.IsBalanced) (returned : Nat) :
    Store.KeepsFrames (framesInTurn sc.owned returned) sc.memory.store memory.store := by
  obtain ⟨outer, hchain⟩ := h.chain_env
  have hown := headD_mem_framesInTurn sc.owned returned
  cases hwork with
  | none => exact .refl _
  | bound hbind hv => exact .bind hbind hchain hown
  | declared hbind =>
    exact (Store.KeepsFrames.bind hbind hchain hown).trans ⟨Nat.le_refl _, fun _ _ _ => rfl⟩

/-- From one scene to the next, only frames of calls that come to be innermost are written, and
no frame that is there comes to belong to a call. -/
theorem Successor.keepsFrames {sc sc' : Scene} (hsucc : sc.Successor sc') (h : sc.IsBalanced) :
    Store.KeepsFrames
        (framesInTurn sc.owned (sc.machine.calls.length - sc'.machine.calls.length))
        sc.memory.store sc'.memory.store ∧
      ∃ pushed, (∀ i ∈ pushed, sc.memory.store.frames.size ≤ i) ∧
        sc'.owned = pushed ++ sc.owned.drop (sc.machine.calls.length - sc'.machine.calls.length) := by
  cases hsucc with
  | @announced m hglobal hcalls =>
    have hlength : sc.machine.calls.length - m.calls.length = 0 := by
      rw [hcalls]
      omega
    refine ⟨.refl _, [], nofun, ?_⟩
    rw [hlength]
    rfl
  | @entered m a memory v hglobal hcalls ha hv hstore =>
    have hlength : sc.machine.calls.length - m.calls.length = 0 := by
      rw [hcalls, List.length_cons]
      omega
    refine ⟨⟨?_, fun i hi _ => ?_⟩, [sc.memory.store.frames.size], fun i hi => ?_, ?_⟩
    · rw [hstore, Store.size_frames_push]
      exact Nat.le_succ _
    · rw [hstore]
      exact Store.frame_push_of_ne (Nat.ne_of_lt hi) a.env a.decl.parameter v
    · exact Nat.le_of_eq (List.mem_singleton.mp hi).symm
    · rw [hlength]
      rfl
  | @proceeded m memory memory' captured last rest hwork hproceed =>
    have hbalanced := hwork.balanced h
    obtain ⟨-, k, hk, hcalls, -⟩ := Machine.proceed_balanced h.global _ hbalanced hproceed
    have hlength : sc.machine.calls.length - m.calls.length = k := by
      rw [hcalls, List.length_drop]
      omega
    refine ⟨(hwork.keepsFrames h _).trans
      (Machine.proceed_keepsFrames h.global _ hbalanced hproceed), [], nofun, ?_⟩
    show sc.ownedNext m.calls = [] ++ sc.owned.drop (sc.machine.calls.length - m.calls.length)
    rw [hlength, hcalls, sc.ownedNext_drop hk, List.nil_append]

/-- A frame that belongs to no running call is never written again. -/
theorem IsBalanced.after_frame {sc later : Scene} (h : sc.IsBalanced) {n : Nat}
    (hlater : sc.after n = some later) {i : FrameId} (hi : i < sc.memory.store.frames.size)
    (hunowned : i ∉ 0 :: sc.owned) : later.memory.store.frame i = sc.memory.store.frame i := by
  -- Carried from scene to scene: the frame is there, still belongs to no call, and is the same.
  have hstep : ∀ sc₁ sc₂ : Scene,
      (sc₁.IsBalanced ∧ i < sc₁.memory.store.frames.size ∧ i ∉ 0 :: sc₁.owned ∧
        sc₁.memory.store.frame i = sc.memory.store.frame i) →
      sc₁.next = some sc₂ →
      (sc₂.IsBalanced ∧ i < sc₂.memory.store.frames.size ∧ i ∉ 0 :: sc₂.owned ∧
        sc₂.memory.store.frame i = sc.memory.store.frame i) := by
    rintro sc₁ sc₂ ⟨hbalanced, hi, hunowned, hframe⟩ hnext
    obtain ⟨hkeeps, pushed, hpushed, howned⟩ :=
      (next_successor hbalanced.balanced.sound hnext).keepsFrames hbalanced
    have hkept := hkeeps.frame i hi fun hmem => hunowned (mem_of_mem_framesInTurn hmem)
    refine ⟨hbalanced.next hnext, Nat.lt_of_lt_of_le hi hkeeps.frames_le, fun hmem => ?_,
      hkept.trans hframe⟩
    rcases List.mem_cons.mp hmem with rfl | hmem
    · exact hunowned List.mem_cons_self
    · rw [howned] at hmem
      rcases List.mem_append.mp hmem with hmem | hmem
      · exact Nat.not_le_of_lt hi (hpushed i hmem)
      · exact hunowned (List.mem_cons_of_mem 0 (List.mem_of_mem_drop hmem))
  exact (after_induction hstep ⟨h, hi, hunowned, rfl⟩ hlater).2.2.2

end Scene

/-! ## One statement -/

/-- However a statement ends that is evaluated in any scene of any evaluation, every
environment consists of the frames of which it consisted before, and every frame holds what it
held before; only if the statement has a value, that value is bound to the statement's name in
the frame of the call that it stands in.  And a frame that belongs to no running call is never
written again. -/
theorem statement_writes_ownFrame {memory : Memory} (hm : memory.Attained) {p : Program} {i : Nat}
    {sc : Scene} (hsc : p.sceneAt memory i = some sc) {obs : Observer σ ε} (hobs : obs.Passive)
    (limit : Nat) (seen : σ) :
    (∀ s,
      let before := sc.memory.store
      let result := Direct.statement obs (Direct.call obs limit) sc.env s ⟨sc.memory, seen⟩
      let after := result.2.memory.store
      (∃ outer, before.chain sc.env = sc.ownFrame :: outer) ∧
      (∀ e, e < before.chains.size → after.chain e = before.chain e) ∧
      ∀ j, j < before.frames.size → after.frame j =
        match result.1 with
        | .ok v => if j = sc.ownFrame then (before.frame j).set s.target v else before.frame j
        | .error _ => before.frame j) ∧
    ∀ n later, sc.after n = some later → ∀ j, j < sc.memory.store.frames.size →
      j ∉ 0 :: sc.owned → later.memory.store.frame j = sc.memory.store.frame j := by
  obtain ⟨hs, hglobal⟩ := hm.sound
  have hbalanced := Program.sceneAt_isBalanced hs hglobal hsc
  refine ⟨fun s => ?_, fun n later hlater j hj hx => hbalanced.after_frame hlater hj hx⟩
  obtain ⟨outer, hchain⟩ := hbalanced.chain_env
  have henv : sc.env < sc.memory.store.chains.size := Store.lt_of_chain_eq_cons hchain
  have heffect : Direct.Effect sc.env s.target sc.memory.store
      (Direct.statement obs (Direct.call obs limit) sc.env s ⟨sc.memory, seen⟩) :=
    Direct.statement_effect hobs (Direct.call_discreet hobs limit) hbalanced.balanced.sound henv s
  generalize Direct.statement obs (Direct.call obs limit) sc.env s ⟨sc.memory, seen⟩ = result at *
  obtain ⟨-, hsuccess, hfailure⟩ := heffect
  rcases result with ⟨why | v, run⟩
  · have hkeeps := hfailure why rfl
    exact ⟨⟨outer, hchain⟩, hkeeps.chain, fun j hj => hkeeps.frame j hj not_false⟩
  · obtain ⟨-, bound, hbound, hkeeps⟩ := hsuccess v rfl
    refine ⟨⟨outer, hchain⟩, fun e he => ?_, fun j hj => ?_⟩
    · rw [← Store.size_chains_bind hbound] at he
      rw [hkeeps.chain e he, Store.chain_bind hbound]
    · have hj' : j < bound.frames.size := (Store.size_frames_bind hbound).symm ▸ hj
      rw [hkeeps.frame j hj' not_false]
      by_cases hown : j = sc.ownFrame
      · subst hown
        simp only [if_pos]
        exact Store.frame_bind_self hbound hchain hj
      · simp only [if_neg hown]
        exact Store.frame_bind_of_ne hbound hchain hown

/-- The call inside the inner of the two calls of `reentered` binds its value in the frame of
the inner one, and leaves that of the outer one alone. -/
theorem reentered_statement_writes_ownFrame :
    ∃ sc v, reentered.sceneAt .fresh 21 = some sc ∧
      let result := Direct.statement (Observer.silent (ε := Empty)) (Direct.call .silent 1) sc.env
        (.define "c" (.call "x" "id") 11) ⟨sc.memory, ()⟩
      result.1 = .ok v ∧
      result.2.memory.store.frame 2 = (sc.memory.store.frame 2).set "c" v ∧
      result.2.memory.store.frame 1 = sc.memory.store.frame 1 ∧
      result.2.memory.store.chain 3 = sc.memory.store.chain 3 := by
  have hscene : (reentered.sceneAt .fresh 21).any (fun sc =>
      sc.owned = [2, 1] ∧ sc.memory.store.frames.size = 3 ∧ sc.memory.store.chains.size = 6 ∧
      (Direct.statement (Observer.silent (ε := Empty)) (Direct.call .silent 1) sc.env
        (.define "c" (.call "x" "id") 11) ⟨sc.memory, ()⟩).1.isOk = true) = true := by
    decide +kernel
  obtain ⟨sc, hsc, hfacts⟩ := (Option.any_eq_true _ _).mp hscene
  obtain ⟨howned, hframes, hchains, hok⟩ := of_decide_eq_true hfacts
  have hown : sc.ownFrame = 2 := by
    rw [Scene.ownFrame, howned]
    rfl
  have hpassive : (Observer.silent (ε := Empty)).Passive := fun _ _ _ => rfl
  obtain ⟨hwrites, -⟩ := statement_writes_ownFrame .fresh hsc hpassive 1 ()
  obtain ⟨-, hchain, hframe⟩ := hwrites (.define "c" (.call "x" "id") 11)
  have hframe₁ := hframe 1 (hframes.symm ▸ by decide)
  have hframe₂ := hframe 2 (hframes.symm ▸ by decide)
  cases hresult : (Direct.statement (Observer.silent (ε := Empty)) (Direct.call .silent 1) sc.env
      (.define "c" (.call "x" "id") 11) ⟨sc.memory, ()⟩).1 with
  | error why =>
    rw [hresult] at hok
    cases hok
  | ok v =>
    simp only [hresult, hown, if_true] at hframe₂
    simp only [hresult, hown] at hframe₁
    rw [if_neg (by decide)] at hframe₁
    exact ⟨sc, v, hsc, hresult, hframe₂, hframe₁, hchain 3 (hchains.symm ▸ by decide)⟩

end Stepwise
