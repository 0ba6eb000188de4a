/-
What the operations on environments do to a store, one law for each part of a store that
can be read.

Frames and chains are numbered in the order in which they are made and no number is used
twice, so a store can be compared with a later one number by number.  `Store.Keeps` is that
comparison: every chain of the earlier store is as it was, and so is every frame that is
not exempt.  `Store.Holds` says of what kind all values are that the frames hold.  `Store.Sound`
is what evaluation relies on: no chain is empty or names a frame that is not there, and every
function that some frame holds has an environment.
-/
import Stepwise.Evaluation.Memory

namespace Stepwise

/-! ## Frames -/

namespace Frame

theorem lookup_insertEntry (name n : Text) (v : Value) (entries : List (Text × Value)) :
    (insertEntry name v entries).lookup n = if n = name then some v else entries.lookup n := by
  induction entries with
  | nil =>
    by_cases hn : n = name
    · simp [insertEntry, hn]
    · simp [insertEntry, hn, List.lookup_cons, beq_eq_false_iff_ne.mpr hn]
  | cons kw rest ih =>
    obtain ⟨k, w⟩ := kw
    by_cases hn : n = name
    · subst hn
      simp only [insertEntry]
      split
      · simp
      · split
        · simp
        · rename_i hne
          simp [List.lookup_cons, beq_eq_false_iff_ne.mpr hne, ih]
    · simp only [insertEntry]
      split
      · simp [List.lookup_cons, beq_eq_false_iff_ne.mpr hn]
      · split
        · rename_i hk
          subst hk
          simp [List.lookup_cons, beq_eq_false_iff_ne.mpr hn]
        · rw [List.lookup_cons, List.lookup_cons, ih, if_neg hn]

theorem get?_set (f : Frame) (name n : Text) (v : Value) :
    (f.set name v).get? n = if n = name then some v else f.get? n :=
  lookup_insertEntry name n v f.entries

theorem get?_empty (n : Text) : empty.get? n = none := rfl

theorem get?_single (name n : Text) (v : Value) :
    (single name v).get? n = if n = name then some v else none := by
  rw [single, get?_set, get?_empty]

end Frame

/-! ## Reading a store after an operation -/

namespace Store

theorem lt_of_mem_chain {s : Store} {e : EnvId} {i : FrameId} (h : i ∈ s.chain e) :
    e < s.chains.size := by
  by_cases he : e < s.chains.size
  · exact he
  · rw [chain, Array.getElem?_eq_none (Nat.le_of_not_lt he)] at h
    exact absurd h (List.not_mem_nil)

theorem lt_of_chain_eq_cons {s : Store} {e : EnvId} {i : FrameId} {rest : List FrameId}
    (h : s.chain e = i :: rest) : e < s.chains.size :=
  lt_of_mem_chain (h ▸ List.mem_cons_self)

theorem frame_of_le {s : Store} {i : FrameId} (h : s.frames.size ≤ i) : s.frame i = .empty := by
  rw [frame, Array.getElem?_eq_none h]
  rfl

/-! ### Pushing -/

theorem chain_push_self {s : Store} {e : EnvId} (he : e < s.chains.size) (name : Text) (v : Value) :
    (s.push e name v).chain e = s.frames.size :: s.chain e := by
  simp [chain, push, he]

theorem chain_push_of_ne {s : Store} {e d : EnvId} (hd : d ≠ e) (name : Text) (v : Value) :
    (s.push e name v).chain d = s.chain d := by
  simp [chain, push, Ne.symm hd]

theorem frame_push_self (s : Store) (e : EnvId) (name : Text) (v : Value) :
    (s.push e name v).frame s.frames.size = .single name v := by
  simp [frame, push]

theorem frame_push_of_ne {s : Store} {i : FrameId} (hi : i ≠ s.frames.size) (e : EnvId)
    (name : Text) (v : Value) : (s.push e name v).frame i = s.frame i := by
  simp [frame, push, Array.getElem?_push, hi]

@[simp] theorem size_frames_push (s : Store) (e : EnvId) (name : Text) (v : Value) :
    (s.push e name v).frames.size = s.frames.size + 1 := by
  simp [push]

@[simp] theorem size_chains_push (s : Store) (e : EnvId) (name : Text) (v : Value) :
    (s.push e name v).chains.size = s.chains.size := by
  simp [push]

/-! ### Binding -/

theorem bind_of_chain {s : Store} {e : EnvId} {i : FrameId} {rest : List FrameId}
    (h : s.chain e = i :: rest) (name : Text) (v : Value) :
    s.bind e name v =
      some { s with frames := s.frames.setIfInBounds i ((s.frame i).set name v) } := by
  simp [bind, h]

theorem bind_eq_none_iff {s : Store} {e : EnvId} {name : Text} {v : Value} :
    s.bind e name v = none ↔ s.chain e = [] := by
  unfold bind
  cases s.chain e with
  | nil => exact ⟨fun _ => rfl, fun _ => rfl⟩
  | cons i rest => exact ⟨fun h => (by cases h), fun h => (by cases h)⟩

/-- A binding goes into the innermost frame of its environment. -/
theorem chain_of_bind {s t : Store} {e : EnvId} {name : Text} {v : Value}
    (h : s.bind e name v = some t) : ∃ i rest, s.chain e = i :: rest ∧
      t = { s with frames := s.frames.setIfInBounds i ((s.frame i).set name v) } := by
  cases hc : s.chain e with
  | nil => simp [bind, hc] at h
  | cons i rest =>
    rw [bind_of_chain hc] at h
    exact ⟨i, rest, rfl, (Option.some.inj h).symm⟩

section Bound

variable {s t : Store} {e : EnvId} {name : Text} {v : Value}

theorem chain_bind (h : s.bind e name v = some t) (d : EnvId) : t.chain d = s.chain d := by
  obtain ⟨i, rest, -, rfl⟩ := chain_of_bind h
  rfl

theorem size_frames_bind (h : s.bind e name v = some t) : t.frames.size = s.frames.size := by
  obtain ⟨i, rest, -, rfl⟩ := chain_of_bind h
  simp

theorem size_chains_bind (h : s.bind e name v = some t) : t.chains.size = s.chains.size := by
  obtain ⟨i, rest, -, rfl⟩ := chain_of_bind h
  rfl

theorem frame_bind_self {i : FrameId} {rest : List FrameId} (h : s.bind e name v = some t)
    (hc : s.chain e = i :: rest) (hi : i < s.frames.size) :
    t.frame i = (s.frame i).set name v := by
  rw [bind_of_chain hc] at h
  obtain rfl := Option.some.inj h
  simp [frame, hi]

theorem frame_bind_of_ne {i j : FrameId} {rest : List FrameId} (h : s.bind e name v = some t)
    (hc : s.chain e = i :: rest) (hj : j ≠ i) : t.frame j = s.frame j := by
  rw [bind_of_chain hc] at h
  obtain rfl := Option.some.inj h
  simp [frame, Ne.symm hj]

/-- What is bound after a binding was bound before, but for the one value. -/
theorem get?_of_get?_bind {i : FrameId} {n : Text} {w : Value} (h : s.bind e name v = some t)
    (hw : (t.frame i).get? n = some w) : w = v ∨ (s.frame i).get? n = some w := by
  obtain ⟨j, rest, hc, -⟩ := chain_of_bind h
  by_cases hij : i = j
  · subst hij
    by_cases hi : i < s.frames.size
    · rw [frame_bind_self h hc hi, Frame.get?_set] at hw
      split at hw
      · exact .inl (Option.some.inj hw).symm
      · exact .inr hw
    · rw [frame_of_le (size_frames_bind h ▸ Nat.le_of_not_lt hi), Frame.get?_empty] at hw
      exact absurd hw (Option.some_ne_none w).symm
  · rw [frame_bind_of_ne h hc hij] at hw
    exact .inr hw

end Bound

/-! ### Popping -/

theorem pop_of_chain {s : Store} {e : EnvId} {i : FrameId} {rest : List FrameId}
    (h : s.chain e = i :: rest) :
    s.pop e = some { s with chains := s.chains.setIfInBounds e rest } := by
  simp [pop, h]

/-- The store after the innermost frame of `e` was dropped, if there was one. -/
def popped (s : Store) (e : EnvId) : Store := (s.pop e).getD s

theorem frames_popped (s : Store) (e : EnvId) : (s.popped e).frames = s.frames := by
  cases hc : s.chain e <;> simp [popped, pop, hc]

theorem frame_popped (s : Store) (e : EnvId) (i : FrameId) : (s.popped e).frame i = s.frame i := by
  cases hc : s.chain e <;> simp [popped, pop, hc, frame]

@[simp] theorem size_frames_popped (s : Store) (e : EnvId) :
    (s.popped e).frames.size = s.frames.size := by
  cases hc : s.chain e <;> simp [popped, pop, hc]

@[simp] theorem size_chains_popped (s : Store) (e : EnvId) :
    (s.popped e).chains.size = s.chains.size := by
  cases hc : s.chain e <;> simp [popped, pop, hc]

theorem chain_popped_self (s : Store) (e : EnvId) : (s.popped e).chain e = (s.chain e).tail := by
  cases hc : s.chain e with
  | nil => simp [popped, pop, hc]
  | cons i rest =>
    rw [popped, pop_of_chain hc]
    simp [chain, lt_of_chain_eq_cons hc]

theorem chain_popped_of_ne {s : Store} {e d : EnvId} (hd : d ≠ e) :
    (s.popped e).chain d = s.chain d := by
  cases hc : s.chain e with
  | nil => simp [popped, pop, hc]
  | cons i rest =>
    rw [popped, pop_of_chain hc]
    simp [chain, Ne.symm hd]

/-! ### Capturing -/

theorem chain_snapshot_self (s : Store) (e : EnvId) :
    (s.snapshot e).2.chain s.chains.size = s.chain e := by
  simp [chain, snapshot]

theorem chain_snapshot_of_ne {s : Store} {d : EnvId} (hd : d ≠ s.chains.size) (e : EnvId) :
    (s.snapshot e).2.chain d = s.chain d := by
  simp [chain, snapshot, Array.getElem?_push, hd]

@[simp] theorem size_frames_snapshot (s : Store) (e : EnvId) :
    (s.snapshot e).2.frames.size = s.frames.size := rfl

@[simp] theorem size_chains_snapshot (s : Store) (e : EnvId) :
    (s.snapshot e).2.chains.size = s.chains.size + 1 := by
  simp [snapshot]

/-! ## Keeping what is there -/

/-- The later store `t` has all that `s` has, unchanged but for the frames in `exempt`. -/
structure Keeps (exempt : FrameId → Prop) (s t : Store) : Prop where
  frames_le : s.frames.size ≤ t.frames.size
  chains_le : s.chains.size ≤ t.chains.size
  chain : ∀ e, e < s.chains.size → t.chain e = s.chain e
  frame : ∀ i, i < s.frames.size → ¬exempt i → t.frame i = s.frame i

/-- Nothing is exempt. -/
abbrev KeepsAll : Store → Store → Prop := Keeps fun _ => False

namespace Keeps

variable {exempt : FrameId → Prop} {s t u : Store} {e : EnvId} {name : Text} {v : Value}

theorem refl (s : Store) : Keeps exempt s s :=
  ⟨Nat.le_refl _, Nat.le_refl _, fun _ _ => rfl, fun _ _ _ => rfl⟩

theorem trans (h : Keeps exempt s t) (g : Keeps exempt t u) : Keeps exempt s u where
  frames_le := Nat.le_trans h.frames_le g.frames_le
  chains_le := Nat.le_trans h.chains_le g.chains_le
  chain e he := (g.chain e (Nat.lt_of_lt_of_le he h.chains_le)).trans (h.chain e he)
  frame i hi hx := (g.frame i (Nat.lt_of_lt_of_le hi h.frames_le) hx).trans (h.frame i hi hx)

/-- To exempt frames that `s` does not have yet is to exempt none. -/
theorem weaken {exempt' : FrameId → Prop} (h : Keeps exempt s t)
    (hx : ∀ i, i < s.frames.size → exempt i → exempt' i) : Keeps exempt' s t where
  frames_le := h.frames_le
  chains_le := h.chains_le
  chain := h.chain
  frame i hi hn := h.frame i hi fun he => hn (hx i hi he)

theorem bind (hb : s.bind e name v = some t) (hx : ∀ i rest, s.chain e = i :: rest → exempt i) :
    Keeps exempt s t where
  frames_le := Nat.le_of_eq (size_frames_bind hb).symm
  chains_le := Nat.le_of_eq (size_chains_bind hb).symm
  chain d _ := chain_bind hb d
  frame i _ hn := by
    obtain ⟨j, rest, hc, -⟩ := chain_of_bind hb
    have hij : i ≠ j := fun he => hn (he ▸ hx j rest hc)
    exact frame_bind_of_ne hb hc hij

theorem snapshot (s : Store) (e : EnvId) : Keeps exempt s (s.snapshot e).2 where
  frames_le := Nat.le_refl _
  chains_le := by rw [size_chains_snapshot]; exact Nat.le_succ _
  chain _ hd := chain_snapshot_of_ne (Nat.ne_of_lt hd) e
  frame _ _ _ := rfl

/-- Between a push and its pop only the pushed frame may change: then the push and the pop
together keep everything. -/
theorem push_popped (he : e < s.chains.size)
    (h : Keeps (fun i => i = s.frames.size) (s.push e name v) t) : KeepsAll s (t.popped e) where
  frames_le := by
    have := h.frames_le
    simp only [size_frames_push] at this
    rw [size_frames_popped]
    omega
  chains_le := by
    rw [size_chains_popped]
    exact size_chains_push s e name v ▸ h.chains_le
  chain d hd := by
    have hd' : d < (s.push e name v).chains.size := (size_chains_push s e name v).symm ▸ hd
    by_cases hde : d = e
    · subst hde
      rw [chain_popped_self, h.chain d hd', chain_push_self he]
      rfl
    · rw [chain_popped_of_ne hde, h.chain d hd', chain_push_of_ne hde]
  frame i hi _ := by
    have hne : i ≠ s.frames.size := Nat.ne_of_lt hi
    have hi' : i < (s.push e name v).frames.size := by
      rw [size_frames_push]
      omega
    rw [frame_popped, h.frame i hi' hne, frame_push_of_ne hne]

/-- A binding made in the earlier store can be made in the later one, and one keeps the other. -/
theorem bind_bind {t' : Store} (h : KeepsAll s t) (hb : s.bind e name v = some t')
    (hlt : ∀ i ∈ s.chain e, i < s.frames.size) :
    ∃ u, t.bind e name v = some u ∧ KeepsAll t' u := by
  obtain ⟨i, rest, hc, -⟩ := chain_of_bind hb
  have hi : i < s.frames.size := hlt i (hc ▸ List.mem_cons_self)
  have hc' : t.chain e = i :: rest := by rw [h.chain e (lt_of_chain_eq_cons hc), hc]
  refine ⟨_, bind_of_chain hc' name v, ?_⟩
  have hu := bind_of_chain hc' name v
  refine ⟨?_, ?_, fun d hd => ?_, fun j hj _ => ?_⟩
  · rw [size_frames_bind hb, size_frames_bind hu]
    exact h.frames_le
  · rw [size_chains_bind hb, size_chains_bind hu]
    exact h.chains_le
  · rw [chain_bind hu, chain_bind hb]
    exact h.chain d (size_chains_bind hb ▸ hd)
  · have hj' : j < s.frames.size := size_frames_bind hb ▸ hj
    have hframe : t.frame j = s.frame j := h.frame j hj' not_false
    by_cases hji : j = i
    · subst hji
      rw [frame_bind_self hu hc' (Nat.lt_of_lt_of_le hi h.frames_le), frame_bind_self hb hc hi,
        hframe]
    · rw [frame_bind_of_ne hu hc' hji, frame_bind_of_ne hb hc hji, hframe]

end Keeps

/-! ## What is bound -/

/-- `P` holds of every value that is bound to a name. -/
def Holds (P : Value → Prop) (s : Store) : Prop :=
  ∀ i name v, (s.frame i).get? name = some v → P v

namespace Holds

variable {P Q : Value → Prop} {s t : Store} {e : EnvId} {name : Text} {v : Value}

theorem imp (h : s.Holds P) (hPQ : ∀ v, P v → Q v) : s.Holds Q :=
  fun i name v hv => hPQ v (h i name v hv)

/-- Only frames count, not which environments have them. -/
theorem of_frames (h : s.Holds P) (hf : t.frames = s.frames) : t.Holds P := by
  intro i n w hw
  rw [Store.frame, hf] at hw
  exact h i n w hw

theorem popped (h : s.Holds P) (e : EnvId) : (s.popped e).Holds P :=
  h.of_frames (frames_popped s e)

theorem lookup (h : s.Holds P) (hl : s.lookup e name = some v) : P v := by
  obtain ⟨i, -, hi⟩ := List.exists_of_findSome?_eq_some hl
  exact h i name v hi

theorem bind (h : s.Holds P) (hb : s.bind e name v = some t) (hv : P v) : t.Holds P := by
  intro i n w hw
  rcases get?_of_get?_bind hb hw with rfl | hw
  · exact hv
  · exact h i n w hw

theorem push (h : s.Holds P) (e : EnvId) (name : Text) (hv : P v) : (s.push e name v).Holds P := by
  intro i n w hw
  by_cases hi : i = s.frames.size
  · subst hi
    rw [frame_push_self, Frame.get?_single] at hw
    split at hw
    · exact Option.some.inj hw ▸ hv
    · cases hw
  · rw [frame_push_of_ne hi] at hw
    exact h i n w hw

end Holds

end Store

/-! ## Soundness -/

/-- A function value has an environment of its own in `s`, which is not the global one. -/
def Value.Sound (s : Store) : Value → Prop
  | .function f => ∃ e, f.capture = .env e ∧ 0 < e ∧ e < s.chains.size
  | _ => True

theorem Value.Sound.mono {s t : Store} {v : Value} (h : v.Sound s)
    (hst : s.chains.size ≤ t.chains.size) : v.Sound t := by
  cases v with
  | function f =>
    obtain ⟨e, hf, hpos, hlt⟩ := h
    exact ⟨e, hf, hpos, Nat.lt_of_lt_of_le hlt hst⟩
  | number x => trivial
  | absent => trivial

namespace Store

/-- What evaluation relies on. -/
structure Sound (s : Store) : Prop where
  chain_lt : ∀ e, ∀ i ∈ s.chain e, i < s.frames.size
  chain_ne_nil : ∀ e, e < s.chains.size → s.chain e ≠ []
  value : ∀ i name v, (s.frame i).get? name = some v → v.Sound s

namespace Sound

variable {s t : Store} {e : EnvId} {name : Text} {v : Value}

theorem chain_eq_cons (h : s.Sound) (he : e < s.chains.size) :
    ∃ i rest, s.chain e = i :: rest ∧ i < s.frames.size := by
  cases hc : s.chain e with
  | nil => exact absurd hc (h.chain_ne_nil e he)
  | cons i rest => exact ⟨i, rest, rfl, h.chain_lt e i (hc ▸ List.mem_cons_self)⟩

theorem lookup (h : s.Sound) (hl : s.lookup e name = some v) : v.Sound s :=
  Holds.lookup h.value hl

/-- What is bound stays sound as environments are made. -/
theorem holds (h : s.Sound) (hst : s.chains.size ≤ t.chains.size) : s.Holds (Value.Sound t) :=
  Holds.imp h.value fun _ hv => hv.mono hst

theorem bind_isSome (h : s.Sound) (he : e < s.chains.size) (name : Text) (v : Value) :
    ∃ t, s.bind e name v = some t := by
  obtain ⟨i, rest, hc, -⟩ := h.chain_eq_cons he
  exact ⟨_, bind_of_chain hc name v⟩

theorem push (h : s.Sound) (e : EnvId) (name : Text) (hv : v.Sound s) :
    (s.push e name v).Sound where
  chain_lt d i hi := by
    rw [size_frames_push]
    by_cases hde : d = e
    · subst hde
      have hd : d < s.chains.size := size_chains_push s d name v ▸ lt_of_mem_chain hi
      rw [chain_push_self hd] at hi
      rcases List.mem_cons.mp hi with rfl | hi
      · exact Nat.lt_succ_self _
      · exact Nat.lt_succ_of_lt (h.chain_lt d i hi)
    · rw [chain_push_of_ne hde] at hi
      exact Nat.lt_succ_of_lt (h.chain_lt d i hi)
  chain_ne_nil d hd := by
    rw [size_chains_push] at hd
    by_cases hde : d = e
    · subst hde
      rw [chain_push_self hd]
      exact List.cons_ne_nil _ _
    · rw [chain_push_of_ne hde]
      exact h.chain_ne_nil d hd
  value :=
    have hsize : s.chains.size ≤ (s.push e name v).chains.size :=
      Nat.le_of_eq (size_chains_push s e name v).symm
    (h.holds hsize).push e name (hv.mono hsize)

theorem bind (h : s.Sound) (hb : s.bind e name v = some t) (hv : v.Sound s) : t.Sound where
  chain_lt d i hi := by
    rw [size_frames_bind hb]
    rw [chain_bind hb] at hi
    exact h.chain_lt d i hi
  chain_ne_nil d hd := by
    rw [chain_bind hb]
    exact h.chain_ne_nil d (size_chains_bind hb ▸ hd)
  value :=
    have hsize : s.chains.size ≤ t.chains.size := Nat.le_of_eq (size_chains_bind hb).symm
    (h.holds hsize).bind hb (hv.mono hsize)

theorem popped (h : s.Sound) (he : (s.chain e).tail ≠ []) : (s.popped e).Sound where
  chain_lt d i hi := by
    rw [size_frames_popped]
    by_cases hde : d = e
    · subst hde
      rw [chain_popped_self] at hi
      exact h.chain_lt d i (List.mem_of_mem_tail hi)
    · rw [chain_popped_of_ne hde] at hi
      exact h.chain_lt d i hi
  chain_ne_nil d hd := by
    by_cases hde : d = e
    · subst hde
      rw [chain_popped_self]
      exact he
    · rw [chain_popped_of_ne hde]
      exact h.chain_ne_nil d (size_chains_popped s e ▸ hd)
  value := (h.holds (Nat.le_of_eq (size_chains_popped s e).symm)).popped e

end Sound
end Store

/-! ## Memories -/

namespace Memory

theorem store_beginCall (m : Memory) (f : Closure) (e : EnvId) (argument : Text) (v : Value) :
    (m.beginCall f e argument v).store = m.store.push e f.decl.parameter v := rfl

theorem store_endCall (m : Memory) (name : Text) (e : EnvId) :
    (m.endCall name e).store = m.store.popped e := by
  cases hp : m.store.pop e <;> simp [endCall, Store.popped, hp, note]

/-- The number of the environment that a declaration made now would capture. -/
def nextEnv (m : Memory) : EnvId := m.store.chains.size

/-- The function that a declaration made now would bind. -/
def declared (m : Memory) (decl : FunctionDecl) : Value :=
  .function { decl, capture := .env m.nextEnv }

theorem declare_eq (m : Memory) (e : EnvId) (decl : FunctionDecl) :
    m.declare e decl = (m.store.bind e decl.name (m.declared decl)).map fun store =>
      (m.declared decl, { m with store := (store.snapshot e).2 }) := rfl

/-- Binding the name of a function and capturing the environment. -/
theorem sound_declare {m : Memory} {e : EnvId} {decl : FunctionDecl} {t : Store}
    (h : m.store.Sound) (he : e < m.store.chains.size)
    (hb : m.store.bind e decl.name (m.declared decl) = some t) :
    (t.snapshot e).2.Sound ∧ (m.declared decl).Sound (t.snapshot e).2 := by
  have hsize : (t.snapshot e).2.chains.size = m.store.chains.size + 1 := by
    rw [Store.size_chains_snapshot, Store.size_chains_bind hb]
  have hf : (m.declared decl).Sound (t.snapshot e).2 :=
    ⟨m.nextEnv, rfl, Nat.lt_of_le_of_lt (Nat.zero_le e) he, hsize ▸ Nat.lt_succ_self _⟩
  refine ⟨⟨fun d i hi => ?_, fun d hd => ?_, ?_⟩, hf⟩
  · rw [Store.size_frames_snapshot, Store.size_frames_bind hb]
    by_cases hd : d = t.chains.size
    · rw [hd, Store.chain_snapshot_self, Store.chain_bind hb] at hi
      exact h.chain_lt e i hi
    · rw [Store.chain_snapshot_of_ne hd, Store.chain_bind hb] at hi
      exact h.chain_lt d i hi
  · by_cases hd' : d = t.chains.size
    · rw [hd', Store.chain_snapshot_self, Store.chain_bind hb]
      exact h.chain_ne_nil e he
    · rw [Store.chain_snapshot_of_ne hd', Store.chain_bind hb]
      have hlt : d < m.store.chains.size := by
        rw [Store.size_chains_bind hb] at hd'
        omega
      exact h.chain_ne_nil d hlt
  · exact ((h.holds (hsize ▸ Nat.le_succ _)).bind hb hf).of_frames rfl

/-- The environments after a declaration, where `view` says what each of them has become since it
`captured` its frames. -/
theorem chain_declare {m : Memory} {e : EnvId} {decl : FunctionDecl} {t : Store}
    (hb : m.store.bind e decl.name (m.declared decl) = some t) {captured : List (List FrameId)}
    (hsize : captured.length = m.store.chains.size) (view : EnvId → List FrameId → List FrameId)
    (hold : ∀ d, d < m.store.chains.size → m.store.chain d = view d (captured.getD d []))
    (hnew : view m.store.chains.size (m.store.chain e) = m.store.chain e) {d : EnvId}
    (hd : d < (t.snapshot e).2.chains.size) :
    (t.snapshot e).2.chain d = view d ((captured ++ [m.store.chain e]).getD d []) := by
  rw [Store.size_chains_snapshot, Store.size_chains_bind hb] at hd
  rw [List.getD_eq_getElem?_getD]
  rcases Nat.lt_or_eq_of_le (Nat.le_of_lt_succ hd) with hlt | rfl
  · have hne : d ≠ t.chains.size := Store.size_chains_bind hb ▸ Nat.ne_of_lt hlt
    rw [Store.chain_snapshot_of_ne hne, Store.chain_bind hb, hold d hlt,
      List.getElem?_append_left (hsize ▸ hlt), List.getD_eq_getElem?_getD]
  · rw [List.getElem?_append_right (Nat.le_of_eq hsize), hsize, Nat.sub_self,
      ← Store.size_chains_bind hb, Store.chain_snapshot_self, Store.chain_bind hb,
      Store.size_chains_bind hb]
    exact hnew.symm

theorem frame_fresh (i : FrameId) : fresh.store.frame i = .empty := by
  by_cases hi : i = 0
  · subst hi
    rfl
  · exact Store.frame_of_le (Nat.one_le_iff_ne_zero.mpr hi)

theorem holds_fresh (P : Value → Prop) : fresh.store.Holds P := by
  intro i name v hv
  rw [frame_fresh, Frame.get?_empty] at hv
  cases hv

theorem sound_fresh : fresh.store.Sound where
  chain_lt e i hi := by
    obtain rfl : e = 0 := Nat.lt_one_iff.mp (Store.lt_of_mem_chain hi)
    obtain rfl : i = 0 := by simpa [fresh, Store.newEnv, Store.chain] using hi
    decide
  chain_ne_nil e he := by
    obtain rfl : e = 0 := Nat.lt_one_iff.mp he
    exact List.cons_ne_nil 0 []
  value := holds_fresh _

end Memory
end Stepwise
