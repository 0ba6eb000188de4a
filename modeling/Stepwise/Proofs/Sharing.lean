/-
Environments share frames but not chains.

A store comes about by making environments, pushing, binding, popping and taking snapshots, in any
order and number.  Snapshots of snapshots, taken at different depths and pushed and popped on since,
have frames in common in any pattern, and what one binding does to look-up depends on which frames
shadow which in every environment that has the frame.

`Store.holder?` is the frame that answers for a name: the innermost one that contains it.  A binding
is then seen exactly where, once it is made, the frame that answers for the name is the one that was
written (`lookup_bind`).  The other operations only concern one environment.  All this rests on one
fact about the stores that operations lead to (`built_inBounds`): no chain names a frame that is not
there, so the frame that a push makes is in no other environment.
-/
import Stepwise.Proofs.Environments

namespace Stepwise
namespace Store

/-! ## Operations -/

inductive Op where
  | newEnv
  | push (e : EnvId) (name : Text) (v : Value)
  | bind (e : EnvId) (name : Text) (v : Value)
  | pop (e : EnvId)
  | snapshot (e : EnvId)

/-- What an operation answers. -/
inductive Reply where
  | done
  | made (e : EnvId)
  | noFrame
deriving DecidableEq

/-- Carries out an operation.  One that needs a frame and finds none does nothing. -/
def perform (s : Store) : Op → Reply × Store
  | .newEnv => (.made s.newEnv.1, s.newEnv.2)
  | .push e name v => (.done, s.push e name v)
  | .bind e name v => ((s.bind e name v).elim .noFrame fun _ => .done, (s.bind e name v).getD s)
  | .pop e => ((s.pop e).elim .noFrame fun _ => .done, s.popped e)
  | .snapshot e => (.made (s.snapshot e).1, (s.snapshot e).2)

/-- The store that a sequence of operations leads to, where there was nothing before. -/
def built (ops : List Op) : Store := ops.foldl (fun s op => (s.perform op).2) {}

/-! ## Chains name frames that are there -/

def InBounds (s : Store) : Prop := ∀ e, ∀ i ∈ s.chain e, i < s.frames.size

theorem chain_newEnv_self (s : Store) : s.newEnv.2.chain s.chains.size = [s.frames.size] := by
  simp [chain, newEnv]

theorem chain_newEnv_of_ne {s : Store} {d : EnvId} (hd : d ≠ s.chains.size) :
    s.newEnv.2.chain d = s.chain d := by
  simp [chain, newEnv, Array.getElem?_push, hd]

theorem frame_newEnv_of_ne {s : Store} {i : FrameId} (hi : i ≠ s.frames.size) :
    s.newEnv.2.frame i = s.frame i := by
  simp [frame, newEnv, Array.getElem?_push, hi]

theorem size_frames_newEnv (s : Store) : s.newEnv.2.frames.size = s.frames.size + 1 := by
  simp [newEnv]

theorem InBounds.newEnv {s : Store} (h : s.InBounds) : s.newEnv.2.InBounds := by
  intro e i hi
  rw [size_frames_newEnv]
  by_cases he : e = s.chains.size
  · subst he
    rw [chain_newEnv_self, List.mem_singleton] at hi
    exact hi ▸ Nat.lt_succ_self _
  · rw [chain_newEnv_of_ne he] at hi
    exact Nat.lt_succ_of_lt (h e i hi)

theorem InBounds.push {s : Store} (h : s.InBounds) (e : EnvId) (name : Text) (v : Value) :
    (s.push e name v).InBounds := by
  intro d i hi
  rw [size_frames_push]
  by_cases hd : d = e
  · subst hd
    have hlt : d < s.chains.size := size_chains_push s d name v ▸ lt_of_mem_chain hi
    rw [chain_push_self hlt] at hi
    rcases List.mem_cons.mp hi with rfl | hi
    · exact Nat.lt_succ_self _
    · exact Nat.lt_succ_of_lt (h d i hi)
  · rw [chain_push_of_ne hd] at hi
    exact Nat.lt_succ_of_lt (h d i hi)

theorem InBounds.bind {s t : Store} {e : EnvId} {name : Text} {v : Value} (h : s.InBounds)
    (hb : s.bind e name v = some t) : t.InBounds := by
  intro d i hi
  rw [chain_bind hb] at hi
  rw [size_frames_bind hb]
  exact h d i hi

theorem InBounds.popped {s : Store} (h : s.InBounds) (e : EnvId) : (s.popped e).InBounds := by
  intro d i hi
  rw [size_frames_popped]
  by_cases hd : d = e
  · subst hd
    rw [chain_popped_self] at hi
    exact h d i (List.mem_of_mem_tail hi)
  · rw [chain_popped_of_ne hd] at hi
    exact h d i hi

theorem InBounds.snapshot {s : Store} (h : s.InBounds) (e : EnvId) : (s.snapshot e).2.InBounds := by
  intro d i hi
  rw [size_frames_snapshot]
  by_cases hd : d = s.chains.size
  · subst hd
    rw [chain_snapshot_self] at hi
    exact h e i hi
  · rw [chain_snapshot_of_ne hd] at hi
    exact h d i hi

theorem InBounds.perform {s : Store} (h : s.InBounds) (op : Op) : (s.perform op).2.InBounds := by
  cases op with
  | newEnv => exact h.newEnv
  | push e name v => exact h.push e name v
  | bind e name v =>
    show ((s.bind e name v).getD s).InBounds
    cases hb : s.bind e name v with
    | none => exact h
    | some t => exact h.bind hb
  | pop e => exact h.popped e
  | snapshot e => exact h.snapshot e

theorem built_inBounds (ops : List Op) : (built ops).InBounds := by
  have hrun : ∀ (ops : List Op) (s : Store), s.InBounds →
      (ops.foldl (fun s op => (s.perform op).2) s).InBounds := by
    intro ops
    induction ops with
    | nil => exact fun s h => h
    | cons op ops ih => exact fun s h => ih _ (h.perform op)
  refine hrun ops {} fun e i hi => ?_
  exact absurd (lt_of_mem_chain hi) (Nat.not_lt_zero e)

/-! ## Which frame answers -/

/-- The innermost frame of an environment that contains a name. -/
def holder? (s : Store) (e : EnvId) (name : Text) : Option FrameId :=
  (s.chain e).find? fun i => ((s.frame i).get? name).isSome

theorem holder?_eq_some_iff {s : Store} {e : EnvId} {name : Text} {i : FrameId} :
    s.holder? e name = some i ↔ ((s.frame i).get? name).isSome ∧
      ∃ inner outer, s.chain e = inner ++ i :: outer ∧
        ∀ j ∈ inner, (s.frame j).get? name = none := by
  simp [holder?, List.find?_eq_some_iff_append]

theorem lookup_eq_holder? (s : Store) (e : EnvId) (name : Text) :
    s.lookup e name = (s.holder? e name).bind fun i => (s.frame i).get? name := by
  unfold lookup holder?
  induction s.chain e with
  | nil => rfl
  | cons i outer ih =>
    rw [List.findSome?_cons, List.find?_cons]
    cases hi : (s.frame i).get? name with
    | none => exact ih
    | some v => exact hi.symm

/-! ## Environments that are not concerned -/

/-- The environment `d` has the same frames in both stores, and every name the same value. -/
def SameIn (d : EnvId) (s t : Store) : Prop :=
  t.chain d = s.chain d ∧ ∀ name, t.lookup d name = s.lookup d name

theorem sameIn_of_frames {s t : Store} {d : EnvId} (hchain : t.chain d = s.chain d)
    (hframe : ∀ i ∈ s.chain d, t.frame i = s.frame i) : SameIn d s t := by
  refine ⟨hchain, fun name => ?_⟩
  unfold lookup
  rw [hchain]
  generalize s.chain d = chain at hframe
  induction chain with
  | nil => rfl
  | cons i outer ih =>
    have hrest := ih fun j hj => hframe j (List.mem_cons_of_mem i hj)
    rw [List.findSome?_cons, List.findSome?_cons, hframe i List.mem_cons_self, hrest]

theorem InBounds.sameIn_newEnv {s : Store} (h : s.InBounds) {d : EnvId} (hd : d ≠ s.chains.size) :
    SameIn d s s.newEnv.2 :=
  sameIn_of_frames (chain_newEnv_of_ne hd) fun i hi =>
    frame_newEnv_of_ne (Nat.ne_of_lt (h d i hi))

theorem InBounds.sameIn_push {s : Store} (h : s.InBounds) {e d : EnvId} (hd : d ≠ e) (name : Text)
    (v : Value) : SameIn d s (s.push e name v) :=
  sameIn_of_frames (chain_push_of_ne hd name v) fun i hi =>
    frame_push_of_ne (Nat.ne_of_lt (h d i hi)) e name v

theorem sameIn_popped (s : Store) {e d : EnvId} (hd : d ≠ e) : SameIn d s (s.popped e) :=
  sameIn_of_frames (chain_popped_of_ne hd) fun i _ => frame_popped s e i

theorem sameIn_snapshot (s : Store) (e : EnvId) {d : EnvId} (hd : d ≠ s.chains.size) :
    SameIn d s (s.snapshot e).2 :=
  sameIn_of_frames (chain_snapshot_of_ne hd e) fun _ _ => rfl

/-! ## What a binding changes -/

theorem get?_bind {s t : Store} {e : EnvId} {name : Text} {v : Value} {i : FrameId}
    {outer : List FrameId} (h : s.InBounds) (hb : s.bind e name v = some t)
    (hc : s.chain e = i :: outer) (j : FrameId) (n : Text) :
    (t.frame j).get? n = if j = i ∧ n = name then some v else (s.frame j).get? n := by
  by_cases hj : j = i
  · subst hj
    rw [frame_bind_self hb hc (h e j (hc ▸ List.mem_cons_self)), Frame.get?_set]
    simp
  · rw [frame_bind_of_ne hb hc hj, if_neg fun hand => hj hand.1]

/-- A binding is seen under its name, where the frame that was written answers for it. -/
theorem lookup_bind {s t : Store} {e : EnvId} {name : Text} {v : Value} {i : FrameId}
    {outer : List FrameId} (h : s.InBounds) (hb : s.bind e name v = some t)
    (hc : s.chain e = i :: outer) (d : EnvId) (n : Text) :
    t.lookup d n = if n = name ∧ t.holder? d name = some i then some v else s.lookup d n := by
  have hget := get?_bind h hb hc
  unfold lookup holder?
  rw [chain_bind hb d]
  by_cases hn : n = name
  · subst hn
    -- Down to the frame that answers the two stores agree.
    induction s.chain d with
    | nil => simp
    | cons j chain ih =>
      rw [List.findSome?_cons, List.findSome?_cons, List.find?_cons]
      by_cases hj : j = i
      · simp [hget, hj]
      · rw [hget j n, if_neg fun hand => hj hand.1]
        cases (s.frame j).get? n with
        | none => exact ih
        | some w => simp [hj]
  · have hsame : (fun j => (t.frame j).get? n) = fun j => (s.frame j).get? n := by
      funext j
      rw [hget j n, if_neg fun hand => hn hand.2]
    rw [hsame, if_neg fun hand => hn hand.1]

/-! ## Want of a frame -/

theorem pop_eq_none_iff {s : Store} {e : EnvId} : s.pop e = none ↔ s.chain e = [] := by
  cases hc : s.chain e with
  | nil => simp [pop, hc]
  | cons i rest => simp [pop_of_chain hc]

theorem depth_eq_zero_iff {s : Store} {e : EnvId} : s.depth e = 0 ↔ s.chain e = [] :=
  List.length_eq_zero_iff

theorem perform_bind_noFrame (s : Store) (e : EnvId) (name : Text) (v : Value) :
    ((s.perform (.bind e name v)).1 = .noFrame ↔ s.depth e = 0) ∧
      (s.depth e = 0 → (s.perform (.bind e name v)).2 = s) := by
  have hnone : s.bind e name v = none ↔ s.chain e = [] := bind_eq_none_iff
  rw [depth_eq_zero_iff, ← hnone]
  cases hb : s.bind e name v <;> simp [perform, hb]

theorem perform_pop_noFrame (s : Store) (e : EnvId) :
    ((s.perform (.pop e)).1 = .noFrame ↔ s.depth e = 0) ∧
      (s.depth e = 0 → (s.perform (.pop e)).2 = s) := by
  rw [depth_eq_zero_iff, ← pop_eq_none_iff]
  cases hp : s.pop e <;> simp [perform, popped, hp]

/-! ## The law -/

/-- Whatever operations a store came about by: a push puts a new frame with one binding in front of
its environment, a pop drops the one in front, and a snapshot has the frames of its original; each
leaves the frames of every other environment, and what it finds under any name, as they were.  A
binding leaves the frames of all environments as they were.  What they find changes only under its
name, and only where the frame that now answers for the name is the one in front of the environment
in which the binding was made.  A look-up is answered by the innermost frame that contains the name.
A binding or a pop answers that there is no frame exactly if its environment has none, and then it
does nothing. -/
theorem frames_shared_chains_apart (ops : List Op) :
    let s := built ops
    (∀ e name v,
      let t := (s.perform (.push e name v)).2
      (e < s.chains.size → t.chain e = s.frames.size :: s.chain e) ∧
      t.frame s.frames.size = .single name v ∧ ∀ d, d ≠ e → SameIn d s t) ∧
    (∀ e,
      let t := (s.perform (.pop e)).2
      t.chain e = (s.chain e).tail ∧ ∀ d, d ≠ e → SameIn d s t) ∧
    (∀ e,
      let t := (s.perform (.snapshot e)).2
      t.chain s.chains.size = s.chain e ∧ ∀ d, d ≠ s.chains.size → SameIn d s t) ∧
    (∀ d, d ≠ s.chains.size → SameIn d s (s.perform .newEnv).2) ∧
    (∀ e name v, 0 < s.depth e →
      let t := (s.perform (.bind e name v)).2
      (∀ d, t.chain d = s.chain d) ∧
      ∀ d n, t.lookup d n =
        if n = name ∧ t.holder? d name = (s.chain e).head? then some v else s.lookup d n) ∧
    (∀ e name, s.lookup e name = (s.holder? e name).bind fun i => (s.frame i).get? name) ∧
    (∀ e name i, s.holder? e name = some i ↔ ((s.frame i).get? name).isSome ∧
      ∃ inner outer, s.chain e = inner ++ i :: outer ∧
        ∀ j ∈ inner, (s.frame j).get? name = none) ∧
    (∀ e name v, ((s.perform (.bind e name v)).1 = .noFrame ↔ s.depth e = 0) ∧
      (s.depth e = 0 → (s.perform (.bind e name v)).2 = s)) ∧
    ∀ e, ((s.perform (.pop e)).1 = .noFrame ↔ s.depth e = 0) ∧
      (s.depth e = 0 → (s.perform (.pop e)).2 = s) := by
  have h := built_inBounds ops
  refine ⟨fun e name v => ⟨fun he => chain_push_self he name v, frame_push_self _ e name v,
      fun d hd => h.sameIn_push hd name v⟩,
    fun e => ⟨chain_popped_self _ e, fun d hd => sameIn_popped _ hd⟩,
    fun e => ⟨chain_snapshot_self _ e, fun d hd => sameIn_snapshot _ e hd⟩,
    fun d hd => h.sameIn_newEnv hd, fun e name v he => ?_, fun e name => lookup_eq_holder? _ e name,
    fun e name i => holder?_eq_some_iff, fun e name v => perform_bind_noFrame _ e name v,
    fun e => perform_pop_noFrame _ e⟩
  cases hc : (built ops).chain e with
  | nil => exact absurd (depth_eq_zero_iff.mpr hc) (Nat.ne_of_gt he)
  | cons i outer =>
    have hb := bind_of_chain hc name v
    have hperform : ((built ops).perform (.bind e name v)).2 =
        ((built ops).bind e name v).getD (built ops) := rfl
    rw [hperform, hb]
    exact ⟨chain_bind hb, lookup_bind h hb hc⟩

/-- Environments 0 and 1 have one frame in common.  Environment 2 is a snapshot of 1 from when a
second frame was in front of it, which has the name too.  Environment 3 has no frame left. -/
def shadowing : List Op :=
  [.newEnv, .bind 0 "a" .absent, .snapshot 0, .push 1 "a" .absent, .snapshot 1, .pop 1, .newEnv,
    .pop 3]

/-- A binding in environment 0 is seen in 1 as well, and in 2 it is shadowed.  In 3 nothing can be
bound, and a push concerns 3 alone. -/
theorem shadowing_frames_shared :
    let s := built shadowing
    let t := (s.perform (.bind 0 "a" (.number 3))).2
    t.lookup 0 "a" = some (.number 3) ∧ t.lookup 1 "a" = some (.number 3) ∧
      t.lookup 2 "a" = s.lookup 2 "a" ∧ SameIn 2 s (s.perform (.push 3 "a" (.number 3))).2 ∧
      (s.perform (.bind 3 "a" (.number 3))).1 = .noFrame := by
  obtain ⟨hpush, -, -, -, hbind, -, -, hnone, -⟩ := frames_shared_chains_apart shadowing
  obtain ⟨-, hlookup⟩ := hbind 0 "a" (.number 3) (by decide +kernel)
  refine ⟨?_, ?_, ?_, (hpush 3 "a" _).2.2 2 (by decide), (hnone 3 "a" _).1.mpr (by decide +kernel)⟩
  · exact (hlookup 0 "a").trans (if_pos (by decide +kernel))
  · exact (hlookup 1 "a").trans (if_pos (by decide +kernel))
  · exact (hlookup 2 "a").trans (if_neg (by decide +kernel))

end Store
end Stepwise
