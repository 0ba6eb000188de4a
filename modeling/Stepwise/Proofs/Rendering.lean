/-
The text of an environment tells its bindings and nothing of how they came about.

`Store.writes` lists what a sequence of operations wrote into which frame, and `Store.lastBound` is
the last value that was written there under a name.  This is what a frame holds
(`built_holds_lastBound`), however often names were bound again and through whichever environment.
The text of a frame shows each bound name once, in the order of bytes.  A strictly increasing list
is determined by its members, so frames that bind the same names to values that look alike have the
same text (`Frame.text_congr`).

A function looks like any other with its name and its parameter: the environment that it captured is
not looked at, and may well have the frame in which the function is bound.
-/
import Mathlib.Data.List.Forall2
import Mathlib.Data.List.Sort
import Stepwise.Proofs.Sharing

namespace Stepwise

/-! ## The text of a frame -/

/-- Nothing of the values is shown in which they differ. -/
inductive Value.LooksLike : Value → Value → Prop
  | number (x : Float) : LooksLike (.number x) (.number x)
  | function {f f' : Closure} (hname : f.decl.name = f'.decl.name)
      (hparameter : f.decl.parameter = f'.decl.parameter) :
      LooksLike (.function f) (.function f')
  | absent : LooksLike .absent .absent

theorem Value.LooksLike.refl (v : Value) : v.LooksLike v := by
  cases v with
  | number x => exact .number x
  | function f => exact .function rfl rfl
  | absent => exact .absent

theorem Value.LooksLike.text_eq {v v' : Value} (h : v.LooksLike v') : v.text = v'.text := by
  cases h with
  | number x => rfl
  | function hname hparameter =>
    show Closure.text _ = Closure.text _
    unfold Closure.text
    rw [hname, hparameter]
  | absent => rfl

theorem Value.map_text_eq {x x' : Option Value} (h : Option.Rel LooksLike x x') :
    x.map text = x'.map text := by
  cases h with
  | none => rfl
  | some hv => rw [Option.map_some, Option.map_some, hv.text_eq]

/-- Bindings in braces, in the order in which they are listed. -/
def bindingsText (entries : List (Text × Value)) : Text :=
  "\x7b" ++ Text.join ", " (entries.map fun e => e.1 ++ ": " ++ e.2.text) ++ "\x7d"

namespace Frame

theorem text_eq_bindingsText (f : Frame) : f.text = bindingsText f.entries := rfl

theorem mem_iff_lookup {entries : List (Text × Value)}
    (h : entries.Pairwise fun a b => a.1 < b.1) {name : Text} {v : Value} :
    (name, v) ∈ entries ↔ entries.lookup name = some v := by
  induction entries with
  | nil => simp
  | cons e rest ih =>
    obtain ⟨k, w⟩ := e
    obtain ⟨hk, hrest⟩ := List.pairwise_cons.mp h
    rw [List.mem_cons, ih hrest, List.lookup_cons]
    by_cases hname : name = k
    · subst hname
      -- A name is not in the rest, as it would be less than itself.
      have hnot : rest.lookup name ≠ some v := by
        intro hlookup
        exact List.lt_irrefl name (hk _ ((ih hrest).mpr hlookup))
      simp [hnot, eq_comm]
    · simp [hname, beq_eq_false_iff_ne.mpr hname]

theorem mem_entries_iff {f : Frame} {name : Text} {v : Value} :
    (name, v) ∈ f.entries ↔ f.get? name = some v :=
  mem_iff_lookup f.sorted

/-- What is shown of the entries, before it is put together. -/
def parts (f : Frame) : List (Text × Text) := f.entries.map fun e => (e.1, e.2.text)

theorem parts_sorted (f : Frame) : f.parts.Pairwise fun a b => a.1 < b.1 :=
  List.pairwise_map.mpr f.sorted

theorem mem_parts_iff {f : Frame} {name t : Text} :
    (name, t) ∈ f.parts ↔ (f.get? name).map Value.text = some t := by
  unfold parts
  rw [List.mem_map, Option.map_eq_some_iff]
  constructor
  · rintro ⟨⟨k, v⟩, hmem, heq⟩
    cases heq
    exact ⟨v, mem_entries_iff.mp hmem, rfl⟩
  · rintro ⟨v, hget, rfl⟩
    exact ⟨(name, v), mem_entries_iff.mpr hget, rfl⟩

theorem text_eq_parts (f : Frame) :
    f.text = "\x7b" ++ Text.join ", " (f.parts.map fun p => p.1 ++ ": " ++ p.2) ++ "\x7d" := by
  rw [text_eq_bindingsText, bindingsText, parts, List.map_map]
  rfl

theorem text_congr {f f' : Frame}
    (h : ∀ name, Option.Rel Value.LooksLike (f.get? name) (f'.get? name)) : f.text = f'.text := by
  have hmem : ∀ p, p ∈ f.parts ↔ p ∈ f'.parts := by
    rintro ⟨name, t⟩
    rw [mem_parts_iff, mem_parts_iff, Value.map_text_eq (h name)]
  have hirrefl : Std.Irrefl fun a b : Text × Text => a.1 < b.1 := ⟨fun a => List.lt_irrefl a.1⟩
  have hantisymm : Std.Antisymm fun a b : Text × Text => a.1 < b.1 :=
    ⟨fun a b hab hba => absurd hba (List.lt_asymm hab)⟩
  have hparts : f.parts = f'.parts := f.parts_sorted.eq_of_mem_iff f'.parts_sorted hmem
  rw [text_eq_parts, text_eq_parts, hparts]

end Frame

/-! ## What was bound last -/

namespace Store

/-- What an operation writes: a push, into the frame that it makes; a binding, into the innermost
frame of its environment. -/
def Op.write? (s : Store) : Op → Option (FrameId × Text × Value)
  | .push _ name v => some (s.frames.size, name, v)
  | .bind e name v => (s.chain e).head?.map fun i => (i, name, v)
  | _ => none

/-- What operations write one after another. -/
def writesFrom (s : Store) : List Op → List (FrameId × Text × Value)
  | [] => []
  | op :: ops => (op.write? s).toList ++ writesFrom (s.perform op).2 ops

def writes (ops : List Op) : List (FrameId × Text × Value) := writesFrom {} ops

/-- The value last written into a frame under a name. -/
def lastWritten (ws : List (FrameId × Text × Value)) (i : FrameId) (name : Text) : Option Value :=
  (ws.filter fun w => w.1 = i ∧ w.2.1 = name).getLast?.map fun w => w.2.2

def lastBound (ops : List Op) (i : FrameId) (name : Text) : Option Value :=
  lastWritten (writes ops) i name

theorem lastWritten_concat (ws : List (FrameId × Text × Value)) (i j : FrameId) (name n : Text)
    (v : Value) :
    lastWritten (ws ++ [(i, name, v)]) j n =
      if j = i ∧ n = name then some v else lastWritten ws j n := by
  unfold lastWritten
  rw [List.filter_append]
  by_cases hw : j = i ∧ n = name
  · obtain ⟨rfl, rfl⟩ := hw
    simp
  · have hnot : ¬ (i = j ∧ name = n) := fun h => hw ⟨h.1.symm, h.2.symm⟩
    simp [hw, hnot]

/-- Every frame holds what was last written into it. -/
def HoldsLast (s : Store) (ws : List (FrameId × Text × Value)) : Prop :=
  ∀ i name, (s.frame i).get? name = lastWritten ws i name

section

variable {s : Store} {ws : List (FrameId × Text × Value)} (h : s.HoldsLast ws)
include h

/-- Into a frame that is not there nothing was written. -/
theorem HoldsLast.lastWritten_size (name : Text) : lastWritten ws s.frames.size name = none := by
  rw [← h, frame_of_le (Nat.le_refl _), Frame.get?_empty]

theorem HoldsLast.newEnv : s.newEnv.2.HoldsLast ws := by
  intro i name
  by_cases hi : i = s.frames.size
  · have hempty : s.newEnv.2.frame s.frames.size = .empty := by
      simp [frame, Store.newEnv]
    rw [hi, hempty, Frame.get?_empty, h.lastWritten_size]
  · rw [frame_newEnv_of_ne hi]
    exact h i name

theorem HoldsLast.push (e : EnvId) (name : Text) (v : Value) :
    (s.push e name v).HoldsLast (ws ++ [(s.frames.size, name, v)]) := by
  intro i n
  rw [lastWritten_concat]
  by_cases hi : i = s.frames.size
  · rw [hi, frame_push_self, Frame.get?_single, h.lastWritten_size]
    by_cases hn : n = name
    · rw [if_pos hn, if_pos ⟨rfl, hn⟩]
    · rw [if_neg hn, if_neg fun hand => hn hand.2]
  · rw [frame_push_of_ne hi, if_neg fun hand => hi hand.1]
    exact h i n

theorem HoldsLast.bind (hs : s.InBounds) {e : EnvId} {i : FrameId} {outer : List FrameId}
    (hc : s.chain e = i :: outer) {name : Text} {v : Value} {t : Store}
    (hb : s.bind e name v = some t) : t.HoldsLast (ws ++ [(i, name, v)]) := by
  intro j n
  rw [lastWritten_concat, get?_bind hs hb hc, h j n]

theorem HoldsLast.perform (hs : s.InBounds) (op : Op) :
    (s.perform op).2.HoldsLast (ws ++ (op.write? s).toList) := by
  cases op with
  | newEnv =>
    simp only [Op.write?, Option.toList_none, List.append_nil]
    exact h.newEnv
  | push e name v => exact h.push e name v
  | bind e name v =>
    show ((s.bind e name v).getD s).HoldsLast _
    cases hc : s.chain e with
    | nil =>
      rw [bind_eq_none_iff.mpr hc, Op.write?, hc]
      simp only [List.head?_nil, Option.map_none, Option.toList_none, List.append_nil]
      exact h
    | cons i outer =>
      have hb := bind_of_chain hc name v
      rw [Op.write?, hc, hb]
      exact h.bind hs hc hb
  | pop e =>
    simp only [Op.write?, Option.toList_none, List.append_nil]
    intro i name
    show ((s.popped e).frame i).get? name = lastWritten ws i name
    rw [frame_popped]
    exact h i name
  | snapshot e =>
    simp only [Op.write?, Option.toList_none, List.append_nil]
    exact h

theorem HoldsLast.performAll (hs : s.InBounds) (ops : List Op) :
    (ops.foldl (fun s op => (s.perform op).2) s).HoldsLast (ws ++ writesFrom s ops) := by
  -- What has been written so far grows with the store.
  induction ops generalizing s ws with
  | nil =>
    rw [writesFrom, List.append_nil]
    exact h
  | cons op ops ih =>
    rw [writesFrom, ← List.append_assoc]
    exact ih (h.perform hs op) (hs.perform op)

end

/-- However a store came about, a frame holds under each name the value bound last. -/
theorem built_holds_lastBound (ops : List Op) (i : FrameId) (name : Text) :
    ((built ops).frame i).get? name = lastBound ops i name := by
  have hstart : ({} : Store).HoldsLast [] := by
    intro i name
    rw [frame_of_le (Nat.zero_le i)]
    rfl
  exact hstart.performAll (built_inBounds []) ops i name

/-! ## The text of an environment -/

/-- The bindings as a frame shows them: every bound name once, in the order of bytes, with the value
bound last. -/
structure Shows (ops : List Op) (i : FrameId) (entries : List (Text × Value)) : Prop where
  increasing : entries.Pairwise fun a b => a.1 < b.1
  last : ∀ name v, (name, v) ∈ entries ↔ lastBound ops i name = some v

theorem shows_entries (ops : List Op) (i : FrameId) :
    Shows ops i ((built ops).frame i).entries where
  increasing := ((built ops).frame i).sorted
  last name v := by
    rw [Frame.mem_entries_iff, built_holds_lastBound]

theorem envText_eq (s : Store) (e : EnvId) :
    s.envText e = "[" ++ Text.join ", " ((s.chain e).reverse.map fun i => (s.frame i).text) ++
      "]" := by
  rw [envText, envFrames, List.map_map]
  rfl

theorem envText_congr {s s' : Store} {e e' : EnvId}
    (h : List.Forall₂ (fun i i' => (s.frame i).text = (s'.frame i').text) (s.chain e)
      (s'.chain e')) : s.envText e = s'.envText e' := by
  have hmap : (s.chain e).map (fun i => (s.frame i).text) =
      (s'.chain e').map fun i => (s'.frame i).text := by
    rw [← List.forall₂_eq_eq_eq, List.forall₂_map_left_iff, List.forall₂_map_right_iff]
    exact h
  rw [envText_eq, envText_eq, List.map_reverse, List.map_reverse, hmap]

theorem envText_of_lastBound {ops ops' : List Op} {e e' : EnvId}
    (h : List.Forall₂ (fun i i' => ∀ name,
        Option.Rel Value.LooksLike (lastBound ops i name) (lastBound ops' i' name))
      ((built ops).chain e) ((built ops').chain e')) :
    (built ops).envText e = (built ops').envText e' := by
  apply envText_congr
  apply h.imp
  intro i i' hi
  apply Frame.text_congr
  intro name
  rw [built_holds_lastBound, built_holds_lastBound]
  exact hi name

/-- Bindings one after another, each in an environment. -/
def bindings (bs : List (EnvId × Text × Value)) : List Op := bs.map fun b => .bind b.1 b.2.1 b.2.2

theorem chain_perform_bind (s : Store) (e d : EnvId) (name : Text) (v : Value) :
    (s.perform (.bind e name v)).2.chain d = s.chain d := by
  show ((s.bind e name v).getD s).chain d = s.chain d
  cases hb : s.bind e name v with
  | none => rfl
  | some t => exact chain_bind hb d

theorem chain_bindings (bs : List (EnvId × Text × Value)) (s : Store) (e : EnvId) :
    ((bindings bs).foldl (fun s op => (s.perform op).2) s).chain e = s.chain e := by
  induction bs generalizing s with
  | nil => rfl
  | cons b bs ih => exact (ih _).trans (chain_perform_bind s b.1 e b.2.1 b.2.2)

theorem chain_built_bindings (ops : List Op) (bs : List (EnvId × Text × Value)) (e : EnvId) :
    (built (ops ++ bindings bs)).chain e = (built ops).chain e := by
  unfold built
  rw [List.foldl_append]
  exact chain_bindings bs _ e

/-- Whatever operations an environment came about by, its text shows its frames, outermost first,
and in each of them every bound name once, in the order of bytes, with the value bound last.  So two
environments have the same text if they have as many frames and the values bound last in each look
alike; and so have one environment after one sequence of bindings and after another, if both leave
the same values bound in its frames.  A function is shown by its name and its parameter. -/
theorem rendering_canonical (ops : List Op) :
    (∀ e, ∃ shown, List.Forall₂ (Shows ops) ((built ops).chain e).reverse shown ∧
      (built ops).envText e = "[" ++ Text.join ", " (shown.map bindingsText) ++ "]") ∧
    (∀ ops' e e', List.Forall₂ (fun i i' => ∀ name,
          Option.Rel Value.LooksLike (lastBound ops i name) (lastBound ops' i' name))
        ((built ops).chain e) ((built ops').chain e') →
      (built ops).envText e = (built ops').envText e') ∧
    (∀ e bs bs', (∀ i ∈ (built ops).chain e, ∀ name,
        lastBound (ops ++ bindings bs) i name = lastBound (ops ++ bindings bs') i name) →
      (built (ops ++ bindings bs)).envText e =
        (built (ops ++ bindings bs')).envText e) ∧
    ∀ f : Closure, (Value.function f).text =
      "Function(" ++ f.decl.name ++ "(" ++ f.decl.parameter ++ "))" := by
  refine ⟨fun e => ?_, fun ops' e e' h => envText_of_lastBound h, fun e bs bs' h => ?_,
    fun f => rfl⟩
  · refine ⟨((built ops).chain e).reverse.map fun i => ((built ops).frame i).entries, ?_, ?_⟩
    · rw [List.forall₂_map_right_iff, List.forall₂_same]
      exact fun i _ => shows_entries ops i
    · rw [envText_eq, List.map_map]
      rfl
  · apply envText_of_lastBound
    rw [chain_built_bindings, chain_built_bindings, List.forall₂_same]
    intro i hi name
    rw [h i hi name]
    cases lastBound (ops ++ bindings bs') i name with
    | none => exact .none
    | some v => exact .some (.refl v)

namespace SelfBound

/-- A function of environment 1, which is a snapshot of environment 0 and has the same frame. -/
def f : Value :=
  .function
    { decl := { name := "f", parameter := "x", body := [], ret := .name "x", pos := 0 }
      capture := .env 1 }

def ops : List Op := [.newEnv, .snapshot 0]

/-- The function is bound in a frame that it captured. -/
def first : List (EnvId × Text × Value) := [(0, "g", .absent), (0, "f", f), (1, "g", f)]

def second : List (EnvId × Text × Value) := [(0, "f", .absent), (1, "g", f), (0, "f", f)]

theorem lastBound_eq (name : Text) :
    lastBound (ops ++ bindings first) 0 name =
      lastBound (ops ++ bindings second) 0 name := by
  have hfirst : writes (ops ++ bindings first) =
      [] ++ [(0, ("g" : Text), .absent)] ++ [(0, ("f" : Text), f)] ++ [(0, ("g" : Text), f)] := rfl
  have hsecond : writes (ops ++ bindings second) =
      [] ++ [(0, ("f" : Text), .absent)] ++ [(0, ("g" : Text), f)] ++ [(0, ("f" : Text), f)] := rfl
  unfold lastBound
  rw [hfirst, hsecond]
  simp only [lastWritten_concat, true_and]
  by_cases hf : name = "f"
  · simp [hf]
  · by_cases hg : name = "g"
    · simp [hg]
    · simp [hf, hg]

end SelfBound

/-- Both sequences leave the same text, although one of them binds `g` twice and the other `f`. -/
theorem selfBound_canonical :
    (built (SelfBound.ops ++ bindings SelfBound.first)).envText 0 =
      (built (SelfBound.ops ++ bindings SelfBound.second)).envText 0 ∧
    (built (SelfBound.ops ++ bindings SelfBound.second)).envText 0 =
      "[\x7bf: Function(f(x)), g: Function(f(x))\x7d]" := by
  obtain ⟨-, -, hbindings, -⟩ := rendering_canonical SelfBound.ops
  constructor
  · apply hbindings
    intro i hi name
    have hi : i = 0 := List.mem_singleton.mp hi
    rw [hi]
    exact SelfBound.lastBound_eq name
  · decide +kernel

end Store

end Stepwise
