/-
Numbers never steer an evaluation.

Nothing that an evaluation does depends on which numbers its names are bound to: a number cannot be
called, two numbers have a sum, which is a number again, and no message shows a number.  So two
programs that differ only in their numerals, all of which can be read, show the same events and end
in the same way.

The stores of the two evaluations have the same frames and the same environments, with names bound
to numbers in the one where they are bound to numbers in the other.  That this is a likeness is shown
operation by operation; of the sum of two numbers only its being a number is used.
-/
import Stepwise.Proofs.Likeness
import Stepwise.Proofs.StoreRelation

namespace Stepwise

open Observer (Sighting)

variable {σ σ' ε : Type}

/-! ## Alike but for numbers -/

/-- Two lexemes that can both be read. -/
def Numerals (l l' : Text) : Prop :=
  (∃ x, Numeral.read l = .ok x) ∧ ∃ x, Numeral.read l' = .ok x

/-- Any two numbers, or the same function but for its numerals, or twice no value. -/
inductive Value.Alike : Value → Value → Prop where
  | number (x y : Float) : Alike (.number x) (.number y)
  | function {f f' : Closure} (hcapture : f.capture = f'.capture)
      (hdecl : f.decl.Like Numerals f'.decl) : Alike (.function f) (.function f')
  | absent : Alike .absent .absent

structure Store.Alike (s s' : Store) : Prop where
  frames : s.frames.size = s'.frames.size
  chains : s.chains = s'.chains
  binding : ∀ i name, Option.Rel Value.Alike ((s.frame i).get? name) ((s'.frame i).get? name)

structure Memory.Alike (m m' : Memory) : Prop where
  store : m.store.Alike m'.store
  log : m.log = m'.log

structure Diagnosis.Alike (d d' : Diagnosis) : Prop where
  kind : d.kind = d'.kind
  names : d.names = d'.names
  pos : d.pos = d'.pos
  message : d.message = d'.message

theorem Diagnosis.Alike.refl (d : Diagnosis) : d.Alike d := ⟨rfl, rfl, rfl, rfl⟩

/-! ## Values -/

/-- A function is shown by its name and its parameter, in which there is no numeral. -/
theorem Closure.text_eq {f f' : Closure} (h : f.decl.Like Numerals f'.decl) : f.text = f'.text := by
  rw [Closure.text, Closure.text, h.name, h.parameter]

theorem Value.Alike.add {x x' y y' : Value} (hx : x.Alike x') (hy : y.Alike y') :
    EndsLike (fun why why' => why.message = why'.message) Value.Alike (x.add y) (x'.add y') := by
  cases hx with
  | number a b =>
    cases hy with
    | number c d => exact .ok (.number (a + c) (b + d))
    | function _ hdecl =>
      refine .error ?_
      show _ ++ Closure.text _ = _ ++ Closure.text _
      rw [Closure.text_eq hdecl]
    | absent => exact .error rfl
  | function _ hdecl =>
    refine .error ?_
    show _ ++ Closure.text _ = _ ++ Closure.text _
    rw [Closure.text_eq hdecl]
  | absent => cases hy <;> exact .error rfl

/-! ## Stores -/

namespace Store.Alike

variable {s s' : Store} {v v' : Value}

theorem chain (h : s.Alike s') (e : EnvId) : s.chain e = s'.chain e := by
  rw [Store.chain, Store.chain, h.chains]

theorem lookup (h : s.Alike s') (e : EnvId) (name : Text) :
    Option.Rel Value.Alike (s.lookup e name) (s'.lookup e name) := by
  rw [Store.lookup, Store.lookup, h.chain]
  exact rel_findSome? (fun i => h.binding i name) (s'.chain e)

theorem bind (h : s.Alike s') (hv : v.Alike v') (e : EnvId) (name : Text) :
    Option.Rel Store.Alike (s.bind e name v) (s'.bind e name v') := by
  have hchain := h.chain e
  cases hc : s.chain e with
  | nil =>
    simp only [Store.bind, ← hchain, hc]
    exact .none
  | cons i rest =>
    have hc' : s'.chain e = i :: rest := hchain.symm.trans hc
    have hb := Store.bind_of_chain hc name v
    have hb' := Store.bind_of_chain hc' name v'
    rw [hb, hb']
    refine .some ⟨?_, h.chains, fun j n => ?_⟩
    · rw [Array.size_setIfInBounds, Array.size_setIfInBounds, h.frames]
    · by_cases hj : j = i
      · subst hj
        by_cases hsize : j < s.frames.size
        · rw [Store.frame_bind_self hb hc hsize, Store.frame_bind_self hb' hc' (h.frames ▸ hsize),
            Frame.get?_set, Frame.get?_set]
          split
          · exact .some hv
          · exact h.binding j n
        · -- A number that names no frame names none after the binding either.
          have hle : s.frames.size ≤ j := Nat.le_of_not_lt hsize
          rw [Store.frame_of_le (Store.size_frames_bind hb ▸ hle),
            Store.frame_of_le (Store.size_frames_bind hb' ▸ h.frames ▸ hle), Frame.get?_empty]
          exact .none
      · rw [Store.frame_bind_of_ne hb hc hj, Store.frame_bind_of_ne hb' hc' hj]
        exact h.binding j n

theorem push (h : s.Alike s') (hv : v.Alike v') (e : EnvId) (name : Text) :
    (s.push e name v).Alike (s'.push e name v') := by
  refine ⟨?_, ?_, fun i n => ?_⟩
  · rw [Store.size_frames_push, Store.size_frames_push, h.frames]
  · rw [Store.push, Store.push, h.chain, h.frames, h.chains]
  · by_cases hi : i = s.frames.size
    · subst hi
      rw [Store.frame_push_self, h.frames, Store.frame_push_self, Frame.get?_single,
        Frame.get?_single]
      split
      · exact .some hv
      · exact .none
    · rw [Store.frame_push_of_ne hi, Store.frame_push_of_ne (h.frames ▸ hi)]
      exact h.binding i n

theorem pop (h : s.Alike s') (e : EnvId) : Option.Rel Store.Alike (s.pop e) (s'.pop e) := by
  rw [Store.pop, Store.pop, h.chain, h.chains]
  cases s'.chain e with
  | nil => exact .none
  | cons i rest => exact .some ⟨h.frames, rfl, h.binding⟩

theorem snapshot (h : s.Alike s') (e : EnvId) : (s.snapshot e).2.Alike (s'.snapshot e).2 := by
  refine ⟨h.frames, ?_, h.binding⟩
  rw [Store.snapshot, Store.snapshot, h.chain, h.chains]

theorem depth (h : s.Alike s') (e : EnvId) : s.depth e = s'.depth e := by
  rw [Store.depth, Store.depth, h.chain]

end Store.Alike

/-! ## The leaves of an evaluation -/

theorem literalValue_alike {l l' : Text} (h : Numerals l l') (name : Text) (pos : Position) :
    EndsLike Diagnosis.Alike Value.Alike (literalValue name pos l) (literalValue name pos l') := by
  obtain ⟨⟨x, hx⟩, y, hy⟩ := h
  rw [literalValue, literalValue, hx, hy]
  exact .ok (.number x y)

section Leaves

variable {s s' : Store} (h : s.Alike s') (e : EnvId)
include h

theorem resolveCall_alike (callee argument : Text) (pos : Position) :
    EndsLike Diagnosis.Alike
      (fun a a' => Value.Alike (.function a.1) (.function a'.1) ∧ Value.Alike a.2 a'.2)
      (resolveCall s e callee argument pos) (resolveCall s' e callee argument pos) := by
  have hcallee := h.lookup e callee
  have hargument := h.lookup e argument
  unfold resolveCall
  generalize s.lookup e callee = f at *
  generalize s'.lookup e callee = f' at *
  generalize s.lookup e argument = v at *
  generalize s'.lookup e argument = v' at *
  cases hcallee with
  | none => exact .error (.refl _)
  | some hf =>
    cases hf with
    | number x y => exact .error (.refl _)
    | absent => exact .error (.refl _)
    | function hcapture hdecl =>
      cases hargument with
      | none => exact .error (.refl _)
      | some hv => exact .ok ⟨.function hcapture hdecl, hv⟩

theorem sumOf_alike (left right : Text) (pos : Position) :
    EndsLike Diagnosis.Alike Value.Alike (sumOf s e left right pos)
      (sumOf s' e left right pos) := by
  have hleft := h.lookup e left
  have hright := h.lookup e right
  unfold sumOf
  generalize s.lookup e left = x at *
  generalize s'.lookup e left = x' at *
  generalize s.lookup e right = y at *
  generalize s'.lookup e right = y' at *
  cases hleft with
  | none => cases hright <;> exact .error (.refl _)
  | @some x x' hx =>
    cases hright with
    | none => exact .error (.refl _)
    | @some y y' hy =>
      have hsum := hx.add hy
      simp only
      generalize x.add y = sum at *
      generalize x'.add y' = sum' at *
      cases hsum with
      | ok hv => exact .ok hv
      | error hwhy =>
        refine .error ⟨rfl, rfl, rfl, ?_⟩
        simp only [Diagnosis.message, Option.map_some, Diagnosis.Cause.message, hwhy]

theorem returnValue_alike {decl decl' : FunctionDecl} (hdecl : decl.Like Numerals decl') :
    EndsLike (Stop.Like Diagnosis.Alike) Value.Alike (returnValue (ε := ε) s e decl)
      (returnValue (ε := ε) s' e decl') := by
  unfold returnValue
  rw [hdecl.ret, hdecl.pos]
  cases decl'.ret with
  | name x =>
    have hx := h.lookup e x
    simp only
    generalize s.lookup e x = v at *
    generalize s'.lookup e x = v' at *
    cases hx with
    | none => exact .error (.diagnosed (.refl _))
    | some hv => exact .ok hv
  | sum left right =>
    have hsum := sumOf_alike h e left right decl'.pos
    simp only
    generalize sumOf s e left right decl'.pos = sum at *
    generalize sumOf s' e left right decl'.pos = sum' at *
    cases hsum with
    | ok hv => exact .ok hv
    | error hd => exact .error (.diagnosed hd)
  | hole => exact .error (.missing .returnExpr)

end Leaves

/-! ## Memories -/

namespace Memory.Alike

variable {m m' : Memory} (h : m.Alike m') {v v' : Value} (hv : v.Alike v') (e : EnvId)
include h

include hv in
theorem bind (name : Text) : Option.Rel Memory.Alike (m.bind e name v) (m'.bind e name v') := by
  have hbind := h.store.bind hv e name
  unfold Memory.bind
  generalize m.store.bind e name v = t at *
  generalize m'.store.bind e name v' = t' at *
  cases hbind with
  | none => exact .none
  | some ht => exact .some ⟨ht, h.log⟩

theorem declare {decl decl' : FunctionDecl} (hdecl : decl.Like Numerals decl') :
    Option.Rel (fun a a' => Value.Alike a.1 a'.1 ∧ Memory.Alike a.2 a'.2) (m.declare e decl)
      (m'.declare e decl') := by
  have hf : Value.Alike (.function { decl, capture := .env m.store.chains.size })
      (.function { decl := decl', capture := .env m'.store.chains.size }) :=
    .function (by rw [h.store.chains]) hdecl
  have hbind := h.store.bind hf e decl.name
  unfold Memory.declare
  simp only [← hdecl.name]
  generalize m.store.bind e decl.name _ = t at *
  generalize m'.store.bind e decl.name _ = t' at *
  cases hbind with
  | none => exact .none
  | some ht => exact .some ⟨hf, ht.snapshot e, h.log⟩

include hv in
theorem beginCall {f f' : Closure} (hdecl : f.decl.Like Numerals f'.decl) (argument : Text) :
    (m.beginCall f e argument v).Alike (m'.beginCall f' e argument v') := by
  have hpush := h.store.push hv e f.decl.parameter
  simp only [Memory.beginCall, ← hdecl.name, ← hdecl.parameter]
  refine ⟨hpush, ?_⟩
  simp only [Memory.note, h.log, hpush.depth e]

theorem endCall (name : Text) : (m.endCall name e).Alike (m'.endCall name e) := by
  have hpop := h.store.pop e
  unfold Memory.endCall
  generalize m.store.pop e = t at *
  generalize m'.store.pop e = t' at *
  cases hpop with
  | none =>
    refine ⟨h.store, ?_⟩
    simp only [Memory.note, h.log]
  | some ht => exact ⟨ht, h.log⟩

end Memory.Alike

theorem Memory.Alike.fresh : Memory.fresh.Alike .fresh := by
  refine ⟨⟨rfl, rfl, fun i name => ?_⟩, rfl⟩
  rw [Memory.frame_fresh, Frame.get?_empty]
  exact .none

/-- The likeness of evaluations that differ in numbers. -/
def Likeness.butNumbers : Likeness where
  lexeme := Numerals
  value := Value.Alike
  diagnosis := Diagnosis.Alike
  memory := Memory.Alike
  function h := by
    cases h with
    | function hcapture hdecl => exact ⟨hcapture, hdecl⟩
  emptyProgram pos := .refl _
  literalValue := literalValue_alike
  resolveCall h := resolveCall_alike h.store
  returnValue h hdecl e := returnValue_alike h.store e hdecl
  bind h hv := h.bind hv
  declare h hdecl e := h.declare e hdecl
  beginCall h hdecl hv e := h.beginCall hv e hdecl
  endCall h name e := h.endCall e name

/-! ## Whole evaluations -/

/-- Both have a number, or a function of the same declaration but for its numerals; or both fail, for
the limit on calls or with diagnoses that read the same. -/
inductive EndsAlike : Except (Stop ε) Value → Except (Stop ε) Value → Prop where
  | number (x y : Float) : EndsAlike (.ok (.number x)) (.ok (.number y))
  | function {f f' : Closure} (hcapture : f.capture = f'.capture)
      (hdecl : f.decl.Like Numerals f'.decl) :
      EndsAlike (.ok (.function f)) (.ok (.function f'))
  | diagnosed {d d' : Diagnosis} (h : d.Alike d') :
      EndsAlike (.error (.diagnosed d)) (.error (.diagnosed d'))
  | tooDeep : EndsAlike (.error .tooDeep) (.error .tooDeep)

/-- What is seen of an event without a look at any value. -/
def Observer.Sighting.outline (s : Sighting) : Event × Nat := (s.event, s.depth)

theorem Likeness.outline_of_sighting {s s' : Sighting} (h : Likeness.butNumbers.sighting s s') :
    s.outline = s'.outline := by
  obtain ⟨hevent, m, m', hm, hs, hs'⟩ := h
  have hdepth : m.store.depth s.event.env = m'.store.depth s.event.env :=
    hm.store.depth s.event.env
  rw [hs, hs', hevent] at hdepth
  rw [Observer.Sighting.outline, Observer.Sighting.outline, Observer.Sighting.depth,
    Observer.Sighting.depth, hevent, hdepth]

theorem Likeness.outline_of_sightings {w w' : List Sighting}
    (h : List.Forall₂ Likeness.butNumbers.sighting w w') :
    w.map Observer.Sighting.outline = w'.map Observer.Sighting.outline := by
  induction h with
  | nil => rfl
  | cons hs _ ih => rw [List.map_cons, List.map_cons, outline_of_sighting hs, ih]

/-- Of the endings that are alike, a complete program has only those above. -/
theorem Direct.Safe.endsAlike {obs : Observer σ ε} (hobs : obs.LooksOn)
    {result : Except (Stop ε) Value × Run σ} (hsafe : Direct.Safe obs Value.Proper result)
    {outcome : Except (Stop ε) Value}
    (h : EndsLike (Stop.Like Diagnosis.Alike) Value.Alike result.1 outcome) :
    EndsAlike result.1 outcome := by
  obtain ⟨-, hstop, hvalue⟩ := hsafe
  generalize result.1 = first at *
  cases h with
  | ok hv =>
    cases hv with
    | number x y => exact .number x y
    | function hcapture hdecl => exact .function hcapture hdecl
    | absent => exact (hvalue _ rfl).elim
  | error hwhy =>
    have hregular := (hstop _ rfl).regular hobs.unstopping
    cases hwhy with
    | diagnosed hd => exact .diagnosed hd
    | tooDeep => exact .tooDeep
    | _ => exact hregular.elim

/-- Two programs that are the same but for their numerals, which can all be read, show the same
events, in the same environments and at the same depths, and end alike.  This holds for each limit
on the calls, and so of evaluations without an end too. -/
theorem numbers_never_steer {p p' : Program} (hlike : p.Like Numerals p')
    (hcomplete : p.isComplete = true) {obs : Observer σ ε} {obs' : Observer σ' ε}
    (hobs : obs.LooksOn) (hobs' : obs'.LooksOn) (limit : Nat) (seen : σ) (seen' : σ') :
    (p.sightings obs limit .fresh seen).map Observer.Sighting.outline =
        (p'.sightings obs' limit .fresh seen').map Observer.Sighting.outline ∧
      EndsAlike (p.evaluate obs.witnessed limit .fresh (seen, [])).1
        (p'.evaluate obs'.witnessed limit .fresh (seen', [])).1 := by
  have hsafe : Direct.Safe obs.witnessed Value.Proper
      (p.evaluate obs.witnessed limit .fresh (seen, [])) :=
    Direct.program_safe hobs.witnessed.passive Memory.sound_fresh .fresh rfl limit hcomplete
  obtain ⟨-, ⟨w, w', hw, hw', hevents⟩, hends⟩ :=
    Direct.program_tandem (L := .butNumbers) hobs hobs' limit Memory.globalEnv hlike
      ⟨.fresh, seen, []⟩ ⟨.fresh, seen', []⟩ Memory.Alike.fresh
  have hfirst : p.sightings obs limit .fresh seen = w := hw
  have hsecond : p'.sightings obs' limit .fresh seen' = w' := hw'
  rw [hfirst, hsecond]
  exact ⟨Likeness.outline_of_sightings hevents, hsafe.endsAlike hobs.witnessed hends⟩

/-- A function that adds a number of its own to another. -/
def added (own other : Text) : Program :=
  { statements := [
      .function "add" "x" [.define "m" (.literal own) 1] (.sum "m" "x") 0,
      .define "a" (.literal other) 2,
      .define "b" (.call "add" "a") 3] }

/-- Adding 1 and 2 cannot be told from adding an infinity to a fraction. -/
theorem added_numbers_never_steer :
    ((added "1" "2").sightings (Observer.silent (ε := Empty)) 1 .fresh ()).map
        Observer.Sighting.outline =
      ((added "-inf" "0x1p-4").sightings (Observer.silent (ε := Empty)) 1 .fresh ()).map
        Observer.Sighting.outline ∧
    EndsAlike
      ((added "1" "2").evaluate (Observer.silent (ε := Empty)).witnessed 1 .fresh ((), [])).1
      ((added "-inf" "0x1p-4").evaluate (Observer.silent (ε := Empty)).witnessed 1 .fresh
        ((), [])).1 := by
  have hown : Numerals "1" "-inf" := ⟨⟨_, rfl⟩, _, rfl⟩
  have hother : Numerals "2" "0x1p-4" := ⟨⟨_, rfl⟩, _, rfl⟩
  have hlike : (added "1" "2").Like Numerals (added "-inf" "0x1p-4") :=
    ⟨.cons (.function (.cons (.define (.literal hown)) .nil))
      (.cons (.define (.literal hother)) (.cons (.define (.call "add" "a")) .nil)), rfl⟩
  have hsilent : (Observer.silent (ε := Empty)).LooksOn := ⟨fun _ _ _ => rfl, fun _ _ _ => rfl⟩
  exact numbers_never_steer hlike (by decide) hsilent hsilent 1 () ()

end Stepwise
