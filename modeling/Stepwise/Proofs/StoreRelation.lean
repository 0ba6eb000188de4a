/-
The stores of an evaluation and of the reference evaluation.

The two evaluations make the same frames and the same functions in the same order, so frames
correspond by number, and a function corresponds to the closure whose number is that of the
function's environment.  `Related` says how the stores correspond while calls are running:
`active` gives the frames of the environments that are in use, and every other environment has
the frames that were captured.  Binding, declaring, and entering and leaving a call that was not
running already keep the stores related, and what is asked of related stores has the same answer.
-/
import Stepwise.Proofs.Environments
import Stepwise.Proofs.Lexical

namespace Stepwise

variable {ε α β : Type}

/-! ## Values and outcomes -/

/-- The same number, or a function and its closure, where `captured` gives the frames that each
environment had when it was made. -/
def Matches (captured : List (List FrameId)) : Value → Lexical.Value → Prop
  | .number x, .number y => x = y
  | .function f, .function g =>
    f.decl = g.decl ∧ f.capture = .env g.id ∧ 0 < g.id ∧ captured[g.id]? = some g.captured
  | _, _ => False

theorem Matches.append {captured : List (List FrameId)} {v : Value} {w : Lexical.Value}
    (h : Matches captured v w) (more : List (List FrameId)) : Matches (captured ++ more) v w := by
  cases v with
  | number x => cases w <;> exact h
  | absent => cases w <;> exact h
  | function f =>
    cases w with
    | number y => exact h
    | function g =>
      obtain ⟨hdecl, hcapture, hpos, hcaptured⟩ := h
      refine ⟨hdecl, hcapture, hpos, ?_⟩
      obtain ⟨hlt, -⟩ := List.getElem?_eq_some_iff.mp hcaptured
      rw [List.getElem?_append_left hlt]
      exact hcaptured

/-- The failure of the reference evaluation that a stop corresponds to. -/
def Stop.failure? : Stop ε → Option Lexical.Failure
  | diagnosed d => some (.diagnosed d.kind d.names d.pos)
  | missing hole => some (.missing hole)
  | tooDeep => some .tooDeep
  | _ => none

/-- Both have a value, and the values go together, or both fail in the same way. -/
def SameOutcome (good : α → β → Prop) : Except (Stop ε) α → Except Lexical.Failure β → Prop
  | .ok a, .ok b => good a b
  | .error why, .error failure => why.failure? = some failure
  | _, _ => False

/-! ## Stores -/

theorem rel_findSome? {R : α → β → Prop} {f : FrameId → Option α} {g : FrameId → Option β}
    (h : ∀ i, Option.Rel R (f i) (g i)) (chain : List FrameId) :
    Option.Rel R (chain.findSome? f) (chain.findSome? g) := by
  induction chain with
  | nil => exact .none
  | cons i chain ih =>
    rw [List.findSome?_cons, List.findSome?_cons]
    have hi := h i
    generalize f i = x at *
    generalize g i = y at *
    cases hi with
    | none => exact ih
    | some hab => exact .some hab

/-- The stores of the two evaluations. -/
structure Related (active : EnvId → Option (List FrameId)) (captured : List (List FrameId))
    (s : Store) (t : Lexical.State) : Prop where
  frames : t.frames.size = s.frames.size
  made : t.made + 1 = s.chains.size
  captures : captured.length = s.chains.size
  active_lt : ∀ e chain, active e = some chain → e < s.chains.size
  chain : ∀ e, e < s.chains.size → s.chain e = (active e).getD (captured.getD e [])
  frame : ∀ i name, Option.Rel (Matches captured) ((s.frame i).get? name) ((t.frame i).lookup name)

namespace Related

variable {active : EnvId → Option (List FrameId)} {captured : List (List FrameId)} {s : Store}
  {t : Lexical.State} {e : EnvId} {env : Lexical.Env} {name : Text} {v : Value} {w : Lexical.Value}

theorem chain_of_active (h : Related active captured s t) (he : active e = some env.chain) :
    s.chain e = env.chain := by
  rw [h.chain e (h.active_lt e _ he), he]
  rfl

theorem lookup (h : Related active captured s t) (he : active e = some env.chain) (name : Text) :
    Option.Rel (Matches captured) (s.lookup e name) (t.lookup env name) := by
  rw [Store.lookup, h.chain_of_active he]
  exact rel_findSome? (fun i => h.frame i name) env.chain

theorem announced (h : Related active captured s t)
    (events : List (EventKind × Option Position)) : Related active captured s { t with events } :=
  ⟨h.frames, h.made, h.captures, h.active_lt, h.chain, h.frame⟩

/-- The frames after a binding, with the values seen in a later store. -/
theorem frame_bind {s' : Store} {more : List (List FrameId)} (h : Related active captured s t)
    (he : active e = some env.chain) (hb : s.bind e name v = some s')
    (hv : Matches (captured ++ more) v w) (i : FrameId) (n : Text) :
    Option.Rel (Matches (captured ++ more)) ((s'.frame i).get? n)
      (((t.bind env name w).frame i).lookup n) := by
  have hold : Option.Rel (Matches (captured ++ more)) ((s.frame i).get? n)
      ((t.frame i).lookup n) := by
    have hi := h.frame i n
    generalize (s.frame i).get? n = x at *
    generalize (t.frame i).lookup n = y at *
    cases hi with
    | none => exact .none
    | some hm => exact .some (hm.append more)
  have hc : s.chain e = env.own :: env.outer := h.chain_of_active he
  by_cases hi : i = env.own
  · subst hi
    by_cases hlt : env.own < s.frames.size
    · rw [Store.frame_bind_self hb hc hlt, Frame.get?_set,
        Lexical.State.frame_bind_self (h.frames ▸ hlt), List.lookup_cons]
      by_cases hn : n = name
      · rw [if_pos hn, beq_iff_eq.mpr hn]
        exact .some hv
      · rw [if_neg hn, beq_eq_false_iff_ne.mpr hn]
        exact hold
    · have hle : s.frames.size ≤ env.own := Nat.le_of_not_lt hlt
      rw [Store.frame_of_le (Store.size_frames_bind hb ▸ hle),
        Lexical.State.frame_of_le (by rw [Lexical.State.size_frames_bind, h.frames]; exact hle)]
      exact .none
  · rw [Store.frame_bind_of_ne hb hc hi, Lexical.State.frame_bind_of_ne hi]
    exact hold

theorem bind {s' : Store} (h : Related active captured s t) (he : active e = some env.chain)
    (hb : s.bind e name v = some s') (hv : Matches captured v w) :
    Related active captured s' (t.bind env name w) where
  frames := by
    rw [Lexical.State.size_frames_bind, Store.size_frames_bind hb]
    exact h.frames
  made := h.made.trans (Store.size_chains_bind hb).symm
  captures := h.captures.trans (Store.size_chains_bind hb).symm
  active_lt d chain hd := by
    rw [Store.size_chains_bind hb]
    exact h.active_lt d chain hd
  chain d hd := by
    rw [Store.chain_bind hb]
    exact h.chain d (Store.size_chains_bind hb ▸ hd)
  frame i n := by
    have hv' : Matches (captured ++ []) v w := hv.append []
    have := h.frame_bind he hb hv' i n
    rwa [List.append_nil] at this

/-- The function that a declaration makes and its closure. -/
theorem matches_declared {m : Memory} (h : Related active captured m.store t)
    (env : Lexical.Env) (decl : FunctionDecl) :
    Matches (captured ++ [env.chain]) (m.declared decl)
      (.function { id := t.made + 1, decl, captured := env.chain }) := by
  refine ⟨rfl, ?_, Nat.succ_pos _, ?_⟩
  · show Capture.env m.store.chains.size = .env (t.made + 1)
    rw [h.made]
  · show (captured ++ [env.chain])[t.made + 1]? = some env.chain
    rw [h.made, ← h.captures]
    simp

theorem declare {m : Memory} {s' : Store} {decl : FunctionDecl}
    (h : Related active captured m.store t) (he : active e = some env.chain)
    (hb : m.store.bind e decl.name (m.declared decl) = some s') :
    Related active (captured ++ [env.chain]) (s'.snapshot e).2
      { t.bind env decl.name (.function { id := t.made + 1, decl, captured := env.chain }) with
        made := t.made + 1 } where
  frames := by
    show (t.bind env decl.name _).frames.size = _
    rw [Lexical.State.size_frames_bind, Store.size_frames_snapshot, Store.size_frames_bind hb]
    exact h.frames
  made := by
    rw [Store.size_chains_snapshot, Store.size_chains_bind hb, ← h.made]
  captures := by
    rw [List.length_append, Store.size_chains_snapshot, Store.size_chains_bind hb, h.captures]
    rfl
  active_lt d chain hd := by
    rw [Store.size_chains_snapshot, Store.size_chains_bind hb]
    exact Nat.lt_succ_of_lt (h.active_lt d chain hd)
  chain d hd := by
    -- The environment is new, so it is not in use.
    have hnew : active m.store.chains.size = none := by
      cases hactive : active m.store.chains.size with
      | none => rfl
      | some chain => exact absurd (h.active_lt _ chain hactive) (Nat.lt_irrefl _)
    rw [← h.chain_of_active he]
    refine Memory.chain_declare hb h.captures (fun d chain => (active d).getD chain) h.chain ?_ hd
    rw [hnew]
    rfl
  frame i n := h.frame_bind he hb (h.matches_declared env decl) i n

end Related

/-- One more environment in use. -/
def inUse (active : EnvId → Option (List FrameId)) (e : EnvId) (chain : List FrameId) :
    EnvId → Option (List FrameId) :=
  fun d => if d = e then some chain else active d

namespace Related

variable {active : EnvId → Option (List FrameId)} {captured : List (List FrameId)} {s : Store}
  {t : Lexical.State} {e : EnvId} {chain : List FrameId}

theorem push {name : Text} {v : Value} {w : Lexical.Value} (h : Related active captured s t)
    (hidle : active e = none) (hcaptured : captured[e]? = some chain) (hv : Matches captured v w) :
    Related (inUse active e (s.frames.size :: chain)) captured (s.push e name v)
      (t.push name w) := by
  obtain ⟨hlt, -⟩ := List.getElem?_eq_some_iff.mp hcaptured
  have he : e < s.chains.size := h.captures ▸ hlt
  have hchain : s.chain e = chain := by
    rw [h.chain e he, hidle, List.getD_eq_getElem?_getD, hcaptured]
    rfl
  refine ⟨?_, ?_, ?_, fun d ch hd => ?_, fun d hd => ?_, fun i n => ?_⟩
  · rw [Lexical.State.size_frames_push, Store.size_frames_push, h.frames]
  · rw [Store.size_chains_push]
    exact h.made
  · rw [Store.size_chains_push]
    exact h.captures
  · rw [Store.size_chains_push]
    by_cases hde : d = e
    · exact hde ▸ he
    · rw [inUse, if_neg hde] at hd
      exact h.active_lt d ch hd
  · rw [Store.size_chains_push] at hd
    by_cases hde : d = e
    · subst hde
      rw [Store.chain_push_self hd, inUse, if_pos rfl, hchain]
      rfl
    · rw [Store.chain_push_of_ne hde, inUse, if_neg hde]
      exact h.chain d hd
  · by_cases hi : i = s.frames.size
    · rw [hi, Store.frame_push_self, Frame.get?_single, ← h.frames, Lexical.State.frame_push_self,
        List.lookup_cons]
      by_cases hn : n = name
      · rw [if_pos hn, beq_iff_eq.mpr hn]
        exact .some hv
      · rw [if_neg hn, beq_eq_false_iff_ne.mpr hn]
        exact .none
    · rw [Store.frame_push_of_ne hi, Lexical.State.frame_push_of_ne (h.frames.symm ▸ hi)]
      exact h.frame i n

theorem popped {i : FrameId} (h : Related (inUse active e (i :: chain)) captured s t)
    (hidle : active e = none) (hcaptured : captured[e]? = some chain) :
    Related active captured (s.popped e) t := by
  refine ⟨?_, ?_, ?_, fun d ch hd => ?_, fun d hd => ?_, fun j n => ?_⟩
  · rw [Store.size_frames_popped]
    exact h.frames
  · rw [Store.size_chains_popped]
    exact h.made
  · rw [Store.size_chains_popped]
    exact h.captures
  · have hde : d ≠ e := by
      rintro rfl
      cases hidle.symm.trans hd
    rw [Store.size_chains_popped]
    refine h.active_lt d ch ?_
    rw [inUse, if_neg hde]
    exact hd
  · rw [Store.size_chains_popped] at hd
    by_cases hde : d = e
    · subst hde
      rw [Store.chain_popped_self, h.chain d hd, inUse, if_pos rfl, hidle,
        List.getD_eq_getElem?_getD, hcaptured]
      rfl
    · rw [Store.chain_popped_of_ne hde, h.chain d hd, inUse, if_neg hde]
  · rw [Store.frame_popped]
    exact h.frame j n

end Related

/-! ## While no call is running -/

/-- The environments in use while no call is running. -/
def inUseAtTop : EnvId → Option (List FrameId) := inUse (fun _ => none) Memory.globalEnv [0]

theorem inUseAtTop_of_ne {e : EnvId} (he : e ≠ Memory.globalEnv) : inUseAtTop e = none :=
  if_neg he

theorem Related.fresh : Related inUseAtTop [[0]] Memory.fresh.store {} where
  frames := rfl
  made := rfl
  captures := rfl
  active_lt e chain h := by
    by_cases he : e = Memory.globalEnv
    · subst he
      decide
    · rw [inUseAtTop_of_ne he] at h
      cases h
  chain e he := by
    obtain rfl : e = 0 := Nat.lt_one_iff.mp he
    rfl
  frame i name := by
    have hempty : ({} : Lexical.State).frame i = [] := by
      by_cases hi : i = 0
      · subst hi
        rfl
      · exact Lexical.State.frame_of_le (Nat.one_le_iff_ne_zero.mpr hi)
    rw [Memory.frame_fresh, Frame.get?_empty, hempty]
    exact .none

/-- While no call is running, every environment consists of the frames that it captured. -/
theorem Related.chains_eq {captured : List (List FrameId)} {s : Store} {t : Lexical.State}
    (h : Related inUseAtTop ([0] :: captured) s t) : s.chains.toList = [0] :: captured := by
  refine List.ext_getElem? fun e => ?_
  rw [Array.getElem?_toList]
  by_cases he : e < s.chains.size
  · have hchain := h.chain e he
    have he' : e < ([0] :: captured).length := h.captures ▸ he
    rw [Store.chain, List.getD_eq_getElem?_getD, Array.getElem?_eq_getElem he,
      List.getElem?_eq_getElem he'] at hchain
    rw [Array.getElem?_eq_getElem he, List.getElem?_eq_getElem he']
    by_cases hglobal : e = Memory.globalEnv
    · subst hglobal
      exact congrArg some hchain
    · rw [inUseAtTop_of_ne hglobal] at hchain
      exact congrArg some hchain
  · have he' : ([0] :: captured).length ≤ e := h.captures ▸ Nat.le_of_not_lt he
    rw [Array.getElem?_eq_none (Nat.le_of_not_lt he), List.getElem?_eq_none he']

/-! ## Leaves -/

theorem add_agrees {captured : List (List FrameId)} {x y : Value} {x' y' : Lexical.Value}
    (hx : Matches captured x x') (hy : Matches captured y y') :
    match x.add y with
    | .ok v => ∃ w, x'.sum? y' = some w ∧ Matches captured v w
    | .error _ => x'.sum? y' = none := by
  cases x with
  | absent => exact absurd hx (by cases x' <;> exact id)
  | function f =>
    cases x' with
    | number b => exact absurd hx id
    | function g => exact rfl
  | number a =>
    cases x' with
    | function g => exact absurd hx id
    | number a' =>
      cases y with
      | absent => exact absurd hy (by cases y' <;> exact id)
      | function f =>
        cases y' with
        | number b => exact absurd hy id
        | function g => exact rfl
      | number b =>
        cases y' with
        | function g => exact absurd hy id
        | number b' =>
          obtain rfl : a = a' := hx
          obtain rfl : b = b' := hy
          exact ⟨_, rfl, rfl⟩

section Leaves

variable {active : EnvId → Option (List FrameId)} {captured : List (List FrameId)} {s : Store}
  {t : Lexical.State} {e : EnvId} {env : Lexical.Env} (h : Related active captured s t)
  (he : active e = some env.chain)
include h he

theorem resolveCall_agrees (callee argument : Text) (pos : Position) :
    SameOutcome (fun a b => Matches captured (.function a.1) (.function b.1) ∧
        Matches captured a.2 b.2)
      ((resolveCall s e callee argument pos).mapError Stop.diagnosed : Except (Stop ε) _)
      (Lexical.resolveCall t env callee argument pos) := by
  have hcallee := h.lookup he callee
  have hargument := h.lookup he argument
  unfold resolveCall Lexical.resolveCall
  generalize s.lookup e callee = x at *
  generalize t.lookup env callee = y at *
  cases hcallee with
  | none => exact rfl
  | @some v w hvw =>
    cases v with
    | absent => exact absurd hvw (by cases w <;> exact id)
    | number a =>
      cases w with
      | number b => exact rfl
      | function g => exact absurd hvw id
    | function f =>
      cases w with
      | number b => exact absurd hvw id
      | function g =>
        simp only
        generalize s.lookup e argument = x at *
        generalize t.lookup env argument = y at *
        cases hargument with
        | none => exact rfl
        | some hm => exact ⟨hvw, hm⟩

theorem sumOf_agrees (left right : Text) (pos : Position) :
    SameOutcome (Matches captured)
      ((sumOf s e left right pos).mapError Stop.diagnosed : Except (Stop ε) Value)
      (Lexical.sumOf t env left right pos) := by
  have hleft := h.lookup he left
  have hright := h.lookup he right
  unfold sumOf Lexical.sumOf
  generalize s.lookup e left = x at *
  generalize t.lookup env left = y at *
  generalize s.lookup e right = x' at *
  generalize t.lookup env right = y' at *
  cases hleft with
  | none => cases hright <;> exact rfl
  | @some v w hvw =>
    cases hright with
    | none => exact rfl
    | @some v' w' hvw' =>
      have hsum := add_agrees hvw hvw'
      simp only
      cases hadd : v.add v' with
      | error why =>
        rw [hadd] at hsum
        rw [hsum]
        exact rfl
      | ok x =>
        rw [hadd] at hsum
        obtain ⟨y, hy, hxy⟩ := hsum
        rw [hy]
        exact hxy

theorem returnValue_agrees (decl : FunctionDecl) :
    SameOutcome (Matches captured) (returnValue (ε := ε) s e decl)
      (Lexical.returnValue t env decl) := by
  unfold returnValue Lexical.returnValue
  cases decl.ret with
  | name x =>
    have hx := h.lookup he x
    simp only
    generalize s.lookup e x = y at *
    generalize t.lookup env x = z at *
    cases hx with
    | none => exact rfl
    | some hm => exact hm
  | sum left right => exact sumOf_agrees h he left right decl.pos
  | hole => exact rfl

end Leaves

end Stepwise
