/-
Evaluation composes over concatenation.

To evaluate statements `A` and then, in what they leave behind, statements `B` comes to the same as
to evaluate `A ++ B` at once: the value or the failure of `B`, every frame and every environment,
and the events, of which only the three are missing that open the evaluation of `B`.

Evaluating statements is a fold, so it splits where the list does (`statements_append`).  Behind
`A` the one evaluation goes on with a value in hand and the other begins anew with none, and the
observers need not be the same; for equality as the likeness, `statements_tandem` says that neither
matters.
-/
import Stepwise.Proofs.Likeness
import Stepwise.Proofs.Refinement

namespace Stepwise

open Observer (Sighting)

variable {σ σ' ε : Type}

/-! ## Equality as a likeness -/

mutual

theorem Statement.Like.refl : ∀ s : Statement, s.Like Eq s
  | .define _ (.literal _) _ => .define (.literal rfl)
  | .define _ (.call callee argument) _ => .define (.call callee argument)
  | .define _ .hole _ => .define .hole
  | .function _ _ body _ _ => .function (Statement.Like.refl_list body)
  | .hole => .hole

theorem Statement.Like.refl_list : ∀ ss : List Statement, List.Forall₂ (Statement.Like Eq) ss ss
  | [] => .nil
  | s :: ss => .cons (Statement.Like.refl s) (Statement.Like.refl_list ss)

end

mutual

theorem Statement.Like.eq : ∀ {s s' : Statement}, s.Like Eq s' → s = s'
  | _, _, .define (.literal rfl) => rfl
  | _, _, .define (.call _ _) => rfl
  | _, _, .define .hole => rfl
  | _, _, .function h => by rw [Statement.Like.eq_list h]
  | _, _, .hole => rfl

theorem Statement.Like.eq_list : ∀ {ss ss' : List Statement},
    List.Forall₂ (Statement.Like Eq) ss ss' → ss = ss'
  | _, _, .nil => rfl
  | _, _, .cons h hs => by rw [Statement.Like.eq h, Statement.Like.eq_list hs]

end

theorem FunctionDecl.Like.refl (d : FunctionDecl) : d.Like Eq d :=
  ⟨rfl, rfl, Statement.Like.refl_list d.body, rfl, rfl⟩

theorem FunctionDecl.Like.eq {d d' : FunctionDecl} (h : d.Like Eq d') : d = d' := by
  obtain ⟨name, parameter, body, ret, pos⟩ := d
  obtain ⟨name', parameter', body', ret', pos'⟩ := d'
  obtain ⟨rfl, rfl, hbody, rfl, rfl⟩ := h
  obtain rfl : body = body' := Statement.Like.eq_list hbody
  rfl

theorem EndsLike.refl {κ α : Type} {good : α → α → Prop} (hgood : ∀ a, good a a)
    (x : Except κ α) : EndsLike Eq good x x := by
  cases x with
  | ok a => exact .ok (hgood a)
  | error why => exact .error rfl

theorem Stop.Like.eq {why why' : Stop ε} (h : why.Like Eq why') : why = why' := by
  cases h with
  | diagnosed h => rw [h]
  | _ => rfl

theorem EndsLike.eq {α : Type} {x y : Except (Stop ε) α} (h : EndsLike (Stop.Like Eq) Eq x y) :
    x = y := by
  cases h with
  | ok h => rw [h]
  | error h => rw [h.eq]

/-- Nothing that a function returns, nor a failure of its return expression, is the reason of an
observer. -/
theorem returnValue_endsLike_refl (s : Store) (e : EnvId) (decl : FunctionDecl) :
    EndsLike (Stop.Like Eq) Eq (returnValue (ε := ε) s e decl) (returnValue s e decl) := by
  unfold returnValue
  cases decl.ret with
  | name x =>
    simp only
    cases s.lookup e x with
    | some v => exact .ok rfl
    | none => exact .error (.diagnosed rfl)
  | sum left right =>
    simp only
    cases sumOf s e left right decl.pos with
    | ok v => exact .ok rfl
    | error d => exact .error (.diagnosed rfl)
  | hole => exact .error (.missing .returnExpr)

/-- The finest likeness.  That evaluations are alike says then that the observer makes no
difference. -/
def Likeness.eq : Likeness where
  lexeme := Eq
  value := Eq
  diagnosis := Eq
  memory := Eq
  function := by
    rintro f _ ⟨⟩
    exact ⟨rfl, .refl f.decl⟩
  emptyProgram _ := rfl
  literalValue := by
    rintro l _ rfl name pos
    exact .refl (fun _ => rfl) _
  resolveCall := by
    rintro m _ rfl e callee argument pos
    exact .refl (fun _ => ⟨rfl, rfl⟩) _
  returnValue := by
    rintro ε m _ decl decl' rfl hdecl e
    rw [hdecl.eq]
    exact returnValue_endsLike_refl m.store e decl'
  bind := by
    rintro m _ v _ rfl rfl e name
    cases m.bind e name v with
    | none => exact .none
    | some m' => exact .some rfl
  declare := by
    rintro m _ decl decl' rfl hdecl e
    rw [hdecl.eq]
    cases m.declare e decl' with
    | none => exact .none
    | some made => exact .some ⟨rfl, rfl⟩
  beginCall := by
    rintro m _ f f' v _ rfl hdecl rfl e argument
    unfold Memory.beginCall
    rw [hdecl.eq]
  endCall := by
    rintro m _ rfl name e
    rfl

theorem Likeness.eq_of_sighting {s s' : Sighting} (h : Likeness.eq.sighting s s') : s = s' := by
  obtain ⟨ev, store⟩ := s
  obtain ⟨ev', store'⟩ := s'
  obtain ⟨rfl, m, _, rfl, rfl, rfl⟩ := h
  rfl

theorem Likeness.eq_of_sightings {w w' : List Sighting}
    (h : List.Forall₂ Likeness.eq.sighting w w') : w = w' := by
  induction h with
  | nil => rfl
  | cons h _ ih => rw [Likeness.eq_of_sighting h, ih]

namespace Direct

/-! ## Parts one after another -/

theorem statements_append (obs : Observer σ ε) (call : Caller σ ε) (env : EnvId)
    (A B : List Statement) (last : Option Value) :
    statements obs call env last (A ++ B) =
      statements obs call env last A >>= fun last => statements obs call env last B := by
  induction A generalizing last with
  | nil => simp only [List.nil_append, statements, pure_bind]
  | cons s A ih =>
    show (statement obs call env s >>= fun v => statements obs call env (some v) (A ++ B)) =
      (statement obs call env s >>= fun v => statements obs call env (some v) A) >>= _
    rw [bind_assoc]
    exact congrArg _ (funext fun v => ih (some v))

theorem remainder_append {obs : Observer σ ε} {limit : Nat} {env : EnvId} {last last' : Option Value}
    {A : List Statement} {run run' : Run σ}
    (h : statements obs (call obs limit) env last A run = (.ok last', run')) (pos : Position)
    (B : List Statement) :
    remainder obs limit env pos last (A ++ B) run = remainder obs limit env pos last' B run' := by
  unfold remainder
  rw [statements_append, bind_assoc, Eval.bind_apply, h]

section Tandem

variable {obs : Observer σ ε} {obs' : Observer σ' ε} (hobs : obs.LooksOn) (hobs' : obs'.LooksOn)
  (limit : Nat) (env : EnvId) (run : Run (σ × List Sighting)) (run' : Run (σ' × List Sighting))
  (hmemory : run.memory = run'.memory)
include hobs hobs' hmemory

/-- Statements that have a value have it under another observer too. -/
theorem statements_eq_of_eq {A : List Statement} {v : Value} {after : Run (σ × List Sighting)}
    (h : statements obs.witnessed (call obs.witnessed limit) env none A run =
      (.ok (some v), after)) :
    ∃ after', statements obs'.witnessed (call obs'.witnessed limit) env none A run' =
        (.ok (some v), after') ∧
      after.memory = after'.memory ∧
      ∃ w, after.seen.2 = run.seen.2 ++ w ∧ after'.seen.2 = run'.seen.2 ++ w := by
  obtain ⟨hm, ⟨w, w', hw, hw', hevents⟩, hends⟩ :=
    statements_tandem (L := .eq) hobs hobs' (call_tandem hobs hobs' limit) env
      (R := Eq) (fun _ _ => congrArg some) (Statement.Like.refl_list A) none none hmemory
      fun _ => rfl
  rw [h] at hm hw hends
  obtain rfl := Likeness.eq_of_sightings hevents
  generalize statements obs'.witnessed (call obs'.witnessed limit) env none A run' = r at *
  obtain ⟨outcome, after'⟩ := r
  obtain rfl : .ok (some v) = outcome := hends.eq
  exact ⟨after', rfl, hm, w, hw, hw'⟩

/-- If any statements are left, what was before them and where the program stands is of no
matter. -/
theorem remainder_eq {B : List Statement} (hB : B ≠ []) (last last' : Option Value)
    (pos pos' : Position) :
    let r := remainder obs.witnessed limit env pos last B run
    let r' := remainder obs'.witnessed limit env pos' last' B run'
    r.1 = r'.1 ∧ r.2.memory = r'.2.memory ∧
      ∃ w, r.2.seen.2 = run.seen.2 ++ w ∧ r'.2.seen.2 = run'.seen.2 ++ w := by
  have hstatements := statements_tandem (L := .eq) hobs hobs' (call_tandem hobs hobs' limit) env
    (R := fun a b => ∃ v, a = some v ∧ b = some v) (fun v v' h => ⟨v, rfl, h ▸ rfl⟩)
    (Statement.Like.refl_list B) last last' hmemory fun h => absurd h hB
  have htandem : Tandem .eq Eq run.seen.2 run'.seen.2
      (remainder obs.witnessed limit env pos last B run)
      (remainder obs'.witnessed limit env pos' last' B run') := by
    refine hstatements.bind ?_
    rintro _ _ r r' hm ⟨v, rfl, rfl⟩
    exact .intro hm (.ok rfl)
  obtain ⟨hm, ⟨w, w', hw, hw', hevents⟩, hends⟩ := htandem
  obtain rfl := Likeness.eq_of_sightings hevents
  exact ⟨hends.eq, hm, w, hw, hw'⟩

end Tandem
end Direct

/-! ## Programs one after another -/

/-- What `whole` has come to is what `after` and then `second`, at `pos`, have come to.  The memories
agree in all frames and all environments.  Only the events that open `second` are missing from those
of `whole`. -/
structure Continues (after : Run (σ × List Sighting)) (pos : Position)
    (second : Except (Stop ε) Value × Run (σ × List Sighting))
    (whole : Except (Stop ε) Value × Run (σ' × List Sighting)) : Prop where
  outcome : whole.1 = second.1
  memory : whole.2.memory = second.2.memory
  events : ∃ w, second.2.seen.2 = Direct.opening after.memory.store Memory.globalEnv pos ++ w ∧
    whole.2.seen.2 = after.seen.2 ++ w

/-- Let the statements `A` have a value under an observer who only looks on, and let `B` be further
statements.  To evaluate `A ++ B` at once, before another such observer, comes to the same value or
failure, memory and events as to evaluate `B` in the memory that `A` has left. -/
theorem evaluation_composes {obs : Observer σ ε} {obs' : Observer σ' ε} (hobs : obs.LooksOn)
    (hobs' : obs'.LooksOn) {limit : Nat} {memory : Memory} {A B : List Statement}
    {pos : Position} {seen : σ} {v : Value} {after : Run (σ × List Sighting)}
    (hA : Program.evaluate { statements := A, pos } obs.witnessed limit memory (seen, []) =
      (.ok v, after))
    (hB : B ≠ []) (posB : Position) (seenB : σ) (seen' : σ') :
    Continues after posB
      (Program.evaluate { statements := B, pos := posB } obs.witnessed limit after.memory
        (seenB, []))
      (Program.evaluate { statements := A ++ B, pos } obs'.witnessed limit memory (seen', [])) := by
  have hfirst := Direct.evaluate_eq_remainder hobs limit A pos memory seen
  have hsecond := Direct.evaluate_eq_remainder hobs limit B posB after.memory seenB
  have hwhole := Direct.evaluate_eq_remainder hobs' limit (A ++ B) pos memory seen'
  -- Both evaluations of `A` arrive at its value, with the same memory and the same events.
  have hstatements := Direct.statements_of_remainder (hfirst.symm.trans hA)
  obtain ⟨between, hbetween, hmemory, w, hw, hw'⟩ :=
    Direct.statements_eq_of_eq hobs hobs' limit _ _
      (obs'.recorded ⟨memory, seen', []⟩ (Direct.opening memory.store Memory.globalEnv pos)) rfl
      hstatements
  -- From there on both evaluate `B`.
  obtain ⟨hends, hm, events, hevents, hevents'⟩ :=
    Direct.remainder_eq hobs hobs' limit Memory.globalEnv
      (obs.recorded ⟨after.memory, seenB, []⟩
        (Direct.opening after.memory.store Memory.globalEnv posB))
      between hmemory hB none (some v) posB pos
  rw [hsecond, hwhole, Direct.remainder_append hbetween]
  refine ⟨hends.symm, hm.symm, events, hevents, ?_⟩
  rw [hevents', hw', hw]
  rfl

/-- A function that was made by a call in the first part is called in the second. -/
theorem closureKept_composes :
    ∃ v after,
      Program.evaluate { statements := closureKept.statements.take 3, pos := 0 }
        (Observer.silent (ε := Empty)).witnessed 1 .fresh ((), []) = (.ok v, after) ∧
      Continues after 3
        (Program.evaluate { statements := closureKept.statements.drop 3, pos := 3 }
          (Observer.silent (ε := Empty)).witnessed 1 after.memory ((), []))
        (Program.evaluate
          { statements := closureKept.statements.take 3 ++ closureKept.statements.drop 3, pos := 0 }
          (Observer.silent (ε := Empty)).witnessed 1 .fresh ((), [])) := by
  have hsilent : (Observer.silent (ε := Empty)).LooksOn := ⟨fun _ _ _ => rfl, fun _ _ _ => rfl⟩
  have hB : closureKept.statements.drop 3 ≠ [] := List.ne_nil_of_length_pos (by decide +kernel)
  have hok : (Program.evaluate { statements := closureKept.statements.take 3, pos := 0 }
      (Observer.silent (ε := Empty)).witnessed 1 .fresh ((), [])).1.isOk = true := by
    decide +kernel
  cases hA : Program.evaluate { statements := closureKept.statements.take 3, pos := 0 }
      (Observer.silent (ε := Empty)).witnessed 1 .fresh ((), []) with
  | mk outcome after =>
    rw [hA] at hok
    cases outcome with
    | error why => cases hok
    | ok v => exact ⟨v, after, rfl, evaluation_composes hsilent hsilent hA hB 3 () ()⟩

end Stepwise
