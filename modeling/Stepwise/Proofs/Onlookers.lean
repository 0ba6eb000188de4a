/-
Observers that only look on.

Such an observer leaves the environments alone and stops at nothing, so that an event does nothing
but add to its record.  An evaluation under it opens with three events in the memory that it is
given, and all else is done by its statements (`evaluate_eq_remainder`).
-/
import Stepwise.Proofs.CallTree

namespace Stepwise

open Observer (Sighting)

variable {σ ε : Type}

/-- An observer that only looks on: it leaves the environments alone and stops at nothing. -/
structure Observer.LooksOn (obs : Observer σ ε) : Prop where
  passive : obs.Passive
  unstopping : obs.Unstopping

theorem Observer.LooksOn.witnessed {obs : Observer σ ε} (h : obs.LooksOn) : obs.witnessed.LooksOn :=
  ⟨fun ev s seen => h.passive ev s seen.1, fun ev s seen => h.unstopping ev s seen.1⟩

theorem Eval.bind_eq_ok {α β : Type} {x : Eval σ ε α} {f : α → Eval σ ε β} {run run' : Run σ} {b : β}
    (h : (x >>= f) run = (.ok b, run')) : ∃ a r, x run = (.ok a, r) ∧ f a r = (.ok b, run') := by
  rw [bind_apply] at h
  generalize x run = result at *
  rcases result with ⟨why | a, r⟩
  · cases h
  · exact ⟨a, r, rfl, h⟩

/-- The run with the events shown to the observer and put on record. -/
def Observer.recorded (obs : Observer σ ε) (run : Run (σ × List Sighting))
    (events : List Sighting) : Run (σ × List Sighting) :=
  { run with seen := (obs.shown run.seen.1 events, run.seen.2 ++ events) }

theorem Observer.memory_recorded (obs : Observer σ ε) (run : Run (σ × List Sighting))
    (w : List Sighting) : (obs.recorded run w).memory = run.memory := rfl

theorem Observer.recorded_recorded (obs : Observer σ ε) (run : Run (σ × List Sighting))
    (w w' : List Sighting) : obs.recorded (obs.recorded run w) w' = obs.recorded run (w ++ w') := by
  simp only [recorded, shown, List.foldl_append, List.append_assoc]

namespace Direct

/-- An event is put on record, and all else goes on. -/
theorem announce_bind {α : Type} {obs : Observer σ ε} (hobs : obs.LooksOn) (kind : EventKind)
    (env : EnvId) (pos : Option Position) (next : Unit → Eval (σ × List Sighting) ε α)
    (run : Run (σ × List Sighting)) :
    (announce obs.witnessed kind env pos >>= next) run =
      next () (obs.recorded run [shown run.memory.store kind env pos]) := by
  rw [Eval.bind_apply, announce_apply]
  simp only [Observer.witnessed, hobs.passive { kind, env, pos } run.memory.store run.seen.1,
    hobs.unstopping { kind, env, pos } run.memory.store run.seen.1]
  rfl

/-! ## The opening and the rest -/

/-- What a program at `pos` comes to, once its statements have. -/
def conclude (pos : Position) : Option Value → Eval σ ε Value
  | some v => return v
  | none => throw (.diagnosed (emptyProgram pos))

/-- The rest of a program at `pos`: the statements `ss` are left, and `last` is the value of the one
before. -/
def remainder (obs : Observer σ ε) (limit : Nat) (env : EnvId) (pos : Position)
    (last : Option Value) (ss : List Statement) : Eval σ ε Value :=
  statements obs (call obs limit) env last ss >>= conclude pos

theorem statements_of_remainder {obs : Observer σ ε} {limit : Nat} {env : EnvId} {pos : Position}
    {last : Option Value} {ss : List Statement} {run run' : Run σ} {v : Value}
    (h : remainder obs limit env pos last ss run = (.ok v, run')) :
    statements obs (call obs limit) env last ss run = (.ok (some v), run') := by
  obtain ⟨last, between, hstatements, hlast⟩ := Eval.bind_eq_ok h
  cases last with
  | none => cases hlast
  | some v =>
    cases hlast
    exact hstatements

/-- The events that open an evaluation. -/
def opening (s : Store) (env : EnvId) (pos : Position) : List Sighting :=
  [shown s .start env (some 0), shown s .sourceFile env (some pos), shown s .statementList env none]

/-- Under an observer that only looks on, a program is its opening and its statements. -/
theorem evaluate_eq_remainder {obs : Observer σ ε} (hobs : obs.LooksOn) (limit : Nat)
    (ss : List Statement) (pos : Position) (memory : Memory) (seen : σ) :
    Program.evaluate { statements := ss, pos } obs.witnessed limit memory (seen, []) =
      remainder obs.witnessed limit Memory.globalEnv pos none ss
        (obs.recorded ⟨memory, seen, []⟩ (opening memory.store Memory.globalEnv pos)) := by
  show program obs.witnessed limit Memory.globalEnv { statements := ss, pos }
    ⟨memory, seen, []⟩ = _
  simp only [program, statementList, bind_assoc]
  rw [announce_bind hobs, announce_bind hobs, announce_bind hobs]
  rfl

end Direct
end Stepwise
