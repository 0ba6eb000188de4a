/-
How an evaluation in a single run ends.

Left alone, it ends as its last scene does.  Stopped at an event, it ends there: the calls that
are running at that scene are left, and nothing else is done.  Both hold for every limit on calls
that is larger than the number of events seen, because every call is announced; so the limit is
no part of how an evaluation ends.  Whether an observer lets events pass may depend on them;
`Observer.Passes` and `Observer.StopsAt` say what it makes of a given list of events.

An observer drives the machine along one path only, so it is enough to show a path to the end
(`Program.evaluate_of_steps`).
-/
import Stepwise.Proofs.Scenes

namespace Stepwise

variable {σ ε : Type}

namespace Machine

/-! ## One path -/

theorem Steps.le_of_ended {obs : Observer σ ε} {n k : Nat} {c d e : Config σ ε}
    {outcome : Except (Stop ε) Value} (h : Steps obs n c d) (hd : d.progress = .ended outcome)
    (g : Steps obs k c e) : k ≤ n := by
  induction h generalizing k with
  | refl c =>
    cases g with
    | refl => exact Nat.le_refl 0
    | step g => cases hd
  | step _ ih =>
    cases g with
    | refl => exact Nat.zero_le _
    | step g => exact Nat.succ_le_succ (ih hd g)

theorem Steps.unique {obs : Observer σ ε} {n : Nat} {c d e : Config σ ε} (h : Steps obs n c d)
    (g : Steps obs n c e) : d = e := by
  induction h with
  | refl c =>
    cases g
    rfl
  | step _ ih =>
    cases g with
    | step g => exact ih g

/-- Two paths that end have the same length, and so the same end. -/
theorem Steps.ended_unique {obs : Observer σ ε} {n k : Nat} {c : Config σ ε} {run run' : Run σ}
    {outcome outcome' : Except (Stop ε) Value}
    (h : Steps obs n c { run, progress := .ended outcome })
    (g : Steps obs k c { run := run', progress := .ended outcome' }) :
    (outcome, run) = (outcome', run') := by
  have hk : n = k := Nat.le_antisymm (g.le_of_ended rfl h) (h.le_of_ended rfl g)
  subst hk
  cases h.unique g
  rfl

/-! ## Leaving calls -/

theorem frames_unwind (calls : List Activation) (memory : Memory) :
    (unwind calls memory).store.frames = memory.store.frames := by
  induction calls generalizing memory with
  | nil => rfl
  | cons a calls ih =>
    show (unwind calls (memory.endCall a.decl.name a.env)).store.frames = _
    rw [ih, Memory.store_endCall, Store.frames_popped]

theorem chain_unwind_suffix (calls : List Activation) (memory : Memory) (e : EnvId) :
    (unwind calls memory).store.chain e <:+ memory.store.chain e := by
  induction calls generalizing memory with
  | nil => exact List.suffix_refl _
  | cons a calls ih =>
    refine (ih (memory.endCall a.decl.name a.env)).trans ?_
    rw [Memory.store_endCall]
    by_cases he : e = a.env
    · rw [he, Store.chain_popped_self]
      exact List.tail_suffix _
    · simp only [Store.chain_popped_of_ne he, List.suffix_refl]

end Machine

open Machine

/-- An evaluation whose events are fewer than the calls it may make never meets that limit. -/
theorem Program.evaluate_ne_tooDeep {obs : Observer σ ε} {p : Program} {limit n : Nat}
    {memory : Memory} {seen : σ} {run : Run σ} {outcome : Except (Stop ε) Value}
    (h : Steps obs n ((Scene.start p memory).config seen) { run, progress := .ended outcome })
    (hlimit : n < limit) : (p.evaluate obs limit memory seen).1 ≠ .error .tooDeep := by
  have hfollows := Machine.evaluate_follows obs limit p memory seen
  intro hdeep
  generalize p.evaluate obs limit memory seen = result at *
  obtain ⟨_, run'⟩ := result
  obtain rfl := hdeep
  obtain ⟨k, d, hk, g, -⟩ := hfollows
  have hle := h.le_of_ended rfl g
  omega

/-- An evaluation that does not end by its limit leads the machine to the end. -/
theorem Program.exists_steps {obs : Observer σ ε} {p : Program} {limit : Nat} {memory : Memory}
    {seen : σ} (hdeep : (p.evaluate obs limit memory seen).1 ≠ .error .tooDeep) :
    ∃ n, Steps obs n ((Scene.start p memory).config seen)
      { run := (p.evaluate obs limit memory seen).2
        progress := .ended (p.evaluate obs limit memory seen).1 } := by
  have hfollows := Machine.evaluate_follows obs limit p memory seen
  generalize p.evaluate obs limit memory seen = result at *
  rcases result with ⟨why | v, run⟩
  · cases why with
    | tooDeep => exact absurd rfl hdeep
    | _ => exact hfollows
  · exact hfollows

/-- Where the observer leads the machine to the end, the evaluation ends in the same way. -/
theorem Program.evaluate_of_steps {obs : Observer σ ε} {p : Program} {limit n : Nat}
    {memory : Memory} {seen : σ} {run : Run σ} {outcome : Except (Stop ε) Value}
    (h : Steps obs n ((Scene.start p memory).config seen) { run, progress := .ended outcome })
    (hlimit : n < limit) : p.evaluate obs limit memory seen = (outcome, run) := by
  obtain ⟨k, g⟩ := Program.exists_steps (p.evaluate_ne_tooDeep h hlimit)
  exact g.ended_unique h

namespace Scene

theorem react_of_next {obs : Observer σ ε} (hobs : obs.Passive) {sc sc' : Scene}
    (hnext : sc.next = some sc') {seen : σ}
    (hpass : (obs sc.machine.event sc.memory.store seen).stop = none) :
    react obs sc.machine { memory := sc.memory, seen } =
      sc'.config (obs sc.machine.event sc.memory.store seen).seen := by
  rw [react_of_passive hobs]
  rcases sc.resume_cases ε with ⟨sc'', hnext', hresume⟩ | ⟨_, _, hnext', -⟩
  · obtain rfl : sc'' = sc' := Option.some.inj (hnext'.symm.trans hnext)
    simp only [hpass]
    rw [hresume]
    rfl
  · cases hnext'.symm.trans hnext

end Scene

/-! ## What the observer makes of the events -/

namespace Observer

/-- What the observer remembers after it was shown the events in turn. -/
def shown (obs : Observer σ ε) (seen : σ) (events : List Sighting) : σ :=
  events.foldl (fun seen s => (obs s.event s.store seen).seen) seen

/-- Shown the events in turn, the observer stops at none of them. -/
def Passes (obs : Observer σ ε) : σ → List Sighting → Prop
  | _, [] => True
  | seen, s :: events =>
    (obs s.event s.store seen).stop = none ∧ obs.Passes (obs s.event s.store seen).seen events

/-- Shown the events in turn, the observer lets `n` of them pass, or all if there are no more, and
stops for the reason `why` at the next one. -/
def StopsAt (obs : Observer σ ε) (why : ε) (n : Nat) (seen : σ) (events : List Sighting) : Prop :=
  obs.Passes seen (events.take n) ∧ ∀ s, events[n]? = some s →
    (obs s.event s.store (obs.shown seen (events.take n))).stop = some why

/-- The observer lets `n` events pass and stops at the next one, whatever they are. -/
def StopsAfter (obs : Observer σ ε) (why : ε) : Nat → σ → Prop
  | 0, seen => ∀ ev s, (obs ev s seen).stop = some why
  | n + 1, seen => ∀ ev s, (obs ev s seen).stop = none ∧ obs.StopsAfter why n (obs ev s seen).seen

section

variable {obs : Observer σ ε} {why : ε}

theorem passes_concat {seen : σ} {events : List Sighting} {s : Sighting} :
    obs.Passes seen (events ++ [s]) ↔ obs.Passes seen events ∧
      (obs s.event s.store (obs.shown seen events)).stop = none := by
  induction events generalizing seen with
  | nil => exact and_comm
  | cons s' events ih =>
    show _ ∧ obs.Passes _ (events ++ [s]) ↔ (_ ∧ obs.Passes _ events) ∧ _
    rw [ih, and_assoc]
    rfl

theorem shown_concat (seen : σ) (events : List Sighting) (s : Sighting) :
    obs.shown seen (events ++ [s]) = (obs s.event s.store (obs.shown seen events)).seen :=
  List.foldl_append

theorem Unstopping.passes (h : obs.Unstopping) (seen : σ) (events : List Sighting) :
    obs.Passes seen events := by
  induction events generalizing seen with
  | nil => trivial
  | cons s events ih => exact ⟨h s.event s.store seen, ih _⟩

theorem StopsAfter.stopsAt {n : Nat} {seen : σ} (h : obs.StopsAfter why n seen)
    (events : List Sighting) : obs.StopsAt why n seen events := by
  induction n generalizing seen events with
  | zero => exact ⟨trivial, fun s _ => h s.event s.store⟩
  | succ n ih =>
    cases events with
    | nil => exact ⟨trivial, nofun⟩
    | cons s events =>
      obtain ⟨hpass, hstops⟩ := h s.event s.store
      obtain ⟨hpasses, hstop⟩ := ih hstops events
      exact ⟨⟨hpass, hpasses⟩, hstop⟩

end
end Observer

namespace Scene

/-- Where the observer stops at none of the events on the way, it leads from scene to scene. -/
theorem steps_passing {obs : Observer σ ε} (hobs : obs.Passive) {last : Scene} {n : Nat} :
    ∀ {sc : Scene} {seen : σ}, obs.Passes seen (sc.trail n) → sc.after n = some last →
      Steps obs n (sc.config seen) (last.config (obs.shown seen (sc.trail n))) := by
  induction n with
  | zero =>
    intro sc seen _ h
    obtain rfl := Option.some.inj h
    exact .refl _
  | succ n ih =>
    intro sc seen hpasses h
    obtain ⟨sc', hnext, h⟩ := Option.bind_eq_some_iff.mp h
    rw [trail_of_next hnext] at hpasses ⊢
    obtain ⟨hpass, hpasses⟩ := hpasses
    refine .step ?_
    rw [react_of_next hobs hnext hpass]
    exact ih hpasses h

theorem trail_succ {n : Nat} : ∀ {sc last : Scene}, sc.after n = some last →
    sc.trail (n + 1) = sc.trail n ++ [last.sighting] := by
  induction n with
  | zero =>
    intro sc last h
    obtain rfl := Option.some.inj h
    exact trail_one sc
  | succ n ih =>
    intro sc last h
    obtain ⟨sc', hnext, h⟩ := Option.bind_eq_some_iff.mp h
    rw [trail_of_next hnext, trail_of_next hnext, ih h]
    rfl

end Scene

/-! ## Left alone -/

theorem Scene.steps_to_end {obs : Observer σ ε} (hobs : obs.Passive) {sc last : Scene} {n : Nat}
    {seen : σ} {memory : Memory} {outcome : Except (Stop ε) Value}
    (hpasses : obs.Passes seen (sc.trail (n + 1))) (hlast : sc.after n = some last)
    (hend : last.machine.resume last.memory = (memory, .ended outcome)) :
    Steps obs (n + 1) (sc.config seen)
      { run := { memory, seen := obs.shown seen (sc.trail (n + 1)) }, progress := .ended outcome } := by
  rw [trail_succ hlast] at hpasses ⊢
  obtain ⟨hpasses, hpass⟩ := Observer.passes_concat.mp hpasses
  refine (steps_passing hobs hpasses hlast).trans ?_
  have hstep := Steps.single obs last.machine
    { memory := last.memory, seen := obs.shown seen (sc.trail n) }
  rw [react_of_passive hobs] at hstep
  simp only [show (obs last.machine.event last.memory.store
    (obs.shown seen (sc.trail n))).stop = none from hpass] at hstep
  rw [hend] at hstep
  rw [Observer.shown_concat]
  exact hstep

theorem Program.evaluate_of_last {obs : Observer σ ε} (hobs : obs.Passive) {p : Program}
    {limit k : Nat} {memory memory' : Memory} {seen : σ} {last : Scene}
    {outcome : Except (Stop ε) Value}
    (hpasses : obs.Passes seen ((Scene.start p memory).trail (k + 1)))
    (hlast : p.sceneAt memory k = some last)
    (hend : last.machine.resume last.memory = (memory', .ended outcome)) (hlimit : k + 1 < limit) :
    p.evaluate obs limit memory seen =
        (outcome, ⟨memory', obs.shown seen ((Scene.start p memory).trail (k + 1))⟩) ∧
      outcome ≠ .error .tooDeep := by
  have hsteps := Scene.steps_to_end hobs hpasses hlast hend
  have heq := p.evaluate_of_steps hsteps hlimit
  have hdeep := p.evaluate_ne_tooDeep hsteps hlimit
  rw [heq] at hdeep
  exact ⟨heq, hdeep⟩

/-! ## Stopped -/

theorem Scene.steps_to_stop {obs : Observer σ ε} (hobs : obs.Passive) {why : ε} {sc last : Scene}
    {n : Nat} {seen : σ} (hstops : obs.StopsAt why n seen (sc.trail (n + 1)))
    (hlast : sc.after n = some last) :
    Steps obs (n + 1) (sc.config seen)
      { run :=
          { memory := unwind last.machine.calls last.memory
            seen := obs.shown seen (sc.trail (n + 1)) }
        progress := .ended (.error (.interrupted why)) } := by
  have hlength : (sc.trail n).length = n := by
    have hsucc := length_trail hlast
    rw [trail_succ hlast, List.length_append] at hsucc
    exact Nat.succ.inj hsucc
  have hlast' : (sc.trail n ++ [last.sighting])[n]? = some last.sighting := by
    rw [List.getElem?_append_right (Nat.le_of_eq hlength), hlength, Nat.sub_self]
    rfl
  obtain ⟨hpasses, hstop⟩ := hstops
  rw [trail_succ hlast, List.take_left' hlength] at hpasses hstop
  refine (steps_passing hobs hpasses hlast).trans ?_
  have hstep := Steps.single obs last.machine
    { memory := last.memory, seen := obs.shown seen (sc.trail n) }
  rw [react_of_passive hobs] at hstep
  simp only [show (obs last.machine.event last.memory.store
    (obs.shown seen (sc.trail n))).stop = some why from hstop last.sighting hlast'] at hstep
  rw [trail_succ hlast, Observer.shown_concat]
  exact hstep

theorem Program.evaluate_of_stopped {obs : Observer σ ε} (hobs : obs.Passive) {p : Program}
    {limit n : Nat} {memory : Memory} {seen : σ} {why : ε} {sc : Scene}
    (hstops : obs.StopsAt why n seen ((Scene.start p memory).trail (n + 1)))
    (hsc : p.sceneAt memory n = some sc) (hlimit : n + 1 < limit) :
    p.evaluate obs limit memory seen = (.error (.interrupted why),
      ⟨unwind sc.machine.calls sc.memory,
        obs.shown seen ((Scene.start p memory).trail (n + 1))⟩) :=
  p.evaluate_of_steps (Scene.steps_to_stop hobs hstops hsc) hlimit

namespace Observer

theorem scripted_passive (stopAt : Nat) (why : ε) : (scripted [] stopAt why).Passive :=
  fun _ _ _ => rfl

theorem scripted_stopsAfter (why : ε) {stopAt n : Nat} {seen : Array Sighting}
    (h : seen.size + n + 1 = stopAt) : (scripted [] stopAt why).StopsAfter why n seen := by
  induction n generalizing seen with
  | zero =>
    intro ev s
    have hsize : (seen.push { event := ev, store := s }).size = stopAt := by
      rw [Array.size_push]
      omega
    exact if_pos hsize
  | succ n ih =>
    intro ev s
    have hsize : (seen.push { event := ev, store := s }).size = seen.size + 1 := Array.size_push _
    refine ⟨if_neg (by omega), ih ?_⟩
    show (seen.push { event := ev, store := s }).size + n + 1 = stopAt
    omega

end Observer
end Stepwise
