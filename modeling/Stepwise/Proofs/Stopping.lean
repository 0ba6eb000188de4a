/-
To stop an evaluation is to take a prefix of it.

An observer that only looks on and stops at some event has been shown the events of the evaluation
that is left alone, up to that one.  The evaluation ends there with the observer's reason, even if
left alone it would never end, and no binding is made after that event; only the running calls are
left.  An observer that waits for an event which never comes has no effect.

`Program.evaluate_of_stopped` and `Program.evaluate_of_last` say this of scenes.  Here the scenes
are replaced by the events of the evaluation that is left alone, and the observer by that of an
execution, whose signal counts the events.
-/
import Stepwise.Execution
import Stepwise.Proofs.Bookkeeping
import Stepwise.Proofs.Endings

namespace Stepwise

variable {σ ε : Type}

/-! ## A record beside the observer -/

namespace Observer

variable (obs : Observer σ ε)

theorem shown_witnessed (seen : σ) (record events : List Sighting) :
    obs.witnessed.shown (seen, record) events = (obs.shown seen events, record ++ events) := by
  induction events generalizing seen record with
  | nil => rw [List.append_nil]; rfl
  | cons s events ih =>
    show obs.witnessed.shown ((obs s.event s.store seen).seen, record ++ [s]) events = _
    rw [ih, List.append_assoc]
    rfl

theorem passes_witnessed {seen : σ} {record events : List Sighting} :
    obs.witnessed.Passes (seen, record) events ↔ obs.Passes seen events := by
  induction events generalizing seen record with
  | nil => exact Iff.rfl
  | cons s events ih => exact and_congr_right fun _ => ih

theorem stopsAt_witnessed {why : ε} {n : Nat} {seen : σ} {record events : List Sighting} :
    obs.witnessed.StopsAt why n (seen, record) events ↔ obs.StopsAt why n seen events := by
  unfold StopsAt
  rw [passes_witnessed, shown_witnessed]
  rfl

end Observer

/-! ## The evaluation that is left alone -/

/-- An evaluation that nothing stops but the limit on its calls, with a record of its events. -/
def Program.leftAlone (p : Program) (ε : Type) (limit : Nat) (memory : Memory) :
    Except (Stop ε) Value × Run (Unit × List Observer.Sighting) :=
  p.evaluate (Observer.silent (ε := ε)).witnessed limit memory ((), [])

def Program.eventsLeftAlone (p : Program) (ε : Type) (limit : Nat) (memory : Memory) :
    List Observer.Sighting :=
  (p.leftAlone ε limit memory).2.seen.2

theorem Machine.resume_ne_interrupted {m : Machine} {memory memory' : Memory} {why : ε} :
    m.resume memory ≠ (memory', .ended (.error (.interrupted why))) := by
  rw [resume_map (ε := Empty) Empty.elim]
  rcases m.resume (ε := Empty) memory with ⟨memory₀, m' | outcome⟩
  · exact nofun
  · rcases outcome with stop | v
    · cases stop with
      | interrupted none => exact none.elim
      | _ => exact nofun
    · exact nofun

section

variable {p : Program} {memory : Memory} {limit n : Nat}

theorem Program.getElem?_eventsLeftAlone (h : n < limit) :
    (p.eventsLeftAlone ε limit memory)[n]? = (p.sceneAt memory n).map Scene.sighting :=
  Program.sightings_complete (fun _ _ _ => rfl) (fun _ _ _ => rfl) (.inl h)

theorem Program.take_eventsLeftAlone (h : n ≤ limit) :
    (p.eventsLeftAlone ε limit memory).take n = (Scene.start p memory).trail n := by
  apply List.ext_getElem?
  intro i
  rw [List.getElem?_take, Scene.getElem?_trail]
  by_cases hi : i < n
  · rw [if_pos hi, if_pos hi, getElem?_eventsLeftAlone (Nat.lt_of_lt_of_le hi h)]
    rfl
  · rw [if_neg hi, if_neg hi]

/-- Left alone, an evaluation of fewer events than it may make calls comes to an end. -/
theorem Program.exists_last (ε : Type) (h : p.sceneAt memory n = none) :
    ∃ k last memory' outcome, k < n ∧ p.sceneAt memory k = some last ∧
      last.machine.resume (ε := ε) last.memory = (memory', .ended outcome) := by
  obtain ⟨k, last, hk, hlast, hnext⟩ := Scene.after_eq_none h
  rcases last.resume_cases ε with ⟨sc, hsc, -⟩ | ⟨memory', outcome, -, hend⟩
  · cases hsc.symm.trans hnext
  · exact ⟨k, last, memory', outcome, hk, hlast, hend⟩

theorem Program.leftAlone_of_last {k : Nat} {last : Scene} {memory' : Memory}
    {outcome : Except (Stop ε) Value} (hlast : p.sceneAt memory k = some last)
    (hend : last.machine.resume last.memory = (memory', .ended outcome)) (hlimit : k + 1 < limit) :
    p.leftAlone ε limit memory = (outcome, ⟨memory', (), (Scene.start p memory).trail (k + 1)⟩) ∧
      outcome ≠ .error .tooDeep := by
  have hun : (Observer.silent (ε := ε)).witnessed.Unstopping := fun _ _ _ => rfl
  have hpassive : (Observer.silent (ε := ε)).witnessed.Passive := fun _ _ _ => rfl
  obtain ⟨heq, hdeep⟩ :=
    Program.evaluate_of_last hpassive (hun.passes ((), []) _) hlast hend hlimit
  rw [Observer.shown_witnessed] at heq
  exact ⟨heq, hdeep⟩

end

/-! ## Stopped at an event -/

section

variable {obs : Observer σ ε} (hobs : obs.Passive) {p : Program} {memory : Memory} {why : ε}
  {limit n : Nat} {seen : σ}
include hobs

/-- If there is an event to stop at, the evaluation ends at it, and the observer has been shown the
events up to it. -/
theorem Program.evaluate_of_stopsAt (hlimit : n + 1 < limit)
    (hstops : obs.StopsAt why n seen (p.eventsLeftAlone ε limit memory)) {sc : Scene}
    (hsc : p.sceneAt memory n = some sc) :
    p.evaluate obs limit memory seen = (.error (.interrupted why),
      ⟨Machine.unwind sc.machine.calls sc.memory,
        obs.shown seen ((p.eventsLeftAlone ε limit memory).take (n + 1))⟩) := by
  have htrail : obs.StopsAt why n seen ((Scene.start p memory).trail (n + 1)) := by
    obtain ⟨hpasses, hstop⟩ := hstops
    rw [← take_eventsLeftAlone (ε := ε) (Nat.le_of_lt hlimit)]
    refine ⟨?_, fun s hs => ?_⟩
    · rwa [List.take_take, Nat.min_eq_left (Nat.le_succ n)]
    · rw [List.getElem?_take, if_pos (Nat.lt_succ_self n)] at hs
      rw [List.take_take, Nat.min_eq_left (Nat.le_succ n)]
      exact hstop s hs
  rw [take_eventsLeftAlone (Nat.le_of_lt hlimit)]
  exact Program.evaluate_of_stopped hobs htrail hsc hlimit

/-- If there is none, the evaluation is the one that is left alone. -/
theorem Program.evaluate_of_passes (hlimit : n + 1 < limit)
    (hstops : obs.StopsAt why n seen (p.eventsLeftAlone ε limit memory))
    (hsc : p.sceneAt memory n = none) :
    p.evaluate obs limit memory seen = ((p.leftAlone ε limit memory).1,
        ⟨(p.leftAlone ε limit memory).2.memory,
          obs.shown seen (p.eventsLeftAlone ε limit memory)⟩) ∧
      (p.leftAlone ε limit memory).1 ≠ .error .tooDeep := by
  obtain ⟨k, last, memory', outcome, hk, hlast, hend⟩ := Program.exists_last ε hsc
  have hk' : k + 1 < limit := by omega
  obtain ⟨hleft, hdeep⟩ := Program.leftAlone_of_last hlast hend hk'
  have hevents : p.eventsLeftAlone ε limit memory = (Scene.start p memory).trail (k + 1) :=
    congrArg (·.2.seen.2) hleft
  have hpasses := hstops.1
  have hshort : ((Scene.start p memory).trail (k + 1)).length ≤ n := by
    rw [Scene.length_trail hlast]
    omega
  rw [hevents, List.take_of_length_le hshort] at hpasses
  rw [hevents, hleft]
  exact ⟨(Program.evaluate_of_last hobs hpasses hlast hend hk').1, hdeep⟩

end

/-! ## Executions -/

namespace Execution

theorem watch_passive (context : Context) : (watch context).Passive := fun _ _ _ => rfl

theorem watch_stopsAfter (context : Context) (why : Interrupt) (n : Nat) (journal : Journal) :
    (watch context).StopsAfter why n { signal := .after n why, journal } := by
  induction n generalizing journal with
  | zero => exact fun _ _ => rfl
  | succ n ih => exact fun ev _ => ⟨rfl, ih (journal.record context ev.kind.name)⟩

theorem names?_shown_watch (context : Context) (w : Watch) (events : List Observer.Sighting) :
    ((watch context).shown w events).journal.names? context =
      (w.journal.names? context).map (· ++ events.map fun s => s.event.kind.name) := by
  induction events generalizing w with
  | nil => simp [Observer.shown]
  | cons s events ih =>
    show ((watch context).shown _ events).journal.names? context = _
    rw [ih]
    show ((w.journal.record context s.event.kind.name).names? context).map _ = _
    rw [Journal.names?_record, Option.map_map]
    congr 1
    funext names
    simp

end Execution

theorem Program.execute_eq (p : Program) (limit : Nat) (signal : Signal) (context : Context)
    (journal : Journal) :
    (p.execute limit signal context journal).journal =
        (p.evaluate (Execution.watch context) limit .fresh { signal, journal }).2.seen.journal ∧
      (p.execute limit signal context journal).outcome =
        (p.evaluate (Execution.watch context) limit .fresh { signal, journal }).1.mapError
          .stopped := by
  unfold execute
  rcases p.evaluate (Execution.watch context) limit .fresh { signal, journal } with ⟨why | v, run⟩
  · exact ⟨rfl, rfl⟩
  · exact ⟨rfl, rfl⟩

/-- An execution under a signal that lets `n` events pass. -/
theorem Program.execute_after (p : Program) {limit n : Nat} (hlimit : n + 1 < limit)
    (why : Interrupt) (context : Context) (journal : Journal) :
    (p.execute limit (.after n why) context journal).journal.names? context =
        (journal.names? context).map
          (· ++ ((p.eventsLeftAlone Interrupt limit .fresh).take (n + 1)).map
            fun s => s.event.kind.name) ∧
      ((p.execute limit (.after n why) context journal).outcome =
          .error (.stopped (.interrupted why)) ↔
        n < (p.eventsLeftAlone Interrupt limit .fresh).length) := by
  have hpassive := Execution.watch_passive context
  have hstops := (Execution.watch_stopsAfter context why n journal).stopsAt
    (p.eventsLeftAlone Interrupt limit .fresh)
  have hevent : (p.eventsLeftAlone Interrupt limit .fresh)[n]? =
      (p.sceneAt .fresh n).map Scene.sighting :=
    Program.getElem?_eventsLeftAlone (by omega)
  obtain ⟨hjournal, houtcome⟩ := p.execute_eq limit (.after n why) context journal
  rw [hjournal, houtcome]
  cases hsc : p.sceneAt .fresh n with
  | some sc =>
    rw [hsc] at hevent
    rw [Program.evaluate_of_stopsAt hpassive hlimit hstops hsc]
    refine ⟨Execution.names?_shown_watch context _ _, fun _ => ?_, fun _ => rfl⟩
    exact (List.getElem?_eq_some_iff.mp hevent).1
  | none =>
    rw [hsc] at hevent
    have hshort : (p.eventsLeftAlone Interrupt limit .fresh).length ≤ n :=
      List.getElem?_eq_none_iff.mp hevent
    rw [(Program.evaluate_of_passes hpassive hlimit hstops hsc).1,
      List.take_of_length_le (Nat.le_succ_of_le hshort)]
    refine ⟨Execution.names?_shown_watch context _ _, fun hstopped => ?_, fun hlong => ?_⟩
    · -- Left alone, an evaluation does not end for the reason of an observer.
      obtain ⟨k, last, memory', outcome, hk, hlast, hend⟩ := Program.exists_last Interrupt hsc
      have hk' : k + 1 < limit := by omega
      obtain ⟨hleft, -⟩ := Program.leftAlone_of_last hlast hend hk'
      rw [hleft] at hstopped
      rcases outcome with stop | v
      · cases hstopped
        exact absurd hend Machine.resume_ne_interrupted
      · cases hstopped
    · omega

/-! ## The prefix -/

/-- Let an observer look on that lets `n` events pass and stops at the next.  If there is a next
event, the evaluation ends at it with the observer's reason: the observer has been shown the events
of the evaluation left alone up to that one, the frames hold what they held there, and of the
environments nothing is gone but frames of running calls.  If there is none, it is the evaluation
left alone.  Either way it does not depend on the `limit` on calls to end.  So an execution under a
signal that lets `n` events pass traces the first `n + 1` events, and it is cancelled exactly if
there are as many. -/
theorem stopping_truncates {obs : Observer σ ε} (hobs : obs.Passive) (p : Program)
    (memory : Memory) {why : ε} {limit n : Nat} (hlimit : n + 1 < limit) {seen : σ}
    (hstops : obs.StopsAt why n seen (p.eventsLeftAlone ε limit memory)) :
    (let result := p.evaluate obs limit memory seen
      let left := p.leftAlone ε limit memory
      let events := p.eventsLeftAlone ε limit memory
      result.1 ≠ .error .tooDeep ∧
      (∀ s, events[n]? = some s → result.1 = .error (.interrupted why) ∧
        p.sightings obs limit memory seen = events.take (n + 1) ∧
        result.2.memory.store.frames = s.store.frames ∧
        ∀ e, result.2.memory.store.chain e <:+ s.store.chain e) ∧
      (events.length ≤ n → result.1 = left.1 ∧ p.sightings obs limit memory seen = events ∧
        result.2.memory = left.2.memory)) ∧
    ∀ context journal,
      let events := p.eventsLeftAlone Interrupt limit .fresh
      let execution := p.execute limit (.after n .canceled) context journal
      execution.journal.names? context =
        (journal.names? context).map (· ++ (events.take (n + 1)).map fun s => s.event.kind.name) ∧
      (execution.outcome = .error (.stopped (.interrupted .canceled)) ↔ n < events.length) := by
  refine ⟨?_, p.execute_after hlimit .canceled⟩
  have hwitnessed : obs.witnessed.Passive := fun ev s seen => hobs ev s seen.1
  have hstops' : obs.witnessed.StopsAt why n (seen, []) (p.eventsLeftAlone ε limit memory) :=
    obs.stopsAt_witnessed.mpr hstops
  have hevent : (p.eventsLeftAlone ε limit memory)[n]? = (p.sceneAt memory n).map Scene.sighting :=
    Program.getElem?_eventsLeftAlone (by omega)
  simp only [Program.sightings]
  cases hsc : p.sceneAt memory n with
  | some sc =>
    rw [hsc] at hevent
    rw [Program.evaluate_of_stopsAt hobs hlimit hstops hsc,
      Program.evaluate_of_stopsAt hwitnessed hlimit hstops' hsc, Observer.shown_witnessed]
    refine ⟨nofun, fun s hs => ?_, fun hshort => ?_⟩
    · obtain rfl : sc.sighting = s := Option.some.inj (hevent.symm.trans hs)
      exact ⟨rfl, rfl, Machine.frames_unwind _ _, Machine.chain_unwind_suffix _ _⟩
    · rw [List.getElem?_eq_none hshort] at hevent
      cases hevent
  | none =>
    rw [hsc] at hevent
    obtain ⟨heq, hdeep⟩ := Program.evaluate_of_passes hobs hlimit hstops hsc
    rw [heq, (Program.evaluate_of_passes hwitnessed hlimit hstops' hsc).1,
      Observer.shown_witnessed]
    refine ⟨hdeep, fun s hs => ?_, fun _ => ⟨rfl, rfl, rfl⟩⟩
    cases hevent.symm.trans hs

/-- The evaluation that never ends, stopped at its 21st event and cancelled there; and the one that
ends after 9 events, where the observer waits in vain for the 21st. -/
theorem endless_selfApplied_stopping_truncates :
    ((endless.evaluate (.scripted [] 21 ()) 22 .fresh #[]).1 = .error (.interrupted ()) ∧
      endless.sightings (.scripted [] 21 ()) 22 .fresh #[] =
        (endless.eventsLeftAlone Unit 22 .fresh).take 21 ∧
      (endless.execute 22 (.after 20 .canceled) (.tracing 0 .background)
          { traces := #[{ start := 0 }] }).journal.names? (.tracing 0 .background) =
        some (((endless.eventsLeftAlone Interrupt 22 .fresh).take 21).map
          fun s => s.event.kind.name) ∧
      (endless.execute 22 (.after 20 .canceled) (.tracing 0 .background)
          { traces := #[{ start := 0 }] }).outcome =
        .error (.stopped (.interrupted .canceled))) ∧
    (selfApplied.evaluate (.scripted [] 21 ()) 22 .fresh #[]).1 =
      (selfApplied.leftAlone Unit 22 .fresh).1 := by
  have hafter : (Observer.scripted [] 21 ()).StopsAfter () 20 #[] :=
    Observer.scripted_stopsAfter () (by decide)
  have hstops := hafter.stopsAt
  have hpassive := Observer.scripted_passive 21 ()
  have hlimit : 20 + 1 < 22 := by decide
  refine ⟨?_, ?_⟩
  · obtain ⟨sc, hsc⟩ : ∃ sc, endless.sceneAt .fresh 20 = some sc :=
      Option.isSome_iff_exists.mp (by decide +kernel)
    have hevent : ∀ ε, (endless.eventsLeftAlone ε 22 .fresh)[20]? = some sc.sighting := by
      intro ε
      rw [Program.getElem?_eventsLeftAlone (by decide), hsc]
      rfl
    have htruncates := stopping_truncates hpassive endless .fresh hlimit
      (hstops (endless.eventsLeftAlone Unit 22 .fresh))
    have hstopped := htruncates.1.2.1 sc.sighting (hevent Unit)
    have hexecution := htruncates.2 (.tracing 0 .background) { traces := #[{ start := 0 }] }
    have hnames := hexecution.1
    have hempty : ({ traces := #[{ start := 0 }] } : Journal).names? (.tracing 0 .background) =
        some [] := rfl
    rw [hempty, Option.map_some, List.nil_append] at hnames
    exact ⟨hstopped.1, hstopped.2.1, hnames,
      hexecution.2.mpr (List.getElem?_eq_some_iff.mp (hevent Interrupt)).1⟩
  · have hnone : (selfApplied.eventsLeftAlone Unit 22 .fresh)[20]? = none := by
      rw [Program.getElem?_eventsLeftAlone (by decide), Option.map_eq_none_iff,
        ← Option.isNone_iff_eq_none]
      decide +kernel
    have htruncates := stopping_truncates hpassive selfApplied .fresh hlimit
      (hstops (selfApplied.eventsLeftAlone Unit 22 .fresh))
    exact (htruncates.1.2.2 (List.getElem?_eq_none_iff.mp hnone)).1

end Stepwise
