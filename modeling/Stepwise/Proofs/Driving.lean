/-
A walk under any driver.

A driver asks for the next event, asks for the result, closes the walk or has it cancelled, in any
order and as often as it likes.  What it is told is a list of reports (`Walk.Driven`).  Left alone,
a walk only ever goes forward, so all that was done with it amounts to a number of calls of `next`
(`Driven.eq_skip`); once over, it never changes again (`Driven.over`).  The two together say how
every walk ends: either it was walked to the end first and then keeps the outcome of the evaluation,
or it was stopped first and then keeps the interruption.
-/
import Mathlib.Algebra.GroupWithZero.Nat
import Stepwise.Proofs.Bookkeeping
import Stepwise.Proofs.Endings

namespace Stepwise

open Observer (Sighting)

namespace Walk

/-! ## Going forward -/

def events : Nat → Walk → List Sighting
  | 0, _ => []
  | n + 1, w => w.answer.toList ++ events n w.next.2

theorem events_add (n k : Nat) (w : Walk) :
    w.events (n + k) = w.events n ++ (w.skip n).events k := by
  induction n generalizing w with
  | zero => rw [Nat.zero_add]; rfl
  | succ n ih =>
    rw [Nat.add_right_comm, events, events, ih, List.append_assoc]
    rfl

theorem length_events_le (n : Nat) (w : Walk) : (w.events n).length ≤ n := by
  induction n generalizing w with
  | zero => exact Nat.le_refl 0
  | succ n ih =>
    have hone : w.answer.toList.length ≤ 1 := by cases w.answer <;> simp
    have hrest := ih w.next.2
    rw [events, List.length_append]
    omega

theorem length_events {n : Nat} {w : Walk} (h : ∀ i < n, (w.skip i).answer ≠ none) :
    (w.events n).length = n := by
  induction n with
  | zero => rfl
  | succ n ih =>
    obtain ⟨s, hs⟩ := Option.ne_none_iff_exists'.mp (h n (Nat.lt_succ_self n))
    rw [events_add, List.length_append, ih fun i hi => h i (Nat.lt_succ_of_lt hi), events, hs]
    rfl

/-- Where each of `n` calls was answered as an entry of a list, the answers are its front. -/
theorem events_eq_take {w : Walk} {l : List Sighting} {n : Nat}
    (h : ∀ i < n, (w.skip i).answer = l[i]?) : w.events n = l.take n := by
  induction n with
  | zero => rfl
  | succ n ih =>
    have hlast : (w.skip n).events 1 = l[n]?.toList := by
      rw [events, h n (Nat.lt_succ_self n)]
      exact List.append_nil _
    rw [events_add, ih fun i hi => h i (Nat.lt_succ_of_lt hi), hlast, List.take_add_one]

theorem next_of_over {w : Walk} {outcome : Except (Stop Interrupt) Value}
    (h : w.phase = .over outcome) : w.next = (none, { w with unsettled := false }) := by
  rw [next, h]

theorem answer_of_over {w : Walk} {outcome : Except (Stop Interrupt) Value}
    (h : w.phase = .over outcome) : w.answer = none := by
  rw [answer, next_of_over h]
  rfl

theorem over_of_answer {w : Walk} (h : w.answer = none) :
    ∃ outcome, w.next.2.phase = .over outcome := by
  have hnone : w.next.1 = none := Option.map_eq_none_iff.mp h
  rcases hahead : w.ahead with ⟨memory, m | outcome⟩
  · cases (next_of_parked hahead).1.symm.trans hnone
  · exact ⟨outcome, (next_of_ended hahead).2⟩

theorem events_of_over {w : Walk} {outcome : Except (Stop Interrupt) Value}
    (h : w.phase = .over outcome) (n : Nat) : w.events n = [] := by
  induction n generalizing w with
  | zero => rfl
  | succ n ih =>
    rw [events, answer_of_over h, next_of_over h]
    exact ih h

/-- Calls past the end deliver nothing, so as many calls as there are events are enough. -/
theorem events_length (n : Nat) (w : Walk) : w.events (w.events n).length = w.events n := by
  induction n generalizing w with
  | zero => rfl
  | succ n ih =>
    rw [events]
    cases hanswer : w.answer with
    | some s =>
      show w.events ((w.next.2.events n).length + 1) = _
      rw [events, hanswer, ih]
    | none =>
      obtain ⟨outcome, hover⟩ := over_of_answer hanswer
      rw [events_of_over hover]
      rfl

theorem entered_skip (n : Nat) (w : Walk) : Entered w (w.events n) (w.skip n) := by
  induction n generalizing w with
  | zero => exact .nil rfl rfl rfl rfl rfl
  | succ n ih => exact (entered_next w).trans (ih w.next.2)

/-- Going on to the end is calling `next` until it says that there are no more events. -/
theorem result_eq_skip {w w' : Walk} {outcome : Except (Stop Interrupt) Value} {limit : Nat}
    (h : w.result limit = (some outcome, w')) :
    ∃ n, (∀ i < n, (w.skip i).answer ≠ none) ∧ (w.skip n).answer = none ∧
      w.events limit = w.events n ∧ w' = w.skip (n + 1) ∧ w'.phase = .over outcome := by
  induction limit generalizing w with
  | zero => cases h
  | succ limit ih =>
    rw [result] at h
    rcases hnext : w.next with ⟨ev | ev, w₁⟩
    · rw [hnext] at h
      have hanswer : w.answer = none := by
        rw [answer, hnext]
        rfl
      obtain ⟨outcome', hover⟩ := over_of_answer hanswer
      rw [hnext] at hover
      simp only at hover h
      rw [hover] at h
      cases h
      refine ⟨0, fun i hi => absurd hi (Nat.not_lt_zero i), hanswer, ?_, ?_, hover⟩
      · show w.answer.toList ++ w.next.2.events limit = []
        rw [hanswer, hnext, events_of_over hover]
        rfl
      · rw [skip, hnext]
        rfl
    · rw [hnext] at h
      obtain ⟨n, hsome, hnone, hevents, hw', hphase⟩ := ih h
      obtain rfl : w.next.2 = w₁ := congrArg Prod.snd hnext
      refine ⟨n + 1, ?_, hnone, ?_, hw', hphase⟩
      · intro i hi
        cases i with
        | zero =>
          intro hnone
          rw [skip, answer, hnext] at hnone
          cases hnone
        | succ i => exact hsome i (Nat.lt_of_succ_lt_succ hi)
      · rw [events, hevents]
        rfl

/-! ## Drivers -/

inductive Operation where
  | next
  | result
  | close
  | cancel
deriving DecidableEq

/-- What came of an operation. -/
inductive Report where
  | next (answer : Option Sighting)
  /-- The events that were passed on the way to the end, and how it ended. -/
  | result (passed : List Sighting) (outcome : Except (Stop Interrupt) Value)
  | closed
  | cancelled

namespace Report

def operation : Report → Operation
  | next _ => .next
  | result .. => .result
  | closed => .close
  | cancelled => .cancel

def delivered : Report → List Sighting
  | next answer => answer.toList
  | result passed _ => passed
  | closed => []
  | cancelled => []

def ends : Report → Bool
  | next answer => answer.isNone
  | result .. => true
  | closed => false
  | cancelled => false

def interrupts : Report → Bool
  | next _ => false
  | result .. => false
  | closed => true
  | cancelled => true

def halts (r : Report) : Bool := r.ends || r.interrupts

end Report

def delivered (history : List Report) : List Sighting := history.flatMap Report.delivered

theorem delivered_cons (r : Report) (history : List Report) :
    delivered (r :: history) = r.delivered ++ delivered history := List.flatMap_cons

/-- One operation on a walk.  Asking for the result is one only where the end is reached. -/
inductive Performs : Walk → Report → Walk → Prop where
  | next (w : Walk) : Performs w (.next w.answer) w.next.2
  | result {w w' : Walk} {limit : Nat} {outcome : Except (Stop Interrupt) Value}
      (h : w.result limit = (some outcome, w')) :
      Performs w (.result (w.events limit) outcome) w'
  | close (w : Walk) : Performs w .closed w.close
  | cancel (w : Walk) : Performs w .cancelled w.cancel

inductive Driven : Walk → List Report → Walk → Prop where
  | nil (w : Walk) : Driven w [] w
  | cons {w w' w'' : Walk} {r : Report} {history : List Report} (first : Performs w r w')
      (rest : Driven w' history w'') : Driven w (r :: history) w''

section

variable {w w' w₁ w₂ : Walk} {r r₁ r₂ : Report} {history before after : List Report}
  {outcome : Except (Stop Interrupt) Value}

/-- Unless it stops the walk, an operation is a number of calls of `next`. -/
theorem Performs.eq_skip (h : Performs w r w') (hr : r.interrupts = false) :
    ∃ n, w' = w.skip n ∧ r.delivered = w.events n ∧
      (r.ends = true → ∃ outcome, w'.phase = .over outcome) := by
  cases h with
  | next =>
    refine ⟨1, rfl, (List.append_nil _).symm, fun hends => ?_⟩
    exact over_of_answer (Option.isNone_iff_eq_none.mp hends)
  | result h =>
    obtain ⟨n, -, hnone, hevents, hw', hphase⟩ := result_eq_skip h
    refine ⟨n + 1, hw', ?_, fun _ => ⟨_, hphase⟩⟩
    have hlast : (w.skip n).events 1 = [] := by
      rw [events, hnone]
      rfl
    show w.events _ = _
    rw [hevents, events_add, hlast, List.append_nil]
  | close => cases hr
  | cancel => cases hr

theorem Performs.interrupted (h : Performs w r w') (hr : r.interrupts = true) :
    r.delivered = [] ∧ ∃ unsettled, w' = { w.stop .canceled with unsettled } := by
  cases h with
  | next => cases hr
  | result => cases hr
  | close => exact ⟨rfl, false, rfl⟩
  | cancel => exact ⟨rfl, true, rfl⟩

theorem stop_of_over (h : w.phase = .over outcome) (why : Interrupt) : w.stop why = w := by
  rw [stop, h]

theorem over_stop (w : Walk) (why : Interrupt) : ∃ outcome, (w.stop why).phase = .over outcome := by
  unfold stop
  rcases hphase : w.phase with m | m | outcome
  · exact ⟨_, rfl⟩
  · exact ⟨_, rfl⟩
  · exact ⟨outcome, hphase⟩

theorem skip_of_over (h : w.phase = .over outcome) (n : Nat) :
    (w.skip n).phase = .over outcome ∧ (w.skip n).memory = w.memory := by
  induction n generalizing w with
  | zero => exact ⟨h, rfl⟩
  | succ n ih =>
    rw [skip, next_of_over h]
    exact ih h

theorem Performs.over (h : Performs w r w') (hover : w.phase = .over outcome) :
    w'.phase = .over outcome ∧ w'.memory = w.memory ∧ r.delivered = [] := by
  cases hr : r.interrupts with
  | false =>
    obtain ⟨n, rfl, hdelivered, -⟩ := h.eq_skip hr
    obtain ⟨hphase, hmemory⟩ := skip_of_over hover n
    exact ⟨hphase, hmemory, hdelivered.trans (events_of_over hover n)⟩
  | true =>
    obtain ⟨hdelivered, unsettled, rfl⟩ := h.interrupted hr
    rw [stop_of_over hover]
    exact ⟨hover, rfl, hdelivered⟩

theorem Driven.over (h : Driven w history w') (hover : w.phase = .over outcome) :
    w'.phase = .over outcome ∧ w'.memory = w.memory ∧ delivered history = [] := by
  induction h with
  | nil => exact ⟨hover, rfl, rfl⟩
  | cons first rest ih =>
    obtain ⟨hphase, hmemory, hdelivered⟩ := first.over hover
    obtain ⟨hphase', hmemory', hdelivered'⟩ := ih hphase
    refine ⟨hphase', hmemory'.trans hmemory, ?_⟩
    rw [delivered_cons, hdelivered, hdelivered', List.append_nil]

theorem Performs.halted (h : Performs w r w') (hr : r.halts = true) :
    ∃ outcome, w'.phase = .over outcome := by
  cases hi : r.interrupts with
  | false =>
    obtain ⟨n, -, -, hends⟩ := h.eq_skip hi
    rw [Report.halts, hi, Bool.or_false] at hr
    exact hends hr
  | true =>
    obtain ⟨-, unsettled, rfl⟩ := h.interrupted hi
    exact over_stop w .canceled

theorem Driven.halted (h : Driven w history w') (hhalted : ∃ r ∈ history, r.halts = true) :
    ∃ outcome, w'.phase = .over outcome := by
  induction h with
  | nil =>
    obtain ⟨r, hr, -⟩ := hhalted
    cases hr
  | cons first rest ih =>
    obtain ⟨r, hr, hhalts⟩ := hhalted
    cases hr with
    | head =>
      obtain ⟨outcome, hover⟩ := first.halted hhalts
      exact ⟨outcome, (rest.over hover).1⟩
    | tail _ hr => exact ih ⟨r, hr, hhalts⟩

theorem Driven.split (h : Driven w (before ++ r :: after) w') :
    ∃ w₁ w₂, Driven w before w₁ ∧ Performs w₁ r w₂ ∧ Driven w₂ after w' := by
  induction before generalizing w with
  | nil =>
    cases h with
    | cons first rest => exact ⟨_, _, .nil _, first, rest⟩
  | cons r before ih =>
    cases h with
    | cons first rest =>
      obtain ⟨w₁, w₂, hbefore, hr, hafter⟩ := ih rest
      exact ⟨w₁, w₂, .cons first hbefore, hr, hafter⟩

theorem Driven.eq_skip (h : Driven w history w') (hgoes : ∀ r ∈ history, r.interrupts = false) :
    ∃ n, w' = w.skip n ∧ delivered history = w.events n := by
  induction h with
  | nil => exact ⟨0, rfl, rfl⟩
  | cons first rest ih =>
    obtain ⟨n, rfl, hn, -⟩ := first.eq_skip (hgoes _ (List.mem_cons_self ..))
    obtain ⟨k, rfl, hk⟩ := ih fun r hr => hgoes r (List.mem_cons_of_mem _ hr)
    refine ⟨n + k, (skip_add n k _).symm, ?_⟩
    rw [events_add, ← hn, ← hk, delivered_cons]

/-- All that is delivered are the events of so many calls of `next`, stopped or not. -/
theorem Driven.delivered_eq (h : Driven w history w') : ∃ n, delivered history = w.events n := by
  induction h with
  | nil => exact ⟨0, rfl⟩
  | @cons w w' w'' r history first rest ih =>
    cases hr : r.interrupts with
    | false =>
      obtain ⟨n, rfl, hn, -⟩ := first.eq_skip hr
      obtain ⟨k, hk⟩ := ih
      refine ⟨n + k, ?_⟩
      rw [events_add, ← hn, ← hk, delivered_cons]
    | true =>
      have hhalts : r.halts = true := by rw [Report.halts, hr, Bool.or_true]
      obtain ⟨outcome, hover⟩ := first.halted hhalts
      refine ⟨0, ?_⟩
      rw [delivered_cons, (first.interrupted hr).1, (rest.over hover).2.2]
      rfl

theorem Performs.entered (h : Performs w r w') : Entered w r.delivered w' := by
  cases hr : r.interrupts with
  | false =>
    obtain ⟨n, rfl, hn, -⟩ := h.eq_skip hr
    rw [hn]
    exact entered_skip n w
  | true =>
    obtain ⟨hdelivered, unsettled, rfl⟩ := h.interrupted hr
    have hstop := entered_stop w .canceled
    rw [hdelivered]
    exact ⟨hstop.context, hstop.steps, hstop.counted, hstop.traced, hstop.noted⟩

theorem Driven.entered (h : Driven w history w') : Entered w (delivered history) w' := by
  induction h with
  | nil => exact .nil rfl rfl rfl rfl rfl
  | cons first rest ih => exact first.entered.trans ih

/-- A driver that has not been told of an end and has not stopped the walk has called `next`,
once for each event. -/
theorem Driven.eq_skip_delivered (h : Driven w history w')
    (hgoes : ∀ r ∈ history, r.halts = false) :
    w' = w.skip (delivered history).length ∧
      (w.events (delivered history).length).length = (delivered history).length := by
  induction h with
  | nil => exact ⟨rfl, rfl⟩
  | @cons w w' w'' r history first rest ih =>
    have hfirst := hgoes _ (List.mem_cons_self ..)
    obtain ⟨hskip, hlength⟩ := ih fun r hr => hgoes r (List.mem_cons_of_mem _ hr)
    cases first with
    | result | close | cancel => cases hfirst
    | next =>
      cases hanswer : w.answer with
      | none =>
        rw [hanswer] at hfirst
        cases hfirst
      | some s =>
        have hcount : (delivered (.next (some s) :: history)).length =
            (delivered history).length + 1 := rfl
        rw [hcount]
        refine ⟨hskip, ?_⟩
        rw [events, hanswer, List.length_append, hlength]
        exact Nat.add_comm _ _

def Unfinished (w : Walk) : Prop :=
  ∀ outcome, w.phase = .over outcome → outcome = .error (.interrupted .canceled)

theorem Unfinished.stop (h : w.Unfinished) :
    (w.stop .canceled).phase = .over (.error (.interrupted .canceled)) := by
  unfold Walk.stop
  rcases hphase : w.phase with m | m | outcome
  · rfl
  · rfl
  · rw [hphase, h outcome hphase]

theorem Performs.unfinished (h : Performs w r w') (hw : w.Unfinished) (hr : r.ends = false) :
    w'.Unfinished := by
  cases h with
  | result => cases hr
  | close | cancel =>
    intro outcome hover
    exact Phase.over.inj (hover.symm.trans hw.stop)
  | next =>
    intro outcome hover
    rcases hahead : w.ahead with ⟨memory, m | outcome'⟩
    · cases hover.symm.trans (next_of_parked hahead).2.1
    · have hended : w.Ended outcome' := ⟨memory, hahead⟩
      rw [hended.answer] at hr
      cases hr

theorem Driven.unfinished (h : Driven w history w') (hw : w.Unfinished)
    (hends : ∀ r ∈ history, r.ends = false) : w'.Unfinished := by
  induction h with
  | nil => exact hw
  | cons first rest ih =>
    have hfirst := first.unfinished hw (hends _ (List.mem_cons_self ..))
    exact ih hfirst fun r hr => hends r (List.mem_cons_of_mem _ hr)

theorem Ended.of_over (h : w.phase = .over outcome) : w.Ended outcome := by
  refine ⟨w.memory, ?_⟩
  rw [ahead, h]

/-! ## Two drivers -/

theorem Performs.unique (h₁ : Performs w r₁ w₁) (h₂ : Performs w r₂ w₂)
    (hop : r₁.operation = r₂.operation) : r₁ = r₂ ∧ w₁ = w₂ := by
  cases h₁ with
  | next =>
    cases h₂ with
    | next => exact ⟨rfl, rfl⟩
    | result | close | cancel => cases hop
  | close =>
    cases h₂ with
    | close => exact ⟨rfl, rfl⟩
    | next | result | cancel => cases hop
  | cancel =>
    cases h₂ with
    | cancel => exact ⟨rfl, rfl⟩
    | next | result | close => cases hop
  | result h =>
    cases h₂ with
    | next | close | cancel => cases hop
    | result h' =>
      -- The end is where there are no more events, wherever the calls were to stop.
      obtain ⟨n, hsome, hnone, hevents, rfl, hphase⟩ := result_eq_skip h
      obtain ⟨k, hsome', hnone', hevents', rfl, hphase'⟩ := result_eq_skip h'
      have hkn : ¬ k < n := fun hk => hsome k hk hnone'
      have hnk : ¬ n < k := fun hn => hsome' n hn hnone
      obtain rfl : n = k := by omega
      rw [hphase] at hphase'
      cases hphase'
      rw [hevents, hevents']
      exact ⟨rfl, rfl⟩

/-- What a driver is told depends on nothing but what it does. -/
theorem Driven.unique {history₁ history₂ : List Report} (h₁ : Driven w history₁ w₁)
    (h₂ : Driven w history₂ w₂)
    (hops : history₁.map Report.operation = history₂.map Report.operation) :
    history₁ = history₂ ∧ w₁ = w₂ := by
  induction h₁ generalizing history₂ with
  | nil =>
    cases h₂ with
    | nil => exact ⟨rfl, rfl⟩
    | cons => cases hops
  | cons first rest ih =>
    cases h₂ with
    | nil => cases hops
    | cons first' rest' =>
      obtain ⟨hop, hrest⟩ := List.cons.inj hops
      obtain ⟨rfl, rfl⟩ := first.unique first' hop
      obtain ⟨rfl, rfl⟩ := ih rest' hrest
      exact ⟨rfl, rfl⟩

end

/-! ## Walks from the start -/

variable {p : Program} {context : Context} {journal : Journal}

/-- A walk that has ended has ended as the evaluation in a single run. -/
theorem recorded_of_ended {n : Nat} {outcome : Except (Stop Interrupt) Value}
    (h : ((start p .quiet context journal).skip n).Ended outcome) :
    ∃ bound, ∀ limit, bound < limit →
      (p.recorded limit).1 = outcome ∧ outcome ≠ .error .tooDeep := by
  have hstart : (start p .quiet context journal).Meets (.start p .fresh) := ⟨_, rfl, rfl⟩
  have hpassive : (Observer.silent (ε := Interrupt)).witnessed.Passive := fun _ _ _ => rfl
  have hun : (Observer.silent (ε := Interrupt)).witnessed.Unstopping := fun _ _ _ => rfl
  have hnone : p.sceneAt .fresh n = none := by
    rw [← Option.map_eq_none_iff, ← answer_start p context journal n]
    exact h.answer
  obtain ⟨k, last, hk, hlast, hlast'⟩ := Scene.after_eq_none hnone
  rcases last.resume_cases Interrupt with ⟨_, hnext, -⟩ | ⟨memory, outcome', -, hend⟩
  · cases hnext.symm.trans hlast'
  obtain ⟨memory₁, hahead⟩ := h
  obtain ⟨memory₂, hahead'⟩ := hstart.skip_ended hlast hend hk
  cases hahead.symm.trans hahead'
  refine ⟨k + 1, fun limit hlimit => ?_⟩
  obtain ⟨heq, hdeep⟩ := Program.evaluate_of_last hpassive (hun.passes ((), []) _) hlast hend hlimit
  exact ⟨congrArg Prod.fst heq, hdeep⟩

/-- How an evaluation in a single run ends, and with which store, that is stopped at event `k`;
event 0 is before there is any. -/
def stoppedAt (p : Program) (k limit : Nat) (why : Interrupt) :
    Except (Stop Interrupt) Value × Store :=
  if k = 0 then (.error (.interrupted why), Memory.fresh.store)
  else
    let (outcome, run) := p.evaluate (.scripted [] k why) limit .fresh #[]
    (outcome, run.memory.store)

theorem stoppedAt_eq {k limit : Nat} (hk : k < limit) (why : Interrupt)
    (hevents : ((start p .quiet context journal).events k).length = k) :
    stoppedAt p k limit why = (.error (.interrupted why),
      (((start p .quiet context journal).skip k).stop .canceled).memory.store) := by
  cases k with
  | zero => rfl
  | succ k =>
    have hstart : (start p .quiet context journal).Meets (.start p .fresh) := ⟨_, rfl, rfl⟩
    -- The last of the events was delivered, so the walk is parked at its scene.
    have hscene : ∃ sc, p.sceneAt .fresh k = some sc := by
      cases hsc : p.sceneAt .fresh k with
      | some sc => exact ⟨sc, rfl⟩
      | none =>
        have hnone : ((start p .quiet context journal).skip k).events 1 = [] := by
          rw [events, answer_start, hsc]
          rfl
        have hle := length_events_le k (start p .quiet context journal)
        rw [events_add, hnone, List.append_nil] at hevents
        omega
    obtain ⟨sc, hsc⟩ := hscene
    obtain ⟨memory, hahead, hstore⟩ := hstart.skip hsc
    obtain ⟨-, hphase, hmemory⟩ := next_of_parked hahead
    have hstops : (Observer.scripted [] (k + 1) why).StopsAfter why k #[] :=
      Observer.scripted_stopsAfter why (by rw [Array.size_empty]; omega)
    have heq :=
      Program.evaluate_of_stopped (Observer.scripted_passive (k + 1) why) (hstops.stopsAt _) hsc hk
    have hskip : (start p .quiet context journal).skip (k + 1) =
        ((start p .quiet context journal).skip k).next.2 := skip_add k 1 _
    have hunwind := (Machine.abort_same (hmemory.trans hstore) sc.machine.calls
      (.interrupted why)).1
    rw [stoppedAt, if_neg (Nat.succ_ne_zero k), heq, hskip, stop, hphase]
    exact Prod.ext rfl hunwind.symm

/-- What is true of a walk after its driver was given these reports. -/
structure Faithful (p : Program) (context : Context) (journal : Journal) (history : List Report)
    (w : Walk) : Prop where
  /-- The events are those of the evaluation in a single run, from the first on. -/
  agrees : ∀ limit,
    (delivered history).length ≤ limit ∨ (p.recorded limit).1 ≠ .error .tooDeep →
      delivered history <+: (p.recorded limit).2.seen.2
  /-- After the end, and after an interruption, there are no more. -/
  halted : (∃ r ∈ history, r.halts = true) → w.next.1 = none
  steps : w.steps = (delivered history).length
  counted : ∀ kind, w.tally.count (Tally.stepKey kind) =
    (delivered history).countP fun s => s.event.kind = kind
  summed : (EventKind.all.map fun kind => w.tally.count (Tally.stepKey kind)).sum = w.steps
  traced : w.journal.names? context =
    (journal.names? context).map (· ++ (delivered history).map fun s => s.event.kind.name)
  noted : w.memory.stepNotes = (delivered history).mapIdx fun i s => s.note (i + 1)
  /-- Walked to the end first, it has the outcome of the evaluation in a single run. -/
  ended : ∀ before r after, history = before ++ r :: after → r.ends = true →
    (∀ r ∈ before, r.interrupts = false) → ∃ bound, ∀ limit, bound < limit →
      (p.recorded limit).1 ≠ .error .tooDeep ∧
        ∀ events, 0 < events → (w.result events).1 = some (p.recorded limit).1
  /-- Interrupted first, it says so. -/
  interrupted : ∀ before r after, history = before ++ r :: after → r.interrupts = true →
    (∀ r ∈ before, r.ends = false) →
      ∀ events, 0 < events → (w.result events).1 = some (.error (.interrupted .canceled))
  /-- The environments are then left as by an evaluation that is stopped at the last event. -/
  unwound : ∀ before r after, history = before ++ r :: after → r.interrupts = true →
    (∀ r ∈ before, r.halts = false) → ∀ limit why, (delivered before).length < limit →
      stoppedAt p (delivered before).length limit why =
        (.error (.interrupted why), w.memory.store)

theorem sum_countP_kind (l : List Sighting) :
    (EventKind.all.map fun kind => l.countP fun s => s.event.kind = kind).sum = l.length := by
  induction l with
  | nil => rfl
  | cons s l ih =>
    simp only [List.countP_cons, EventKind.all, List.map_cons, List.map_nil, List.sum_cons,
      List.sum_nil, List.length_cons] at ih ⊢
    cases s.event.kind <;> simp <;> omega

section

variable {history before after : List Report} {r : Report} {w : Walk}

theorem Driven.agrees (h : Driven (.start p .quiet context journal) history w) {limit : Nat}
    (hlimit : (delivered history).length ≤ limit ∨ (p.recorded limit).1 ≠ .error .tooDeep) :
    delivered history <+: (p.recorded limit).2.seen.2 := by
  have hpassive : (Observer.silent (ε := Interrupt)).Passive := fun _ _ _ => rfl
  have hun : (Observer.silent (ε := Interrupt)).Unstopping := fun _ _ _ => rfl
  obtain ⟨n, hn⟩ := h.delivered_eq
  have hlength := events_length n (start p .quiet context journal)
  rw [← hn] at hlength
  rw [← hlength, events_eq_take (l := (p.recorded limit).2.seen.2)]
  · exact List.take_prefix _ _
  · intro i hi
    have hfelt : i < limit ∨ (p.recorded limit).1 ≠ .error .tooDeep :=
      hlimit.imp_left fun hle => Nat.lt_of_lt_of_le hi hle
    rw [answer_start]
    exact (Program.sightings_complete hpassive hun hfelt).symm

theorem Driven.result_of_ends
    (h : Driven (.start p .quiet context journal) (before ++ r :: after) w) (hends : r.ends = true)
    (hgoes : ∀ r ∈ before, r.interrupts = false) :
    ∃ bound, ∀ limit, bound < limit → (p.recorded limit).1 ≠ .error .tooDeep ∧
      ∀ events, 0 < events → (w.result events).1 = some (p.recorded limit).1 := by
  obtain ⟨w₁, w₂, hbefore, hr, hafter⟩ := h.split
  have hgoes' : r.interrupts = false := by
    cases r with
    | next | result => rfl
    | closed | cancelled => cases hends
  obtain ⟨n, rfl, -⟩ := hbefore.eq_skip hgoes
  obtain ⟨k, rfl, -, hover⟩ := hr.eq_skip hgoes'
  obtain ⟨outcome, hover⟩ := hover hends
  have hended := Ended.of_over hover
  rw [← skip_add] at hended
  obtain ⟨bound, hbound⟩ := recorded_of_ended hended
  refine ⟨bound, fun limit hlimit => ?_⟩
  obtain ⟨heq, hdeep⟩ := hbound limit hlimit
  rw [heq]
  exact ⟨hdeep, fun events => (Ended.of_over (hafter.over hover).1).result⟩

theorem Driven.result_of_interrupts
    (h : Driven (.start p .quiet context journal) (before ++ r :: after) w)
    (hr : r.interrupts = true) (hends : ∀ r ∈ before, r.ends = false) {events : Nat}
    (hevents : 0 < events) :
    (w.result events).1 = some (.error (.interrupted .canceled)) := by
  obtain ⟨w₁, w₂, hbefore, hfirst, hafter⟩ := h.split
  have hstart : (start p .quiet context journal).Unfinished := fun outcome hover => by cases hover
  have hunfinished := hbefore.unfinished hstart hends
  obtain ⟨-, unsettled, rfl⟩ := hfirst.interrupted hr
  exact (Ended.of_over (hafter.over hunfinished.stop).1).result hevents

theorem Driven.stoppedAt_eq
    (h : Driven (.start p .quiet context journal) (before ++ r :: after) w)
    (hr : r.interrupts = true) (hgoes : ∀ r ∈ before, r.halts = false) {limit : Nat}
    (why : Interrupt) (hlimit : (delivered before).length < limit) :
    stoppedAt p (delivered before).length limit why =
      (.error (.interrupted why), w.memory.store) := by
  obtain ⟨w₁, w₂, hbefore, hfirst, hafter⟩ := h.split
  obtain ⟨rfl, hevents⟩ := hbefore.eq_skip_delivered hgoes
  have hhalts : r.halts = true := by rw [Report.halts, hr, Bool.or_true]
  obtain ⟨outcome, hover⟩ := hfirst.halted hhalts
  rw [Walk.stoppedAt_eq hlimit why hevents, (hafter.over hover).2.1]
  obtain ⟨-, unsettled, rfl⟩ := hfirst.interrupted hr
  rfl

end
end Walk

/-- Whatever a driver does with a walk, in whatever order and as often as it likes, the walk is
faithful to the evaluation in a single run, and its books to what it has delivered. -/
theorem driven_walk_faithful {p : Program} {context : Context} {journal : Journal}
    {history : List Walk.Report} {w : Walk}
    (h : Walk.Driven (.start p .quiet context journal) history w) :
    Walk.Faithful p context journal history w := by
  -- At the start nothing has been counted or noted.
  have hbooks := h.entered
  have hzero : ∀ n, 0 + n = n := Nat.zero_add
  have hsteps : w.steps = (Walk.delivered history).length := hbooks.steps.trans (hzero _)
  have hcounted : ∀ kind, w.tally.count (Tally.stepKey kind) =
      (Walk.delivered history).countP fun s => s.event.kind = kind :=
    fun kind => (hbooks.counted kind).trans (hzero _)
  constructor
  case agrees => exact fun limit => h.agrees
  case halted =>
    intro hhalted
    obtain ⟨outcome, hover⟩ := h.halted hhalted
    rw [Walk.next_of_over hover]
  case steps => exact hsteps
  case counted => exact hcounted
  case summed =>
    simp only [hcounted, hsteps]
    exact Walk.sum_countP_kind _
  case traced => exact hbooks.traced
  case noted =>
    have hnoted := hbooks.noted
    simp only [Walk.start, hzero] at hnoted
    exact hnoted
  case ended =>
    rintro before r after rfl hends hgoes
    exact h.result_of_ends hends hgoes
  case interrupted =>
    rintro before r after rfl hr hends events hevents
    exact h.result_of_interrupts hr hends hevents
  case unwound =>
    rintro before r after rfl hr hgoes limit why hlimit
    exact h.stoppedAt_eq hr hgoes why hlimit

/-- A walk that is cancelled inside the call, after 8 of its 9 events, and asked to go on. -/
theorem selfApplied_driven :
    ∃ history w, Walk.Driven (.start selfApplied .quiet .background {}) history w ∧
      history.map Walk.Report.operation =
        .replicate 8 .next ++ [.cancel, .next, .result, .close] ∧
      (Walk.delivered history).length = 8 := by
  have hdriven := Walk.Driven.cons (.next <| .start selfApplied .quiet .background {}) <|
    .cons (.next _) <| .cons (.next _) <| .cons (.next _) <| .cons (.next _) <|
    .cons (.next _) <| .cons (.next _) <| .cons (.next _) <|
    .cons (.cancel _) <| .cons (.next _) <|
    .cons (@Walk.Performs.result _ _ 1 (.error (.interrupted .canceled)) rfl) <|
    .cons (.close _) <| .nil _
  exact ⟨_, _, hdriven, rfl, by decide +kernel⟩

theorem selfApplied_driven_walk_faithful :
    ∃ history w, Walk.Driven (.start selfApplied .quiet .background {}) history w ∧
      history.map Walk.Report.operation =
        .replicate 8 .next ++ [.cancel, .next, .result, .close] ∧
      (Walk.delivered history).length = 8 ∧
      Walk.Faithful selfApplied .background {} history w := by
  obtain ⟨history, w, hdriven, hops, hlength⟩ := selfApplied_driven
  exact ⟨history, w, hdriven, hops, hlength, driven_walk_faithful hdriven⟩

end Stepwise
