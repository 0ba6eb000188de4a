/-
Every interleaving of the two parties is a walk.

Wherever the evaluator is, it is settled where it will next come to rest if nobody interferes:
at an event, or at the end (`Evaluator.ahead`).  Its own moves do not change that, so it does not
matter when it makes them.  Only the driver brings about something new, and what it brings about
is an operation on a walk, or the part of one that it is under way with (`Follows`).
-/
import Stepwise.Proofs.Handoff

namespace Stepwise

open Observer (Sighting)
open Machine (Progress)

namespace Walk

theorem next_eq_deliver {w : Walk} {memory : Memory} {m : Machine}
    (h : w.ahead = (memory, .parked m)) :
    w.next = (some m.event, (deliver { w with memory } m).2) := by
  unfold ahead at h
  unfold next
  rcases hphase : w.phase with m' | m' | outcome
  · rw [hphase] at h
    cases h
    rfl
  · rw [hphase] at h
    simp only [h]
    rfl
  · rw [hphase] at h
    cases h

theorem next_eq_over {w : Walk} {memory : Memory} {outcome : Except (Stop Interrupt) Value}
    (h : w.ahead = (memory, .ended outcome)) :
    w.next = (none, { w with memory, phase := .over outcome, unsettled := false }) := by
  unfold ahead at h
  unfold next
  rcases hphase : w.phase with m | m | outcome'
  · rw [hphase] at h
    cases h
  · rw [hphase] at h
    simp only [h]
  · rw [hphase] at h
    cases h
    rfl

theorem result_of_skip {n : Nat} {outcome : Except (Stop Interrupt) Value} :
    ∀ {w : Walk}, (∀ i < n, (w.skip i).answer ≠ none) → (w.skip n).answer = none →
      (w.skip n).next.2.phase = .over outcome →
        w.result (n + 1) = (some outcome, (w.skip n).next.2) := by
  induction n with
  | zero =>
    intro w _ hnone hphase
    have hnext : w.next.1 = none := Option.map_eq_none_iff.mp hnone
    rw [result, ← Prod.eta w.next, hnext]
    simp only
    rw [show w.next.2.phase = .over outcome from hphase]
    rfl
  | succ n ih =>
    intro w hsome hnone hphase
    have hrest := @ih w.next.2 (fun i hi => hsome (i + 1) (Nat.succ_lt_succ hi)) hnone hphase
    cases hnext : w.next.1 with
    | none => exact absurd (Option.map_eq_none_iff.mpr hnext) (hsome 0 (Nat.succ_pos n))
    | some ev =>
      rw [result, ← Prod.eta w.next, hnext]
      exact hrest

theorem Driven.append {w w' w'' : Walk} {history history' : List Report}
    (h : Driven w history w') (h' : Driven w' history' w'') :
    Driven w (history ++ history') w'' := by
  induction h with
  | nil => exact h'
  | cons first rest ih => exact .cons first (ih h')

theorem Driven.snoc {w w' w'' : Walk} {history : List Report} {r : Report}
    (h : Driven w history w') (hlast : Performs w' r w'') : Driven w (history ++ [r]) w'' :=
  h.append (.cons hlast (.nil _))

end Walk

namespace Handoff

/-! ## Where the evaluator will come to rest -/

theorem Pause.ahead_eq {q : Pause} {w : Walk} (h : w.phase = q.phase) :
    w.ahead = q.ahead w.memory := by
  rw [Walk.ahead, h]
  cases q <;> rfl

namespace Evaluator

/-- Where the evaluator will come to rest if it is told to go on, and not cancelled meanwhile. -/
def ahead (e : Evaluator) : Memory × Progress Interrupt :=
  match e.stage with
  | .waiting q =>
    if e.cancelled then Machine.abort q.calls (.interrupted .canceled) e.memory
    else q.ahead e.memory
  | .woken q =>
    if e.cancelled then Machine.abort q.calls (.interrupted .canceled) e.memory
    else q.ahead e.memory
  | .working m => m.resume e.memory
  | .announcing m => (e.memory, .parked m)
  | .sending m => (e.memory, .parked m)
  | .leaving calls why => Machine.abort calls why e.memory
  | .returned failure => (e.memory, .ended (conclude failure e.value))
  | .eventsClosed failure => (e.memory, .ended (conclude failure e.value))
  | .doneClosed failure => (e.memory, .ended (conclude failure e.value))
  | .exited => (e.memory, .ended (conclude e.failure e.value))

/-- At work it has not been cancelled. -/
def Calm (e : Evaluator) : Prop := e.stage.isAtWork = true → e.cancelled = false

variable {e e' : Evaluator} {w : Walk}

theorem AtRest.calm (h : e.AtRest) : e.Calm :=
  fun hwork => nomatch h.not_atWork.symm.trans hwork

theorem Move.calm (h : e.Move e') (hcalm : e.Calm) : e'.Calm := by
  cases h with
  | begin hstage hc | goOn hstage hc | offer hstage hc => exact fun _ => hc
  | work hstage =>
    unfold Calm at hcalm
    rw [hstage] at hcalm
    exact fun _ => hcalm rfl
  | sendClosed hstage => exact hcalm
  | _ => exact fun hwork => nomatch hwork

theorem Move.ahead_eq (h : e.Move e') (hcalm : e.Calm) (htidy : e.Tidy) : e'.ahead = e.ahead := by
  unfold Calm at hcalm
  cases h with
  | wake hstage hc | refuse hstage hc | begin hstage hc | goOn hstage hc =>
    simp [ahead, hstage, hc, Pause.ahead]
  | work hstage hresume | succeed hstage hresume | fail hstage hresume =>
    simp [ahead, hstage, hresume, conclude]
  | withdraw hstage hc | giveUp hstage hc =>
    rw [hstage] at hcalm
    cases hc.symm.trans (hcalm rfl)
  | sendClosed hstage hclosed =>
    rw [htidy.events, hstage] at hclosed
    cases hclosed
  | leave hstage | left hstage =>
    rw [ahead, ahead, hstage]
    rfl
  | offer hstage | closeEvents hstage | closeDone hstage | exit hstage =>
    simp only [ahead, hstage]

/-- While the driver does not wait for it, the evaluator stands where the walk does. -/
inductive Rests (e : Evaluator) (w : Walk) : Prop where
  | waiting {q : Pause} (hstage : e.stage = .waiting q) (hcancelled : e.cancelled = false)
      (hphase : w.phase = q.phase) (hmemory : w.memory = e.memory)
  | ended {outcome : Except (Stop Interrupt) Value} (hphase : w.phase = .over outcome)
      (hwaiting : e.stage.isWaiting = true → e.cancelled = true)
      (hahead : e.ahead = (w.memory, .ended outcome))

theorem Rests.move (h : e.Rests w) (hrest : e.AtRest) (htidy : e.Tidy) (hmove : e.Move e') :
    e'.Rests w := by
  cases h with
  | waiting hstage hc =>
    -- Nobody has told it to go on.
    cases hmove with
    | wake _ hc' => cases hc.symm.trans hc'
    | _ hstage' => cases hstage.symm.trans hstage'
  | ended hphase hwaiting hahead =>
    refine .ended hphase (fun h => nomatch hmove.not_waiting.symm.trans h) ?_
    rw [hmove.ahead_eq hrest.calm htidy, hahead]

theorem Rests.of_hasClosedEvents (h : e.Rests w) (hclosed : e.stage.hasClosedEvents = true) :
    e.ahead = w.ahead := by
  cases h with
  | waiting hstage =>
    rw [hstage] at hclosed
    cases hclosed
  | ended hphase _ hahead => rw [hahead, Walk.ahead, hphase]

theorem ended_of_hasClosedEvents (h : e.stage.hasClosedEvents = true) :
    ∃ outcome, e.ahead = (e.memory, .ended outcome) := by
  unfold ahead
  cases hstage : e.stage with
  | eventsClosed | doneClosed | exited => exact ⟨_, rfl⟩
  | _ =>
    rw [hstage] at h
    cases h

theorem Rests.stop (h : e.Rests w) (hrest : e.AtRest) {w' : Walk}
    (hphase : w'.phase = (w.stop .canceled).phase)
    (hmemory : w'.memory = (w.stop .canceled).memory) :
    Rests { e with cancelled := true } w' := by
  cases h with
  | @waiting q hstage hc hphase' hmemory' =>
    have hahead : ahead { e with cancelled := true } =
        Machine.abort q.calls (.interrupted .canceled) e.memory := by
      simp [ahead, hstage]
    rw [Walk.stop, hphase'] at hphase hmemory
    cases q with
    | before m =>
      exact .ended hphase (fun _ => rfl) (hahead.trans (by rw [hmemory, ← hmemory']; rfl))
    | after m =>
      exact .ended hphase (fun _ => rfl) (hahead.trans (by rw [hmemory, ← hmemory']; rfl))
  | ended hphase' hwaiting hahead =>
    rw [Walk.stop_of_over hphase'] at hphase hmemory
    refine .ended (hphase.trans hphase') (fun _ => rfl) ?_
    have hwork := hrest.not_atWork
    rw [hmemory, ← hahead]
    unfold ahead
    cases hstage : e.stage with
    | waiting q =>
      rw [hstage] at hwaiting
      simp [hwaiting rfl]
    | woken q =>
      unfold AtRest at hrest
      rw [hstage] at hrest
      simp [Stage.isWaiting, Stage.hasClosedEvents] at hrest
      simp [hrest]
    | _ => rfl

end Evaluator

/-! ## What the driver has brought about -/

def SameBooks (s : Handoff) (w : Walk) : Prop :=
  s.context = w.context ∧ s.journal = w.journal ∧ s.tally = w.tally ∧ s.steps = w.steps

theorem SameBooks.stop {s : Handoff} {w : Walk} (h : SameBooks s w) (why : Interrupt) :
    SameBooks s (w.stop why) := by
  unfold Walk.stop
  cases w.phase <;> exact h

/-- The events that were passed on the way from one walk to another. -/
def Purpose.Since (w₀ : Walk) : Purpose → Walk → Prop
  | .next, w => w = w₀
  | .result passed, w =>
    ∃ n, w = w₀.skip n ∧ passed = w₀.events n ∧ ∀ i < n, (w₀.skip i).answer ≠ none

/-- The driver is under way with an operation on the walk `w₀`. -/
def Underway (s : Handoff) (w₀ : Walk) : Prop :=
  match s.activity with
  | .idle => SameBooks s w₀ ∧ s.evaluator.Rests w₀
  | .entering purpose =>
    ∃ w, purpose.Since w₀ w ∧ SameBooks s w ∧ s.evaluator.Rests w
  | .offering purpose =>
    ∃ w, purpose.Since w₀ w ∧ SameBooks s w ∧ s.evaluator.Rests w
  | .receiving purpose =>
    ∃ w, purpose.Since w₀ w ∧ SameBooks s w ∧ s.evaluator.ahead = w.ahead ∧ s.evaluator.Calm
  | .noting purpose ev =>
    ∃ w m, purpose.Since w₀ w ∧ SameBooks s w ∧ w.ahead = (s.evaluator.memory, .parked m) ∧
      ev = m.event ∧ s.evaluator.stage = .waiting (.after m) ∧ s.evaluator.cancelled = false
  | .awaiting passed =>
    ∃ w, (Purpose.result passed).Since w₀ w ∧ w.answer = none ∧ SameBooks s w.next.2 ∧
      s.evaluator.Rests w.next.2
  | .cancelling => SameBooks s w₀ ∧ s.evaluator.Rests w₀
  | .closing => SameBooks s w₀ ∧ s.evaluator.Rests w₀.close

/-- What came of the operations so far is what comes of them on a walk. -/
def Follows (p : Program) (context : Context) (journal : Journal) (s : Handoff) : Prop :=
  ∃ w₀, Walk.Driven (.start p .quiet context journal) s.history w₀ ∧ s.Underway w₀

namespace Follows

variable {p : Program} {context : Context} {journal : Journal} {s s' : Handoff} {w w₀ : Walk}

theorem evaluator (hfollows : Follows p context journal s) (h : s.Disciplined) {e : Evaluator}
    (hmove : s.evaluator.Move e) : Follows p context journal { s with evaluator := e } := by
  obtain ⟨w₀, hdriven, hunderway⟩ := hfollows
  refine ⟨w₀, hdriven, ?_⟩
  have hrests : ∀ {w : Walk}, (∀ purpose, s.activity ≠ .receiving purpose) →
      s.evaluator.Rests w → e.Rests w :=
    fun hne hrests => hrests.move (h.atRest hne) h.tidy hmove
  unfold Underway at hunderway ⊢
  cases hactivity : s.activity with
  | idle | cancelling | closing =>
    rw [hactivity] at hunderway hrests
    obtain ⟨hbooks, hw⟩ := hunderway
    exact ⟨hbooks, hrests nofun hw⟩
  | entering purpose | offering purpose =>
    rw [hactivity] at hunderway hrests
    obtain ⟨w, hsince, hbooks, hw⟩ := hunderway
    exact ⟨w, hsince, hbooks, hrests nofun hw⟩
  | receiving purpose =>
    rw [hactivity] at hunderway
    obtain ⟨w, hsince, hbooks, hahead, hcalm⟩ := hunderway
    exact ⟨w, hsince, hbooks, (hmove.ahead_eq hcalm h.tidy).trans hahead, hmove.calm hcalm⟩
  | noting purpose ev =>
    rw [hactivity] at hunderway
    obtain ⟨w, m, -, -, -, -, hstage, hc⟩ := hunderway
    cases hmove with
    | wake _ hc' => cases hc.symm.trans hc'
    | _ hstage' => cases hstage.symm.trans hstage'
  | awaiting passed =>
    rw [hactivity] at hunderway hrests
    obtain ⟨w, hsince, hanswer, hbooks, hw⟩ := hunderway
    exact ⟨w, hsince, hanswer, hbooks, hrests nofun hw⟩

theorem turnAway (hdriven : Walk.Driven (.start p .quiet context journal) s.history w₀)
    {purpose : Purpose} (hsince : purpose.Since w₀ w) (hbooks : SameBooks s w)
    (hahead : s.evaluator.ahead = w.ahead) (hclosed : s.evaluator.stage.hasClosedEvents = true)
    (finished : Bool) : Follows p context journal { s.turnAway purpose with finished } := by
  obtain ⟨outcome, hended⟩ := Evaluator.ended_of_hasClosedEvents hclosed
  have hover := Walk.next_eq_over (hahead.symm.trans hended)
  have hanswer : w.answer = none := by
    rw [Walk.answer, hover]
    rfl
  have hbooks' : SameBooks s w.next.2 := by
    rw [hover]
    exact hbooks
  have hrests : s.evaluator.Rests w.next.2 := by
    have hphase : w.next.2.phase = .over outcome := by rw [hover]
    refine .ended hphase (fun hwaiting => ?_) (by rw [hover, hended])
    cases (Stage.not_waiting_of_hasClosedEvents hclosed).symm.trans hwaiting
  cases purpose with
  | next =>
    obtain rfl : w = w₀ := hsince
    refine ⟨w.next.2, ?_, hbooks', hrests⟩
    have hlast := Walk.Performs.next w
    rw [hanswer] at hlast
    exact hdriven.snoc hlast
  | result passed => exact ⟨w₀, hdriven, w, hsince, hanswer, hbooks', hrests⟩

theorem note (hdriven : Walk.Driven (.start p .quiet context journal) s.history w₀)
    {purpose : Purpose} (hsince : purpose.Since w₀ w) (hbooks : SameBooks s w) {m : Machine}
    (hahead : w.ahead = (s.evaluator.memory, .parked m))
    (hstage : s.evaluator.stage = .waiting (.after m)) (hc : s.evaluator.cancelled = false) :
    Follows p context journal ((s.enter m.event).receive
      { event := m.event, store := s.evaluator.memory.store } purpose) := by
  have hnext := Walk.next_eq_deliver hahead
  have hanswer : w.answer = some { event := m.event, store := s.evaluator.memory.store } := by
    rw [Walk.answer, hnext]
    rfl
  obtain ⟨hcontext, hjournal, htally, hsteps⟩ := hbooks
  have hbooks' : SameBooks (s.enter m.event) w.next.2 := by
    rw [hnext]
    refine ⟨hcontext, ?_, ?_, ?_⟩
    · show s.journal.record s.context _ = w.journal.record w.context _
      rw [hcontext, hjournal]
    · show s.tally.bump _ = w.tally.bump _
      rw [htally]
    · show s.steps + 1 = w.steps + 1
      rw [hsteps]
  have hrests : (s.enter m.event).evaluator.Rests w.next.2 := by
    refine .waiting (q := .after m) hstage hc (by rw [hnext]; rfl) ?_
    rw [hnext]
    show _ = s.evaluator.memory.note (.stepped (s.steps + 1) _ _)
    rw [hsteps]
    rfl
  cases purpose with
  | next =>
    obtain rfl : w = w₀ := hsince
    refine ⟨w.next.2, ?_, hbooks', hrests⟩
    have hlast := Walk.Performs.next w
    rw [hanswer] at hlast
    exact hdriven.snoc hlast
  | result passed =>
    obtain ⟨n, rfl, rfl, hsome⟩ := hsince
    refine ⟨w₀, hdriven, (w₀.skip n).next.2, ?_, hbooks', hrests⟩
    refine ⟨n + 1, (Walk.skip_add n 1 w₀).symm, ?_, fun i hi => ?_⟩
    · rw [Walk.events_add, Walk.events, hanswer]
      rfl
    · rcases Nat.lt_succ_iff_lt_or_eq.mp hi with hi | rfl
      · exact hsome i hi
      · rw [hanswer]
        exact Option.some_ne_none _

theorem learn (hdriven : Walk.Driven (.start p .quiet context journal) s.history w₀)
    {passed : List Sighting} (hsince : (Purpose.result passed).Since w₀ w)
    (hanswer : w.answer = none) (hbooks : SameBooks s w.next.2)
    (hrests : s.evaluator.Rests w.next.2) (hexited : s.evaluator.stage = .exited) :
    Follows p context journal
      { s with
        activity := .idle
        evaluator := { s.evaluator with cancelled := true }
        history := s.history ++
          [.result passed (conclude s.evaluator.failure s.evaluator.value)] } := by
  cases hrests with
  | waiting hstage => cases hexited.symm.trans hstage
  | @ended outcome hphase hwaiting hahead =>
    have hended : s.evaluator.ahead =
        (s.evaluator.memory, .ended (conclude s.evaluator.failure s.evaluator.value)) := by
      rw [Evaluator.ahead, hexited]
    obtain ⟨hmemory, rfl⟩ : s.evaluator.memory = w.next.2.memory ∧
        conclude s.evaluator.failure s.evaluator.value = outcome := by
      have heq := hended.symm.trans hahead
      exact ⟨congrArg Prod.fst heq, Progress.ended.inj (congrArg Prod.snd heq)⟩
    obtain ⟨n, rfl, rfl, hsome⟩ := hsince
    refine ⟨(w₀.skip n).next.2, ?_, hbooks, .ended hphase (fun _ => rfl) ?_⟩
    · have hresult := Walk.result_of_skip hsome hanswer hphase
      have hevents : w₀.events (n + 1) = w₀.events n := by
        rw [Walk.events_add, Walk.events, hanswer]
        exact List.append_nil _
      rw [← hevents]
      exact hdriven.snoc (.result hresult)
    · rw [Evaluator.ahead, hexited, hmemory]

theorem driver (hfollows : Follows p context journal s) (h : s.Disciplined)
    (hmove : DriverMove s s') : Follows p context journal s' := by
  obtain ⟨w₀, hdriven, hunderway⟩ := hfollows
  unfold Underway at hunderway
  cases hmove with
  | beginNext hactivity =>
    rw [hactivity] at hunderway
    exact ⟨w₀, hdriven, w₀, rfl, hunderway⟩
  | beginResult hactivity =>
    rw [hactivity] at hunderway
    exact ⟨w₀, hdriven, w₀, ⟨0, rfl, rfl, nofun⟩, hunderway⟩
  | beginClose hactivity =>
    rw [hactivity] at hunderway
    exact ⟨w₀, hdriven, hunderway⟩
  | offer hactivity =>
    rw [hactivity] at hunderway
    exact ⟨w₀, hdriven, hunderway⟩
  | @knowFinished purpose hactivity hfinished =>
    rw [hactivity] at hunderway
    obtain ⟨w, hsince, hbooks, hrests⟩ := hunderway
    have hclosed := h.finished hfinished
    exact turnAway hdriven hsince hbooks (hrests.of_hasClosedEvents hclosed) hclosed
      (s.turnAway purpose).finished
  | seeDone hactivity hclosed =>
    rw [hactivity] at hunderway
    obtain ⟨w, hsince, hbooks, hrests⟩ := hunderway
    have hclosed := h.hasClosedEvents (.inr hclosed)
    exact turnAway hdriven hsince hbooks (hrests.of_hasClosedEvents hclosed) hclosed true
  | seeClosed hactivity hclosed =>
    rw [hactivity] at hunderway
    obtain ⟨w, hsince, hbooks, hahead, -⟩ := hunderway
    exact turnAway hdriven hsince hbooks hahead (h.hasClosedEvents (.inl hclosed)) true
  | note hactivity =>
    rw [hactivity] at hunderway
    obtain ⟨w, m, hsince, hbooks, hahead, rfl, hstage, hc⟩ := hunderway
    exact note hdriven hsince hbooks hahead hstage hc
  | learn hactivity hexited =>
    rw [hactivity] at hunderway
    obtain ⟨w, hsince, hanswer, hbooks, hrests⟩ := hunderway
    exact learn hdriven hsince hanswer hbooks hrests hexited
  | raise hactivity =>
    rw [hactivity] at hunderway
    obtain ⟨hbooks, hrests⟩ := hunderway
    have hrest := h.atRest_of hactivity nofun
    exact ⟨w₀, hdriven, hbooks, hrests.stop hrest rfl rfl⟩
  | closed hactivity hexited =>
    rw [hactivity] at hunderway
    obtain ⟨hbooks, hrests⟩ := hunderway
    exact ⟨w₀.close, hdriven.snoc (.close w₀), hbooks.stop .canceled, hrests⟩

theorem both (hfollows : Follows p context journal s) (hmove : Exchange s s') :
    Follows p context journal s' := by
  obtain ⟨w₀, hdriven, hunderway⟩ := hfollows
  refine ⟨w₀, ?_⟩
  unfold Underway at hunderway
  cases hmove with
  | @goOn purpose q hactivity hstage =>
    rw [hactivity] at hunderway
    obtain ⟨w, hsince, hbooks, hrests⟩ := hunderway
    refine ⟨hdriven, w, hsince, hbooks, ?_, nofun⟩
    cases hrests with
    | waiting hstage' hc hphase hmemory =>
      cases hstage.symm.trans hstage'
      rw [Pause.ahead_eq hphase, hmemory]
      simp only [Evaluator.ahead, hc]
      rfl
    | ended hphase hwaiting hahead =>
      have hsame : Evaluator.ahead { s.evaluator with stage := .woken q } = s.evaluator.ahead := by
        simp only [Evaluator.ahead, hstage]
      rw [hsame, hahead, Walk.ahead, hphase]
  | @event purpose m hactivity hstage hopen =>
    rw [hactivity] at hunderway
    obtain ⟨w, hsince, hbooks, hahead, hcalm⟩ := hunderway
    have hc : s.evaluator.cancelled = false := hcalm (by rw [hstage]; rfl)
    refine ⟨hdriven, w, m, hsince, hbooks, ?_, rfl, rfl, hc⟩
    rw [← hahead, Evaluator.ahead, hstage]

theorem move (hfollows : Follows p context journal s) (h : s.Disciplined) (hmove : Move s s') :
    Follows p context journal s' := by
  cases hmove with
  | evaluator hmove => exact hfollows.evaluator h hmove
  | driver hmove => exact hfollows.driver h hmove
  | both hmove => exact hfollows.both hmove

theorem cancel (hfollows : Follows p context journal s) (h : s.Disciplined)
    (hidle : s.activity = .idle) : Follows p context journal s.cancel := by
  obtain ⟨w₀, hdriven, hunderway⟩ := hfollows
  refine ⟨w₀.cancel, hdriven.snoc (.cancel w₀), ?_⟩
  have hrest := h.atRest_of hidle nofun
  have hactivity : s.cancel.activity = .idle := hidle
  unfold Underway at hunderway ⊢
  rw [hidle] at hunderway
  rw [hactivity]
  obtain ⟨hbooks, hrests⟩ := hunderway
  exact ⟨hbooks.stop .canceled, hrests.stop hrest rfl rfl⟩

end Follows

/-- Every interleaving is a walk, as long as the flag is raised between two operations only. -/
theorem Reachable.follows {p : Program} {context : Context} {journal : Journal} {s : Handoff}
    (h : Reachable p context journal false s) : Follows p context journal s := by
  induction h with
  | start =>
    refine ⟨.start p .quiet context journal, .nil _, ⟨rfl, rfl, rfl, rfl⟩, ?_⟩
    exact .waiting rfl rfl rfl rfl
  | move h hmove ih => exact ih.move h.disciplined hmove
  | cancel h hwhen ih => exact ih.cancel h.disciplined (hwhen.resolve_left nofun)

end Handoff
end Stepwise
