/-
Schedules make no difference.

Every interleaving of the two parties is a walk.  Here every operation on a walk is carried through
by the two parties: the evaluator can always run to its next event, or exit, and the driver
can then finish what it has begun.  So the reports that a driver can be given are those of walks,
and they depend on nothing but its operations.
-/
import Mathlib.Logic.Relation
import Stepwise.Proofs.Simulation

namespace Stepwise

open Observer (Sighting)

namespace Walk

theorem driven_skip (n : Nat) (w : Walk) :
    ∃ history, Driven w history (w.skip n) ∧ delivered history = w.events n := by
  induction n generalizing w with
  | zero => exact ⟨[], .nil w, rfl⟩
  | succ n ih =>
    obtain ⟨history, hdriven, hdelivered⟩ := ih w.next.2
    refine ⟨.next w.answer :: history, .cons (.next w) hdriven, ?_⟩
    rw [delivered_cons, hdelivered]
    rfl

end Walk

namespace Handoff

/-! ## Carrying an operation through -/

namespace Evaluator

def Runs : Evaluator → Evaluator → Prop := Relation.ReflTransGen Move

variable {e : Evaluator}

def CanExit (e : Evaluator) : Prop := ∃ e', e.Runs e' ∧ e'.stage = .exited

theorem CanExit.of_move {e' : Evaluator} (hmove : e.Move e') (h : e'.CanExit) : e.CanExit := by
  obtain ⟨e'', hruns, hexited⟩ := h
  exact ⟨e'', .head hmove hruns, hexited⟩

theorem canExit_of_doneClosed {failure : Option (Stop Interrupt)}
    (h : e.stage = .doneClosed failure) : e.CanExit := ⟨_, .single (.exit h), rfl⟩

theorem canExit_of_returned {failure : Option (Stop Interrupt)} (h : e.stage = .returned failure) :
    e.CanExit :=
  .of_move (.closeEvents h) (.of_move (.closeDone rfl) (canExit_of_doneClosed rfl))

theorem canExit_of_leaving {calls : List Activation} {why : Stop Interrupt}
    (h : e.stage = .leaving calls why) : e.CanExit := by
  induction calls generalizing e with
  | nil => exact .of_move (.left h) (canExit_of_returned rfl)
  | cons a calls ih => exact .of_move (.leave h) (ih rfl)

theorem canExit_of_working {m : Machine} {memory : Memory}
    {outcome : Except (Stop Interrupt) Value} (h : e.stage = .working m)
    (hresume : m.resume e.memory = (memory, .ended outcome)) : e.CanExit := by
  cases outcome with
  | ok value => exact .of_move (.succeed h hresume) (canExit_of_returned rfl)
  | error why => exact .of_move (.fail h hresume) (canExit_of_returned rfl)

theorem canExit_of_ahead {memory : Memory} {outcome : Except (Stop Interrupt) Value}
    (hwaiting : e.stage.isWaiting = true → e.cancelled = true)
    (hahead : e.ahead = (memory, .ended outcome)) : e.CanExit := by
  unfold ahead at hahead
  cases hstage : e.stage with
  | waiting q =>
    rw [hstage] at hwaiting
    have hc := hwaiting rfl
    exact .of_move (.wake hstage hc) (.of_move (.refuse rfl hc) (canExit_of_leaving rfl))
  | woken q =>
    cases hc : e.cancelled with
    | true => exact .of_move (.refuse hstage hc) (canExit_of_leaving rfl)
    | false =>
      simp only [hstage, hc] at hahead
      cases q with
      | before m => cases hahead
      | after m => exact .of_move (.goOn hstage hc) (canExit_of_working rfl hahead)
  | working m =>
    simp only [hstage] at hahead
    exact canExit_of_working hstage hahead
  | announcing m | sending m =>
    simp only [hstage] at hahead
    cases hahead
  | leaving calls why => exact canExit_of_leaving hstage
  | returned failure => exact canExit_of_returned hstage
  | eventsClosed failure => exact .of_move (.closeDone hstage) (canExit_of_doneClosed rfl)
  | doneClosed failure => exact canExit_of_doneClosed hstage
  | exited => exact ⟨e, .refl, hstage⟩

theorem runs_to_sending {q : Pause} {memory : Memory} {m : Machine} (hstage : e.stage = .woken q)
    (hc : e.cancelled = false) (hahead : q.ahead e.memory = (memory, .parked m)) :
    e.Runs { e with stage := .sending m, memory } := by
  cases q with
  | before m' =>
    cases hahead
    exact .head (.begin hstage hc) (.single (.offer rfl hc))
  | after m' => exact .head (.goOn hstage hc) (.head (.work rfl hahead) (.single (.offer rfl hc)))

end Evaluator

def Reaches : Handoff → Handoff → Prop := Relation.ReflTransGen Move

section

variable {p : Program} {context : Context} {journal : Journal} {s s' : Handoff} {w : Walk}

theorem Reaches.evaluator {e : Evaluator} (h : s.evaluator.Runs e) :
    s.Reaches { s with evaluator := e } := by
  induction h with
  | refl => exact .refl
  | tail _ hmove ih => exact .tail ih (.evaluator hmove)

theorem Disciplined.reaches (h : s.Disciplined) (hreaches : s.Reaches s') : s'.Disciplined := by
  induction hreaches with
  | refl => exact h
  | tail _ hmove ih => exact ih.move hmove

theorem Reachable.reaches {anytime : Bool} (h : Reachable p context journal anytime s)
    (hreaches : s.Reaches s') : Reachable p context journal anytime s' := by
  induction hreaches with
  | refl => exact h
  | tail _ hmove ih => exact ih.move hmove

theorem Disciplined.exists_receive (h : s.Disciplined) {purpose : Purpose}
    (hactivity : s.activity = .entering purpose) (hrests : s.evaluator.Rests w) {seen : Sighting}
    (hanswer : w.answer = some seen) :
    ∃ s', s.Reaches s' ∧ s'.activity = (s.receive seen purpose).activity ∧
      s'.history = (s.receive seen purpose).history := by
  cases hrests with
  | ended hphase => cases hanswer.symm.trans (Walk.answer_of_over hphase)
  | @waiting q hstage hc hphase hmemory =>
    have hahead : w.ahead = q.ahead s.evaluator.memory := hmemory ▸ Pause.ahead_eq hphase
    have hfinished : s.finished = false := by
      cases hf : s.finished with
      | false => rfl
      | true =>
        have hclosed := h.finished hf
        rw [hstage] at hclosed
        cases hclosed
    have hopen : s.evaluator.events.closed = false := by
      rw [h.tidy.events, hstage]
      rfl
    rcases hparked : q.ahead s.evaluator.memory with ⟨memory, m | outcome⟩
    · have hseen : seen = { event := m.event, store := memory.store } := by
        rw [Walk.answer, Walk.next_eq_deliver (hahead.trans hparked)] at hanswer
        exact (Option.some.inj hanswer).symm
      subst hseen
      have hsent := Evaluator.runs_to_sending (e := { s.evaluator with stage := .woken q }) rfl hc
        hparked
      refine ⟨_, .head (.driver (.offer hactivity hfinished)) <|
        .head (.both (.goOn rfl hstage)) <|
        .trans (Reaches.evaluator hsent) <|
        .head (.both (.event rfl rfl hopen)) <|
        .single (.driver (.note rfl)), ?_⟩
      cases purpose <;> exact ⟨rfl, rfl⟩
    · rw [Walk.answer, Walk.next_eq_over (hahead.trans hparked)] at hanswer
      cases hanswer

theorem Disciplined.exists_turnAway (h : s.Disciplined) {purpose : Purpose}
    (hactivity : s.activity = .entering purpose) (hrests : s.evaluator.Rests w)
    (hanswer : w.answer = none) :
    ∃ s', s.Reaches s' ∧ s'.activity = (s.turnAway purpose).activity ∧
      s'.history = (s.turnAway purpose).history := by
  cases hfinished : s.finished with
  | true => exact ⟨_, .single (.driver (.knowFinished hactivity hfinished)), rfl, rfl⟩
  | false =>
    have hoffers : Move s { s with activity := .offering purpose } :=
      .driver (.offer hactivity hfinished)
    cases hrests with
    | @waiting q hstage hc hphase hmemory =>
      have hahead : w.ahead = q.ahead s.evaluator.memory := hmemory ▸ Pause.ahead_eq hphase
      rcases hended : q.ahead s.evaluator.memory with ⟨memory, m | outcome⟩
      · rw [Walk.answer, Walk.next_eq_deliver (hahead.trans hended)] at hanswer
        cases hanswer
      have hwoken : Evaluator.ahead { s.evaluator with stage := .woken q } =
          (memory, .ended outcome) := by
        simp only [Evaluator.ahead, hc]
        exact hended
      have hwaiting : Stage.isWaiting (.woken q) = true → s.evaluator.cancelled = true := by
        intro hwaiting
        cases hwaiting
      obtain ⟨e, hruns, hexited⟩ :=
        Evaluator.canExit_of_ahead (e := { s.evaluator with stage := .woken q }) hwaiting hwoken
      have hreaches : s.Reaches { s with activity := .receiving purpose, evaluator := e } :=
        .head hoffers <| .head (.both (.goOn rfl hstage)) (Reaches.evaluator hruns)
      have hclosed : e.events.closed = true := by
        rw [(h.reaches hreaches).tidy.events_closed, hexited]
        rfl
      refine ⟨_, .tail hreaches (.driver (.seeClosed rfl hclosed)), ?_⟩
      cases purpose <;> exact ⟨rfl, rfl⟩
    | ended hphase hwaiting hahead =>
      obtain ⟨e, hruns, hexited⟩ := Evaluator.canExit_of_ahead hwaiting hahead
      have hreaches : s.Reaches { s with activity := .offering purpose, evaluator := e } :=
        .head hoffers (Reaches.evaluator hruns)
      have hclosed : e.done.closed = true := by
        rw [(h.reaches hreaches).tidy.done_closed, hexited]
        rfl
      refine ⟨_, .tail hreaches (.driver (.seeDone rfl hclosed)), ?_⟩
      cases purpose <;> exact ⟨rfl, rfl⟩

theorem Reachable.underway {w₀ : Walk} (h : Reachable p context journal false s)
    (hdriven : Walk.Driven (.start p .quiet context journal) s.history w₀) : s.Underway w₀ := by
  obtain ⟨w₁, hdriven', hunderway⟩ := h.follows
  obtain ⟨-, rfl⟩ := hdriven.unique hdriven' rfl
  exact hunderway

theorem Reachable.rests_of_entering {w₀ : Walk} {passed : List Sighting}
    (h : Reachable p context journal false s)
    (hdriven : Walk.Driven (.start p .quiet context journal) s.history w₀)
    (hactivity : s.activity = .entering (.result passed)) :
    s.evaluator.Rests (w₀.skip passed.length) := by
  have hunderway := h.underway hdriven
  unfold Underway at hunderway
  rw [hactivity] at hunderway
  obtain ⟨_, ⟨n, rfl, rfl, hsome⟩, -, hrests⟩ := hunderway
  rw [Walk.length_events hsome]
  exact hrests

/-- The driver can go on to the end of the walk. -/
theorem Reachable.exists_awaiting {w₀ : Walk} {n : Nat}
    (hsome : ∀ i < n, (w₀.skip i).answer ≠ none) (hnone : (w₀.skip n).answer = none) (k : Nat) :
    ∀ {s : Handoff} {passed : List Sighting}, Reachable p context journal false s →
      Walk.Driven (.start p .quiet context journal) s.history w₀ →
      s.activity = .entering (.result passed) → passed.length + k = n →
        ∃ s' passed', s.Reaches s' ∧ s'.activity = .awaiting passed' ∧ s'.history = s.history := by
  induction k with
  | zero =>
    intro s passed h hdriven hactivity hk
    have hrests := h.rests_of_entering hdriven hactivity
    obtain rfl : passed.length = n := hk
    obtain ⟨s', hreaches, hactivity', hhistory⟩ :=
      h.disciplined.exists_turnAway hactivity hrests hnone
    exact ⟨s', passed, hreaches, hactivity', hhistory⟩
  | succ k ih =>
    intro s passed h hdriven hactivity hk
    have hrests := h.rests_of_entering hdriven hactivity
    cases hanswer : (w₀.skip passed.length).answer with
    | none => exact absurd hanswer (hsome _ (by omega))
    | some seen =>
      obtain ⟨s', hreaches, hactivity', hhistory⟩ :=
        h.disciplined.exists_receive hactivity hrests hanswer
      have hlength : (passed ++ [seen]).length + k = n := by
        rw [List.length_append, List.length_singleton]
        omega
      have hhistory' : s'.history = s.history := hhistory
      obtain ⟨s'', passed', hreaches', hactivity'', hhistory''⟩ :=
        ih (h.reaches hreaches) (hhistory' ▸ hdriven) hactivity' hlength
      exact ⟨s'', passed', hreaches.trans hreaches', hactivity'', hhistory''.trans hhistory'⟩

theorem Reachable.exists_learn {passed : List Sighting} (h : Reachable p context journal false s)
    (hactivity : s.activity = .awaiting passed) :
    ∃ s' outcome, s.Reaches s' ∧ s'.activity = .idle ∧
      s'.history = s.history ++ [.result passed outcome] := by
  have hclosed := h.disciplined.awaiting passed hactivity
  have hwaiting := Stage.not_waiting_of_hasClosedEvents hclosed
  obtain ⟨outcome, hended⟩ := Evaluator.ended_of_hasClosedEvents hclosed
  obtain ⟨e, hruns, hexited⟩ :=
    Evaluator.canExit_of_ahead (fun h => nomatch hwaiting.symm.trans h) hended
  exact ⟨_, _, .tail (Reaches.evaluator hruns) (.driver (.learn hactivity hexited)), rfl, rfl⟩

theorem Disciplined.exists_closed (h : s.Disciplined) (hidle : s.activity = .idle)
    (hrests : s.evaluator.Rests w) :
    ∃ s', s.Reaches s' ∧ s'.activity = .idle ∧ s'.history = s.history ++ [.closed] := by
  have hrest := h.atRest_of hidle nofun
  have hstopped : Evaluator.Rests { s.evaluator with cancelled := true } w.close :=
    hrests.stop hrest rfl rfl
  cases hstopped with
  | waiting _ hc => cases hc
  | ended _ hwaiting hahead =>
    obtain ⟨e, hruns, hexited⟩ := Evaluator.canExit_of_ahead hwaiting hahead
    exact ⟨_, .head (.driver (.beginClose hidle)) <| .head (.driver (.raise rfl)) <|
      .tail (Reaches.evaluator hruns) (.driver (.closed rfl hexited)), rfl, rfl⟩

/-- Every operation on the walk can be carried through. -/
theorem Reachable.exists_performs {r : Walk.Report} {w' : Walk}
    (h : Reachable p context journal false s) (hidle : s.activity = .idle)
    (hdriven : Walk.Driven (.start p .quiet context journal) s.history w)
    (hr : Walk.Performs w r w') :
    ∃ s', Reachable p context journal false s' ∧ s'.activity = .idle ∧
      s'.history = s.history ++ [r] := by
  have hunderway := h.underway hdriven
  unfold Underway at hunderway
  rw [hidle] at hunderway
  obtain ⟨-, hrests⟩ := hunderway
  cases hr with
  | next =>
    have hbegin : Move s { s with activity := .entering .next } := .driver (.beginNext hidle)
    cases hanswer : w.answer with
    | some seen =>
      obtain ⟨s', hreaches, hactivity, hhistory⟩ :=
        (h.move hbegin).disciplined.exists_receive rfl hrests hanswer
      exact ⟨s', (h.move hbegin).reaches hreaches, hactivity, hhistory⟩
    | none =>
      obtain ⟨s', hreaches, hactivity, hhistory⟩ :=
        (h.move hbegin).disciplined.exists_turnAway rfl hrests hanswer
      exact ⟨s', (h.move hbegin).reaches hreaches, hactivity, hhistory⟩
  | close =>
    obtain ⟨s', hreaches, hactivity, hhistory⟩ := h.disciplined.exists_closed hidle hrests
    exact ⟨s', h.reaches hreaches, hactivity, hhistory⟩
  | cancel => exact ⟨s.cancel, h.cancel (.inr hidle), hidle, rfl⟩
  | result hresult =>
    obtain ⟨n, hsome, hnone, -⟩ := Walk.result_eq_skip hresult
    have hbegin : Move s { s with activity := .entering (.result []) } :=
      .driver (.beginResult hidle)
    obtain ⟨s₁, passed, hreaches₁, hactivity₁, hhistory₁⟩ :=
      (h.move hbegin).exists_awaiting hsome hnone n hdriven rfl (Nat.zero_add n)
    have h₁ := (h.move hbegin).reaches hreaches₁
    obtain ⟨s₂, outcome, hreaches₂, hidle₂, hhistory₂⟩ := h₁.exists_learn hactivity₁
    have h₂ := h₁.reaches hreaches₂
    refine ⟨s₂, h₂, hidle₂, ?_⟩
    -- What the driver has learnt is what the walk says: the two did the same operations.
    obtain ⟨w₂, hdriven₂, -⟩ := h₂.follows
    have hhistory : s₂.history = s.history ++ [.result passed outcome] := by
      rw [hhistory₂, hhistory₁]
    refine (hdriven₂.unique (hdriven.snoc (.result hresult)) ?_).1
    rw [hhistory, List.map_append, List.map_append]
    rfl

theorem Reachable.exists_driven {history : List Walk.Report} {w' : Walk}
    (hrest : Walk.Driven w history w') :
    ∀ {s : Handoff}, Reachable p context journal false s → s.activity = .idle →
      Walk.Driven (.start p .quiet context journal) s.history w →
        ∃ s', Reachable p context journal false s' ∧ s'.activity = .idle ∧
          s'.history = s.history ++ history := by
  induction hrest with
  | nil =>
    intro s h hidle _
    exact ⟨s, h, hidle, (List.append_nil _).symm⟩
  | cons first rest ih =>
    intro s h hidle hdriven
    obtain ⟨s₁, h₁, hidle₁, hhistory₁⟩ := h.exists_performs hidle hdriven first
    obtain ⟨s₂, h₂, hidle₂, hhistory₂⟩ := ih h₁ hidle₁ (hhistory₁ ▸ hdriven.snoc first)
    refine ⟨s₂, h₂, hidle₂, ?_⟩
    rw [hhistory₂, hhistory₁, List.append_assoc]
    rfl

end

/-! ## Schedules make no difference -/

def Purpose.passed : Purpose → List Sighting
  | .next => []
  | .result passed => passed

def Activity.passed : Activity → List Sighting
  | .idle => []
  | .entering purpose => purpose.passed
  | .offering purpose => purpose.passed
  | .receiving purpose => purpose.passed
  | .noting purpose _ => purpose.passed
  | .awaiting passed => passed
  | .cancelling => []
  | .closing => []

def received (s : Handoff) : List Sighting := Walk.delivered s.history ++ s.activity.passed

/-- What was received in an operation could have been asked for event by event. -/
theorem Purpose.Since.driven {w w₀ : Walk} {purpose : Purpose} (h : purpose.Since w₀ w) :
    ∃ history, Walk.Driven w₀ history w ∧ Walk.delivered history = purpose.passed := by
  cases purpose with
  | next =>
    obtain rfl : w = w₀ := h
    exact ⟨[], .nil w, rfl⟩
  | result passed =>
    obtain ⟨n, rfl, rfl, -⟩ := h
    exact Walk.driven_skip n w₀

section

variable {p : Program} {context : Context} {journal : Journal} {s : Handoff}

theorem Underway.received {w₀ : Walk} (h : s.Underway w₀) :
    ∃ history w, Walk.Driven w₀ history w ∧ Walk.delivered history = s.activity.passed ∧
      w.steps = s.steps := by
  unfold Underway at h
  cases hactivity : s.activity with
  | idle | cancelling | closing =>
    rw [hactivity] at h
    exact ⟨[], w₀, .nil w₀, rfl, h.1.2.2.2.symm⟩
  | entering purpose | offering purpose | receiving purpose =>
    rw [hactivity] at h
    obtain ⟨w, hsince, hbooks, -⟩ := h
    obtain ⟨history, hdriven, hdelivered⟩ := hsince.driven
    exact ⟨history, w, hdriven, hdelivered, hbooks.2.2.2.symm⟩
  | noting purpose ev =>
    rw [hactivity] at h
    obtain ⟨w, m, hsince, hbooks, -⟩ := h
    obtain ⟨history, hdriven, hdelivered⟩ := hsince.driven
    exact ⟨history, w, hdriven, hdelivered, hbooks.2.2.2.symm⟩
  | awaiting passed =>
    rw [hactivity] at h
    obtain ⟨w, hsince, hanswer, hbooks, -⟩ := h
    obtain ⟨history, hdriven, hdelivered⟩ := hsince.driven
    refine ⟨history ++ [.next w.answer], w.next.2, hdriven.snoc (.next w), ?_, hbooks.2.2.2.symm⟩
    rw [Walk.delivered, List.flatMap_append, hanswer]
    exact (List.append_nil _).trans hdelivered

/-- Everything that was received is accounted for by some walk. -/
theorem Reachable.received_walk (h : Reachable p context journal false s) :
    ∃ history w, Walk.Driven (.start p .quiet context journal) history w ∧
      Walk.delivered history = s.received ∧ w.steps = s.steps := by
  obtain ⟨w₀, hdriven, hunderway⟩ := h.follows
  obtain ⟨history, w, hrest, hdelivered, hsteps⟩ := hunderway.received
  refine ⟨s.history ++ history, w, hdriven.append hrest, ?_, hsteps⟩
  rw [Walk.delivered, List.flatMap_append, ← Walk.delivered, ← Walk.delivered, hdelivered]
  rfl

end

/-- However the moves of the two parties are interleaved, if the flag is raised from outside
between two operations only: what the driver is told are the reports of a walk, and all reports of
walks come about; so two drivers that did the same operations were told the same and have the same
books.  The events come in order, none twice and none left out, and are counted as they come.  No
channel is closed twice or sent on after it was closed, and in an operation there is always a
move. -/
theorem schedule_independent (p : Program) (context : Context) (journal : Journal) :
    (∀ history, (∃ s, Reachable p context journal false s ∧ s.activity = .idle ∧
        s.history = history) ↔
      ∃ w, Walk.Driven (.start p .quiet context journal) history w) ∧
    (∀ s s', Reachable p context journal false s → Reachable p context journal false s' →
      s.activity = .idle → s'.activity = .idle →
      s.history.map Walk.Report.operation = s'.history.map Walk.Report.operation →
        s.history = s'.history ∧ s.steps = s'.steps ∧ s.tally = s'.tally ∧
          s.journal = s'.journal) ∧
    ∀ s, Reachable p context journal false s →
      s.received.length = s.steps ∧
      (∀ limit, s.steps ≤ limit ∨ (p.recorded limit).1 ≠ .error .tooDeep →
        s.received <+: (p.recorded limit).2.seen.2) ∧
      s.evaluator.events.broken = false ∧ s.evaluator.done.broken = false ∧
      (s.activity ≠ .idle → ∃ s', Move s s') := by
  refine ⟨fun history => ⟨?_, ?_⟩, ?_, ?_⟩
  · rintro ⟨s, h, -, rfl⟩
    obtain ⟨w, hdriven, -⟩ := h.follows
    exact ⟨w, hdriven⟩
  · rintro ⟨w, hdriven⟩
    exact Reachable.exists_driven hdriven .start rfl (.nil _)
  · intro s s' h h' hidle hidle' hops
    obtain ⟨w, hdriven, hbooks⟩ := h.follows
    obtain ⟨w', hdriven', hbooks'⟩ := h'.follows
    obtain ⟨hhistory, rfl⟩ := hdriven.unique hdriven' hops
    unfold Underway at hbooks hbooks'
    rw [hidle] at hbooks
    rw [hidle'] at hbooks'
    obtain ⟨⟨-, hjournal, htally, hsteps⟩, -⟩ := hbooks
    obtain ⟨⟨-, hjournal', htally', hsteps'⟩, -⟩ := hbooks'
    exact ⟨hhistory, hsteps.trans hsteps'.symm, htally.trans htally'.symm,
      hjournal.trans hjournal'.symm⟩
  · intro s h
    obtain ⟨history, w, hdriven, hreceived, hsteps⟩ := h.received_walk
    have hlength : s.received.length = s.steps := by
      rw [← hreceived, ← hsteps, hdriven.entered.steps]
      exact (Nat.zero_add _).symm
    obtain ⟨hevents, hdone⟩ := h.disciplined.tidy
    refine ⟨hlength, fun limit hlimit => ?_, congrArg Channel.broken hevents,
      congrArg Channel.broken hdone, h.disciplined.not_stuck⟩
    rw [← hlength, ← hreceived] at hlimit
    rw [← hreceived]
    exact hdriven.agrees hlimit

/-- Two parties come to have walked into the call, been cancelled there and gone on asking, and
whoever did the same was told the same. -/
theorem selfApplied_schedule_independent :
    ∃ s, Reachable selfApplied .background {} false s ∧ s.activity = .idle ∧
      s.history.map Walk.Report.operation =
        .replicate 8 .next ++ [.cancel, .next, .result, .close] ∧
      s.received.length = 8 ∧ s.steps = 8 ∧ s.received <+: (selfApplied.recorded 8).2.seen.2 ∧
      ∀ s', Reachable selfApplied .background {} false s' → s'.activity = .idle →
        s.history.map Walk.Report.operation = s'.history.map Walk.Report.operation →
          s.history = s'.history := by
  obtain ⟨history, w, hdriven, hops, hlength⟩ := selfApplied_driven
  obtain ⟨hhistories, hsame, hstates⟩ := schedule_independent selfApplied .background {}
  obtain ⟨s, h, hidle, rfl⟩ := (hhistories history).mpr ⟨w, hdriven⟩
  obtain ⟨hsteps, hreceived, -⟩ := hstates s h
  have height : s.received.length = 8 := by
    rw [received, hidle]
    exact (congrArg List.length (List.append_nil _)).trans hlength
  rw [height] at hsteps
  exact ⟨s, h, hidle, hops, height, hsteps.symm, hreceived 8 (.inl (Nat.le_of_eq hsteps.symm)),
    fun s' h' hidle' hops' => (hsame s s' h h' hidle hidle' hops').1⟩

end Handoff
end Stepwise
