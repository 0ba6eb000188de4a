/-
The hand-off between two parties.

A walk can be had by running the evaluation as a party of its own.  It waits at every event until
the driver, the other party, tells it to go on, and the driver waits until it is handed the next
event or finds that there are none.  They meet on two channels without a buffer, one to go on and
one for events; the evaluator closes the channel of events, and then another that says that it is
done.  A flag that is raised to cancel the evaluation, by the driver or from outside, wakes an
evaluator that waits.

Here the parties move one small step at a time and in any order.  What one party does while the
other is under way is bounded by `Disciplined`, which every move keeps; it follows that the
channels are used as they should be, and that there is always a move while the driver is not
through with an operation (`Disciplined.not_stuck`).
-/
import Stepwise.Proofs.Driving

namespace Stepwise

open Observer (Sighting)

/-! ## The evaluator -/

/-- A channel without a buffer.  What passes through it is a move of both parties, so all there is
to know is whether it was closed. -/
structure Channel where
  closed : Bool := false
  /-- Whether it was closed twice, or something was sent after it was closed. -/
  broken : Bool := false

namespace Channel

def close (c : Channel) : Channel := { closed := true, broken := c.broken || c.closed }

def sendClosed (c : Channel) : Channel := { c with broken := true }

end Channel

namespace Handoff

/-- Where an evaluator waits: before the first event, or after the event of the machine. -/
inductive Pause where
  | before (m : Machine)
  | after (m : Machine)

namespace Pause

def calls : Pause → List Activation
  | before _ => []
  | after m => m.calls

def phase : Pause → Walk.Phase
  | before m => .waiting m
  | after m => .parked m

def ahead (memory : Memory) : Pause → Memory × Machine.Progress Interrupt
  | before m => (memory, .parked m)
  | after m => m.resume memory

end Pause

/-- Where the evaluator is.  Woken, it looks whether it was cancelled.  It works up to the next
event, looks again, and hands the event over unless it is cancelled first.  In the end it leaves
the calls that are running, closes its two channels, and leaves word of a failure. -/
inductive Stage where
  | waiting (q : Pause)
  | woken (q : Pause)
  | working (m : Machine)
  | announcing (m : Machine)
  | sending (m : Machine)
  | leaving (calls : List Activation) (why : Stop Interrupt)
  | returned (failure : Option (Stop Interrupt))
  | eventsClosed (failure : Option (Stop Interrupt))
  | doneClosed (failure : Option (Stop Interrupt))
  | exited

namespace Stage

def isWaiting : Stage → Bool
  | waiting _ => true
  | _ => false

/-- Busy with an event that has not been handed over. -/
def isAtWork : Stage → Bool
  | working _ => true
  | announcing _ => true
  | sending _ => true
  | _ => false

/-- On the way from waiting to the end. -/
def isRetreating : Stage → Bool
  | woken _ => true
  | leaving .. => true
  | returned _ => true
  | _ => false

def hasClosedEvents : Stage → Bool
  | eventsClosed _ => true
  | doneClosed _ => true
  | exited => true
  | _ => false

def hasClosedDone : Stage → Bool
  | doneClosed _ => true
  | exited => true
  | _ => false

theorem not_waiting_of_hasClosedEvents {stage : Stage} (h : stage.hasClosedEvents = true) :
    stage.isWaiting = false := by
  cases stage with
  | waiting q => cases h
  | _ => rfl

end Stage

structure Evaluator where
  stage : Stage
  memory : Memory
  cancelled : Bool := false
  events : Channel := {}
  done : Channel := {}
  /-- The value of the program, once there is one. -/
  value : Value := .absent
  /-- Why there is none, if the evaluator has left word. -/
  failure : Option (Stop Interrupt) := none

/-- How an evaluation ended. -/
def conclude (failure : Option (Stop Interrupt)) (value : Value) : Except (Stop Interrupt) Value :=
  match failure with
  | some why => .error why
  | none => .ok value

inductive Evaluator.Move (e : Evaluator) : Evaluator → Prop where
  | wake {q : Pause} (hstage : e.stage = .waiting q) (hcancelled : e.cancelled = true) :
      Move e { e with stage := .woken q }
  | refuse {q : Pause} (hstage : e.stage = .woken q) (hcancelled : e.cancelled = true) :
      Move e { e with stage := .leaving q.calls (.interrupted .canceled) }
  | begin {m : Machine} (hstage : e.stage = .woken (.before m)) (hcancelled : e.cancelled = false) :
      Move e { e with stage := .announcing m }
  | goOn {m : Machine} (hstage : e.stage = .woken (.after m)) (hcancelled : e.cancelled = false) :
      Move e { e with stage := .working m }
  | work {m m' : Machine} {memory : Memory} (hstage : e.stage = .working m)
      (hresume : m.resume (ε := Interrupt) e.memory = (memory, .parked m')) :
      Move e { e with stage := .announcing m', memory }
  | succeed {m : Machine} {memory : Memory} {value : Value} (hstage : e.stage = .working m)
      (hresume : m.resume (ε := Interrupt) e.memory = (memory, .ended (.ok value))) :
      Move e { e with stage := .returned none, memory, value }
  | fail {m : Machine} {memory : Memory} {why : Stop Interrupt} (hstage : e.stage = .working m)
      (hresume : m.resume e.memory = (memory, .ended (.error why))) :
      Move e { e with stage := .returned (some why), memory }
  | offer {m : Machine} (hstage : e.stage = .announcing m) (hcancelled : e.cancelled = false) :
      Move e { e with stage := .sending m }
  | withdraw {m : Machine} (hstage : e.stage = .announcing m) (hcancelled : e.cancelled = true) :
      Move e { e with stage := .leaving m.calls (.interrupted .canceled) }
  | giveUp {m : Machine} (hstage : e.stage = .sending m) (hcancelled : e.cancelled = true) :
      Move e { e with stage := .leaving m.calls (.interrupted .canceled) }
  | sendClosed {m : Machine} (hstage : e.stage = .sending m) (hclosed : e.events.closed = true) :
      Move e { e with events := e.events.sendClosed }
  | leave {a : Activation} {calls : List Activation} {why : Stop Interrupt}
      (hstage : e.stage = .leaving (a :: calls) why) :
      Move e
        { e with stage := .leaving calls why, memory := e.memory.endCall a.decl.name a.env }
  | left {why : Stop Interrupt} (hstage : e.stage = .leaving [] why) :
      Move e { e with stage := .returned (some why) }
  | closeEvents {failure : Option (Stop Interrupt)} (hstage : e.stage = .returned failure) :
      Move e { e with stage := .eventsClosed failure, events := e.events.close }
  | closeDone {failure : Option (Stop Interrupt)} (hstage : e.stage = .eventsClosed failure) :
      Move e { e with stage := .doneClosed failure, done := e.done.close }
  /-- A failure also raises the flag. -/
  | exit {failure : Option (Stop Interrupt)} (hstage : e.stage = .doneClosed failure) :
      Move e
        { e with stage := .exited, failure, cancelled := e.cancelled || failure.isSome }

/-! ## The driver -/

/-- Why the driver asks for an event.  On the way to the result it keeps those it has passed. -/
inductive Purpose where
  | next
  | result (passed : List Sighting)

/-- Where the driver is.  Entering, it looks whether it knows already that there are no more
events.  It offers to go on, which the evaluator takes up unless it is done; then it receives an
event, to be entered in the books, or finds the channel closed.  For the result it also waits until
the evaluator has exited, and so it does to close the walk, after raising the flag. -/
inductive Activity where
  | idle
  | entering (purpose : Purpose)
  | offering (purpose : Purpose)
  | receiving (purpose : Purpose)
  | noting (purpose : Purpose) (event : Event)
  | awaiting (passed : List Sighting)
  | cancelling
  | closing

end Handoff

/-- Both parties, and what the driver keeps for itself. -/
structure Handoff where
  activity : Handoff.Activity := .idle
  evaluator : Handoff.Evaluator
  /-- Whether the driver knows that there are no more events. -/
  finished : Bool := false
  context : Context
  journal : Journal
  tally : Tally := {}
  steps : Nat := 0
  /-- What came of the operations so far. -/
  history : List Walk.Report := []

namespace Handoff

def start (p : Program) (context : Context) (journal : Journal) : Handoff :=
  { evaluator := { stage := .waiting (.before (.init p Memory.globalEnv)), memory := .fresh }
    context
    journal }

def turnAway (s : Handoff) : Purpose → Handoff
  | .next => { s with activity := .idle, history := s.history ++ [.next none] }
  | .result passed => { s with activity := .awaiting passed }

def enter (s : Handoff) (ev : Event) : Handoff :=
  let memory := s.evaluator.memory
  let steps := s.steps + 1
  { s with
    evaluator := { s.evaluator with
      memory := memory.note (.stepped steps ev.kind (memory.store.envText ev.env)) }
    journal := s.journal.record s.context ev.kind.name
    tally := s.tally.bump (Tally.stepKey ev.kind)
    steps }

def receive (s : Handoff) (seen : Sighting) : Purpose → Handoff
  | .next => { s with activity := .idle, history := s.history ++ [.next (some seen)] }
  | .result passed => { s with activity := .entering (.result (passed ++ [seen])) }

def cancel (s : Handoff) : Handoff :=
  { s with
    evaluator := { s.evaluator with cancelled := true }
    history := s.history ++ [.cancelled] }

inductive DriverMove (s : Handoff) : Handoff → Prop where
  | beginNext (hidle : s.activity = .idle) : DriverMove s { s with activity := .entering .next }
  | beginResult (hidle : s.activity = .idle) :
      DriverMove s { s with activity := .entering (.result []) }
  | beginClose (hidle : s.activity = .idle) : DriverMove s { s with activity := .cancelling }
  | knowFinished {purpose : Purpose} (hactivity : s.activity = .entering purpose)
      (hfinished : s.finished = true) : DriverMove s (s.turnAway purpose)
  | offer {purpose : Purpose} (hactivity : s.activity = .entering purpose)
      (hfinished : s.finished = false) : DriverMove s { s with activity := .offering purpose }
  | seeDone {purpose : Purpose} (hactivity : s.activity = .offering purpose)
      (hclosed : s.evaluator.done.closed = true) :
      DriverMove s { s.turnAway purpose with finished := true }
  | seeClosed {purpose : Purpose} (hactivity : s.activity = .receiving purpose)
      (hclosed : s.evaluator.events.closed = true) :
      DriverMove s { s.turnAway purpose with finished := true }
  | note {purpose : Purpose} {ev : Event} (hactivity : s.activity = .noting purpose ev) :
      DriverMove s
        ((s.enter ev).receive { event := ev, store := s.evaluator.memory.store } purpose)
  /-- Learning how the evaluation ended also raises the flag. -/
  | learn {passed : List Sighting} (hactivity : s.activity = .awaiting passed)
      (hexited : s.evaluator.stage = .exited) :
      DriverMove s
        { s with
          activity := .idle
          evaluator := { s.evaluator with cancelled := true }
          history := s.history ++
            [.result passed (conclude s.evaluator.failure s.evaluator.value)] }
  | raise (hactivity : s.activity = .cancelling) :
      DriverMove s
        { s with activity := .closing, evaluator := { s.evaluator with cancelled := true } }
  | closed (hactivity : s.activity = .closing) (hexited : s.evaluator.stage = .exited) :
      DriverMove s
        { s with activity := .idle, finished := true, history := s.history ++ [.closed] }

inductive Exchange (s : Handoff) : Handoff → Prop where
  | goOn {purpose : Purpose} {q : Pause} (hactivity : s.activity = .offering purpose)
      (hstage : s.evaluator.stage = .waiting q) :
      Exchange s
        { s with
          activity := .receiving purpose
          evaluator := { s.evaluator with stage := .woken q } }
  | event {purpose : Purpose} {m : Machine} (hactivity : s.activity = .receiving purpose)
      (hstage : s.evaluator.stage = .sending m) (hopen : s.evaluator.events.closed = false) :
      Exchange s
        { s with
          activity := .noting purpose m.event
          evaluator := { s.evaluator with stage := .waiting (.after m) } }

inductive Move (s : Handoff) : Handoff → Prop where
  | evaluator {e : Evaluator} (h : s.evaluator.Move e) : Move s { s with evaluator := e }
  | driver {s' : Handoff} (h : DriverMove s s') : Move s s'
  | both {s' : Handoff} (h : Exchange s s') : Move s s'

/-- What the parties can come to, if the flag may be raised from outside at any time, or only
between two operations. -/
inductive Reachable (p : Program) (context : Context) (journal : Journal) (anytime : Bool) :
    Handoff → Prop where
  | start : Reachable p context journal anytime (.start p context journal)
  | move {s s' : Handoff} (h : Reachable p context journal anytime s) (hmove : Move s s') :
      Reachable p context journal anytime s'
  | cancel {s : Handoff} (h : Reachable p context journal anytime s)
      (hwhen : anytime = true ∨ s.activity = .idle) :
      Reachable p context journal anytime s.cancel

/-! ## Discipline -/

namespace Evaluator

/-- The evaluator waits, or is on the way to the end because it was cancelled, or is past it. -/
def AtRest (e : Evaluator) : Prop :=
  e.stage.isWaiting = true ∨ (e.cancelled = true ∧ e.stage.isRetreating = true) ∨
    e.stage.hasClosedEvents = true

structure Tidy (e : Evaluator) : Prop where
  events : e.events = { closed := e.stage.hasClosedEvents, broken := false }
  done : e.done = { closed := e.stage.hasClosedDone, broken := false }

structure Stays (e e' : Evaluator) : Prop where
  stage : e'.stage = e.stage
  events : e'.events = e.events
  done : e'.done = e.done
  cancelled : e.cancelled = true → e'.cancelled = true

section

variable {e e' : Evaluator}

theorem Move.cancelled (h : e.Move e') (hc : e.cancelled = true) : e'.cancelled = true := by
  cases h with
  | exit hstage => simp [hc]
  | _ => exact hc

theorem Move.not_waiting (h : e.Move e') : e'.stage.isWaiting = false := by
  cases h with
  | sendClosed hstage => rw [hstage]; rfl
  | _ => rfl

theorem Move.hasClosedEvents (h : e.Move e') (hc : e.stage.hasClosedEvents = true) :
    e'.stage.hasClosedEvents = true := by
  cases h with
  | closeEvents hstage | closeDone hstage | exit hstage => rfl
  | wake hstage | refuse hstage | begin hstage | goOn hstage | work hstage | succeed hstage
  | fail hstage | offer hstage | withdraw hstage | giveUp hstage | sendClosed hstage | leave hstage
  | left hstage =>
    rw [hstage] at hc
    cases hc

theorem Move.atRest (h : e.Move e') (hrest : e.AtRest) : e'.AtRest := by
  cases h with
  | wake hstage hc | refuse hstage hc => exact .inr (.inl ⟨hc, rfl⟩)
  | closeEvents hstage | closeDone hstage | exit hstage => exact .inr (.inr rfl)
  | begin hstage hc | goOn hstage hc =>
    rw [AtRest, hstage, hc] at hrest
    rcases hrest with h | ⟨h, -⟩ | h <;> cases h
  | leave hstage | left hstage =>
    rw [AtRest, hstage] at hrest
    rcases hrest with h | ⟨hc, -⟩ | h
    · cases h
    · exact .inr (.inl ⟨hc, rfl⟩)
    · cases h
  | work hstage | succeed hstage | fail hstage | offer hstage | withdraw hstage | giveUp hstage
  | sendClosed hstage =>
    rw [AtRest, hstage] at hrest
    rcases hrest with h | ⟨-, h⟩ | h <;> cases h

theorem AtRest.not_atWork (h : e.AtRest) : e.stage.isAtWork = false := by
  cases hstage : e.stage with
  | working | announcing | sending =>
    rw [AtRest, hstage] at h
    rcases h with h | ⟨-, h⟩ | h <;> cases h
  | _ => rfl

theorem Stays.atRest (h : e.Stays e') (hrest : e.AtRest) : e'.AtRest := by
  rw [AtRest, h.stage]
  exact hrest.imp_right (.imp_left (.imp_left h.cancelled))

theorem Stays.tidy (h : e.Stays e') (ht : e.Tidy) : e'.Tidy :=
  ⟨by rw [h.events, h.stage]; exact ht.events, by rw [h.done, h.stage]; exact ht.done⟩

theorem Tidy.events_closed (h : e.Tidy) : e.events.closed = e.stage.hasClosedEvents :=
  congrArg Channel.closed h.events

theorem Tidy.done_closed (h : e.Tidy) : e.done.closed = e.stage.hasClosedDone :=
  congrArg Channel.closed h.done

theorem Move.tidy (h : e.Move e') (ht : e.Tidy) : e'.Tidy := by
  obtain ⟨hevents, hdone⟩ := ht
  cases h with
  | sendClosed hstage hclosed =>
    rw [hevents, hstage] at hclosed
    cases hclosed
  | closeEvents hstage =>
    rw [hstage] at hevents hdone
    refine ⟨?_, hdone⟩
    show e.events.close = _
    rw [hevents]
    rfl
  | closeDone hstage =>
    rw [hstage] at hevents hdone
    refine ⟨hevents, ?_⟩
    show e.done.close = _
    rw [hdone]
    rfl
  | wake hstage | refuse hstage | begin hstage | goOn hstage | work hstage | succeed hstage
  | fail hstage | offer hstage | withdraw hstage | giveUp hstage | leave hstage | left hstage
  | exit hstage =>
    rw [hstage] at hevents hdone
    exact ⟨hevents, hdone⟩

/-- An evaluator that cannot move waits for the driver, or has exited. -/
theorem exists_move (e : Evaluator) (hwaiting : e.stage.isWaiting = true → e.cancelled = true)
    (hsending : ∀ m, e.stage ≠ .sending m) (hexited : e.stage ≠ .exited) : ∃ e', e.Move e' := by
  cases hstage : e.stage with
  | waiting q =>
    rw [hstage] at hwaiting
    exact ⟨_, .wake hstage (hwaiting rfl)⟩
  | woken q =>
    cases hc : e.cancelled with
    | true => exact ⟨_, .refuse hstage hc⟩
    | false =>
      cases q with
      | before m => exact ⟨_, .begin hstage hc⟩
      | after m => exact ⟨_, .goOn hstage hc⟩
  | working m =>
    rcases hresume : m.resume (ε := Interrupt) e.memory with ⟨memory, m' | ⟨why⟩ | ⟨value⟩⟩
    · exact ⟨_, .work hstage hresume⟩
    · exact ⟨_, .fail hstage hresume⟩
    · exact ⟨_, .succeed hstage hresume⟩
  | announcing m =>
    cases hc : e.cancelled with
    | true => exact ⟨_, .withdraw hstage hc⟩
    | false => exact ⟨_, .offer hstage hc⟩
  | sending m => exact absurd hstage (hsending m)
  | leaving calls why =>
    cases calls with
    | nil => exact ⟨_, .left hstage⟩
    | cons a calls => exact ⟨_, .leave hstage⟩
  | returned failure => exact ⟨_, .closeEvents hstage⟩
  | eventsClosed failure => exact ⟨_, .closeDone hstage⟩
  | doneClosed failure => exact ⟨_, .exit hstage⟩
  | exited => exact absurd hstage hexited

end
end Evaluator

/-- What holds of the two parties at any time: the evaluator is at work only while the driver
waits for it. -/
structure Disciplined (s : Handoff) : Prop where
  tidy : s.evaluator.Tidy
  receiving : ∀ purpose, s.activity = .receiving purpose → s.evaluator.stage.isWaiting = false
  atRest : (∀ purpose, s.activity ≠ .receiving purpose) → s.evaluator.AtRest
  finished : s.finished = true → s.evaluator.stage.hasClosedEvents = true
  awaiting : ∀ passed, s.activity = .awaiting passed → s.evaluator.stage.hasClosedEvents = true
  closing : s.activity = .closing → s.evaluator.cancelled = true

namespace Disciplined

variable {s s' : Handoff}

theorem start (p : Program) (context : Context) (journal : Journal) :
    (Handoff.start p context journal).Disciplined where
  tidy := ⟨rfl, rfl⟩
  receiving _ h := by cases h
  atRest _ := .inl rfl
  finished h := by cases h
  awaiting _ h := by cases h
  closing h := by cases h

theorem atRest_of (h : s.Disciplined) {activity : Activity} (hactivity : s.activity = activity)
    (hne : ∀ purpose, activity ≠ .receiving purpose) : s.evaluator.AtRest :=
  h.atRest fun purpose => hactivity ▸ hne purpose

theorem evaluator (h : s.Disciplined) {e : Evaluator} (hmove : s.evaluator.Move e) :
    Disciplined { s with evaluator := e } where
  tidy := hmove.tidy h.tidy
  receiving _ _ := hmove.not_waiting
  atRest hactivity := hmove.atRest (h.atRest hactivity)
  finished hfinished := hmove.hasClosedEvents (h.finished hfinished)
  awaiting passed hactivity := hmove.hasClosedEvents (h.awaiting passed hactivity)
  closing hactivity := hmove.cancelled (h.closing hactivity)

theorem turn (h : s.Disciplined) (hrest : s.evaluator.AtRest)
    (hactivity : ∀ purpose, s'.activity ≠ .receiving purpose)
    (hstays : s.evaluator.Stays s'.evaluator)
    (hfinished : s'.finished = true → s.evaluator.stage.hasClosedEvents = true)
    (hawaiting : ∀ passed, s'.activity = .awaiting passed →
      s.evaluator.stage.hasClosedEvents = true)
    (hclosing : s'.activity = .closing → s'.evaluator.cancelled = true) : s'.Disciplined where
  tidy := hstays.tidy h.tidy
  receiving purpose hreceiving := absurd hreceiving (hactivity purpose)
  atRest _ := hstays.atRest hrest
  finished := by rw [hstays.stage]; exact hfinished
  awaiting := by rw [hstays.stage]; exact hawaiting
  closing := hclosing

/-- Either channel is closed only when there are no more events. -/
theorem hasClosedEvents (h : s.Disciplined)
    (hclosed : s.evaluator.events.closed = true ∨ s.evaluator.done.closed = true) :
    s.evaluator.stage.hasClosedEvents = true := by
  rw [h.tidy.events_closed, h.tidy.done_closed] at hclosed
  rcases hclosed with hclosed | hclosed
  · exact hclosed
  · cases hstage : s.evaluator.stage with
    | doneClosed | exited => rfl
    | _ =>
      rw [hstage] at hclosed
      cases hclosed

theorem turnAway (h : s.Disciplined) (hclosed : s.evaluator.stage.hasClosedEvents = true)
    (purpose : Purpose) (finished : Bool) :
    Disciplined { s.turnAway purpose with finished } := by
  have hrest : s.evaluator.AtRest := .inr (.inr hclosed)
  cases purpose with
  | next =>
    exact h.turn hrest nofun ⟨rfl, rfl, rfl, id⟩ (fun _ => hclosed) nofun nofun
  | result passed =>
    exact h.turn hrest nofun ⟨rfl, rfl, rfl, id⟩ (fun _ => hclosed) (fun _ _ => hclosed) nofun

theorem driver (h : s.Disciplined) (hmove : DriverMove s s') : s'.Disciplined := by
  cases hmove with
  | beginNext hactivity | beginResult hactivity | beginClose hactivity | offer hactivity =>
    exact h.turn (h.atRest_of hactivity nofun) nofun ⟨rfl, rfl, rfl, id⟩ h.finished nofun nofun
  | @knowFinished purpose _ hfinished =>
    exact h.turnAway (h.finished hfinished) purpose (s.turnAway purpose).finished
  | @seeDone purpose _ hclosed =>
    exact h.turnAway (h.hasClosedEvents (.inr hclosed)) purpose true
  | @seeClosed purpose _ hclosed =>
    exact h.turnAway (h.hasClosedEvents (.inl hclosed)) purpose true
  | @note purpose ev hactivity =>
    cases purpose with
    | next => exact h.turn (h.atRest_of hactivity nofun) nofun ⟨rfl, rfl, rfl, id⟩ h.finished nofun nofun
    | result passed =>
      exact h.turn (h.atRest_of hactivity nofun) nofun ⟨rfl, rfl, rfl, id⟩ h.finished nofun nofun
  | learn hactivity hexited =>
    exact h.turn (h.atRest_of hactivity nofun) nofun ⟨rfl, rfl, rfl, fun _ => rfl⟩ h.finished nofun nofun
  | raise hactivity =>
    exact h.turn (h.atRest_of hactivity nofun) nofun ⟨rfl, rfl, rfl, fun _ => rfl⟩ h.finished nofun
      fun _ => rfl
  | closed hactivity hexited =>
    refine h.turn (h.atRest_of hactivity nofun) nofun ⟨rfl, rfl, rfl, id⟩ (fun _ => ?_) nofun nofun
    rw [hexited]
    rfl

theorem both (h : s.Disciplined) (hmove : Exchange s s') : s'.Disciplined := by
  obtain ⟨hevents, hdone⟩ := h.tidy
  have hfinished := h.finished
  cases hmove with
  | goOn hactivity hstage =>
    rw [hstage] at hevents hdone hfinished
    exact ⟨⟨hevents, hdone⟩, fun _ _ => rfl, fun hne => absurd rfl (hne _),
      fun h => absurd (hfinished h) nofun, nofun, nofun⟩
  | event hactivity hstage hopen =>
    rw [hstage] at hevents hdone hfinished
    exact ⟨⟨hevents, hdone⟩, nofun, fun _ => .inl rfl, fun h => absurd (hfinished h) nofun,
      nofun, nofun⟩

theorem move (h : s.Disciplined) (hmove : Move s s') : s'.Disciplined := by
  cases hmove with
  | evaluator hmove => exact h.evaluator hmove
  | driver hmove => exact h.driver hmove
  | both hmove => exact h.both hmove

theorem cancel (h : s.Disciplined) : s.cancel.Disciplined := by
  have hstays : s.evaluator.Stays s.cancel.evaluator := ⟨rfl, rfl, rfl, fun _ => rfl⟩
  exact ⟨hstays.tidy h.tidy, h.receiving, fun hactivity => hstays.atRest (h.atRest hactivity),
    h.finished, h.awaiting, fun _ => rfl⟩

end Disciplined

theorem Reachable.disciplined {p : Program} {context : Context} {journal : Journal}
    {anytime : Bool} {s : Handoff} (h : Reachable p context journal anytime s) :
    s.Disciplined := by
  induction h with
  | start => exact .start p context journal
  | move _ hmove ih => exact ih.move hmove
  | cancel _ _ ih => exact ih.cancel

/-- While the driver is not through with an operation, there is a move. -/
theorem Disciplined.not_stuck {s : Handoff} (h : s.Disciplined) (hidle : s.activity ≠ .idle) :
    ∃ s', Move s s' := by
  have hevaluator : (s.evaluator.stage.isWaiting = true → s.evaluator.cancelled = true) →
      (∀ m, s.evaluator.stage ≠ .sending m) → s.evaluator.stage ≠ .exited → ∃ s', Move s s' := by
    intro hwaiting hsending hexited
    obtain ⟨e, hmove⟩ := s.evaluator.exists_move hwaiting hsending hexited
    exact ⟨_, .evaluator hmove⟩
  have hsending : s.evaluator.AtRest → ∀ m, s.evaluator.stage ≠ .sending m := by
    intro hrest m hstage
    have hwork := hrest.not_atWork
    rw [hstage] at hwork
    cases hwork
  have hevents := h.tidy.events_closed
  have hdone := h.tidy.done_closed
  cases hactivity : s.activity with
  | idle => exact absurd hactivity hidle
  | entering purpose =>
    cases hfinished : s.finished with
    | true => exact ⟨_, .driver (.knowFinished hactivity hfinished)⟩
    | false => exact ⟨_, .driver (.offer hactivity hfinished)⟩
  | noting purpose ev => exact ⟨_, .driver (.note hactivity)⟩
  | cancelling => exact ⟨_, .driver (.raise hactivity)⟩
  | offering purpose =>
    -- An evaluator at rest can be told to go on, or can move, or has said that it is done.
    have hrest := h.atRest_of hactivity nofun
    cases hstage : s.evaluator.stage with
    | waiting q => exact ⟨_, .both (.goOn hactivity hstage)⟩
    | exited =>
      rw [hstage] at hdone
      exact ⟨_, .driver (.seeDone hactivity hdone)⟩
    | _ =>
      refine hevaluator (fun h => ?_) (hsending hrest) fun h => nomatch hstage.symm.trans h
      rw [hstage] at h
      cases h
  | receiving purpose =>
    -- An evaluator at work can move, or hand over an event, or has closed the channel.
    have hwaiting := h.receiving purpose hactivity
    cases hstage : s.evaluator.stage with
    | sending m =>
      rw [hstage] at hevents
      exact ⟨_, .both (.event hactivity hstage hevents)⟩
    | exited =>
      rw [hstage] at hevents
      exact ⟨_, .driver (.seeClosed hactivity hevents)⟩
    | _ =>
      refine hevaluator (fun h => nomatch hwaiting.symm.trans h) ?_ ?_ <;>
        intros <;> rw [hstage] <;> nofun
  | awaiting passed =>
    have hclosed := h.awaiting passed hactivity
    cases hstage : s.evaluator.stage with
    | exited => exact ⟨_, .driver (.learn hactivity hstage)⟩
    | eventsClosed failure => exact ⟨_, .evaluator (.closeDone hstage)⟩
    | doneClosed failure => exact ⟨_, .evaluator (.exit hstage)⟩
    | _ =>
      rw [hstage] at hclosed
      cases hclosed
  | closing =>
    have hrest := h.atRest_of hactivity nofun
    by_cases hstage : s.evaluator.stage = .exited
    · exact ⟨_, .driver (.closed hactivity hstage)⟩
    · exact hevaluator (fun _ => h.closing hactivity) (hsending hrest) hstage

end Handoff
end Stepwise
