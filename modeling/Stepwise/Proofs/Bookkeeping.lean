/-
The books of a walk: how many events it has delivered, how many of each kind, their names in the
trace of its context, and a note of each in the log.

The log is also written by the evaluation itself, which notes the calls it makes; so the notes of
delivered events are picked out of it, and the machine is shown to add none.  `Walk.Entered` says
that the books have grown by a list of events, in all four places at once, and one call of `next`
enters what it delivers (`Walk.entered_next`).
-/
import Stepwise.Proofs.Walking

namespace Stepwise

variable {ε : Type}

/-! ## Counters and traces -/

theorem Tally.count_bump (t : Tally) (key k : Text) :
    (t.bump key).count k = t.count k + if k = key then 1 else 0 := by
  unfold bump count
  simp only
  induction t.counts with
  | nil =>
    by_cases hk : k = key
    · simp [bumpIn, hk]
    · simp [bumpIn, hk, List.lookup_cons, beq_eq_false_iff_ne.mpr hk]
  | cons entry rest ih =>
    obtain ⟨k', n⟩ := entry
    rw [bumpIn]
    by_cases hk' : k' = key
    · subst hk'
      by_cases hk : k = k'
      · simp [hk]
      · simp [hk, List.lookup_cons, beq_eq_false_iff_ne.mpr hk]
    · rw [if_neg hk']
      by_cases hk : k = k'
      · subst hk
        simp [hk']
      · simp only [List.lookup_cons, beq_eq_false_iff_ne.mpr hk]
        exact ih

theorem Tally.stepKey_injective {kind kind' : EventKind} (h : stepKey kind = stepKey kind') :
    kind = kind' := by
  have hname : kind.name = kind'.name := List.append_cancel_left h
  revert hname
  cases kind <;> cases kind' <;> decide

theorem Journal.names?_record (j : Journal) (c : Context) (name : Text) :
    (j.record c name).names? c = (j.names? c).map (· ++ [name]) := by
  unfold record names? trace?
  cases c.trace? with
  | none => rfl
  | some i =>
    simp only [Option.bind_eq_bind, Option.bind_some, Array.getElem?_modify, if_true]
    cases j.traces[i]? with
    | none => rfl
    | some t => simp

/-! ## Notes of delivered events -/

def LogEntry.isStep : LogEntry → Bool
  | stepped .. => true
  | _ => false

namespace Memory

def stepNotes (m : Memory) : List LogEntry := m.log.toList.filter LogEntry.isStep

theorem stepNotes_note (m : Memory) (entry : LogEntry) :
    (m.note entry).stepNotes = m.stepNotes ++ if entry.isStep then [entry] else [] := by
  unfold stepNotes note
  rw [Array.toList_push, List.filter_append]
  cases hstep : entry.isStep <;> simp [hstep]

theorem stepNotes_bind {m m' : Memory} {e : EnvId} {name : Text} {v : Value}
    (h : m.bind e name v = some m') : m'.stepNotes = m.stepNotes := by
  obtain ⟨store, -, rfl⟩ := Option.map_eq_some_iff.mp h
  rfl

theorem stepNotes_declare {m m' : Memory} {e : EnvId} {decl : FunctionDecl} {f : Value}
    (h : m.declare e decl = some (f, m')) : m'.stepNotes = m.stepNotes := by
  obtain ⟨store, -, heq⟩ := Option.map_eq_some_iff.mp h
  cases heq
  rfl

theorem stepNotes_beginCall (m : Memory) (f : Closure) (e : EnvId) (argument : Text) (v : Value) :
    (m.beginCall f e argument v).stepNotes = m.stepNotes := by
  rw [beginCall, stepNotes_note]
  exact List.append_nil _

theorem stepNotes_endCall (m : Memory) (name : Text) (e : EnvId) :
    (m.endCall name e).stepNotes = m.stepNotes := by
  unfold endCall
  cases m.store.pop e with
  | some store => rfl
  | none =>
    simp only
    rw [stepNotes_note]
    exact List.append_nil _

end Memory

namespace Machine

theorem stepNotes_unwind (calls : List Activation) (memory : Memory) :
    (unwind calls memory).stepNotes = memory.stepNotes := by
  induction calls generalizing memory with
  | nil => rfl
  | cons a calls ih => exact (ih _).trans (memory.stepNotes_endCall a.decl.name a.env)

theorem stepNotes_proceed (m : Machine) (calls : List Activation) :
    ∀ (last : Option Value) (rest : List Statement) (memory : Memory),
      (m.proceed (ε := ε) calls last rest memory).1.stepNotes = memory.stepNotes := by
  induction calls with
  | nil =>
    intro last rest memory
    cases rest with
    | cons s rest => rfl
    | nil => cases last <;> rfl
  | cons a calls ih =>
    intro last rest memory
    cases rest with
    | cons s rest => rfl
    | nil =>
      rw [proceed]
      cases returnValue (ε := ε) memory.store a.env a.decl with
      | error why => exact stepNotes_unwind (a :: calls) memory
      | ok v =>
        have hend := memory.stepNotes_endCall a.decl.name a.env
        simp only
        cases hb : (memory.endCall a.decl.name a.env).bind (currentEnv m.globalEnv calls)
            a.target v with
        | none => exact (stepNotes_unwind calls _).trans hend
        | some bound => exact (ih _ _ _).trans ((Memory.stepNotes_bind hb).trans hend)

theorem stepNotes_bindAndProceed (m : Machine) (name : Text) (v : Value) (rest : List Statement)
    (memory : Memory) :
    (m.bindAndProceed (ε := ε) name v rest memory).1.stepNotes = memory.stepNotes := by
  unfold bindAndProceed
  cases hb : memory.bind (currentEnv m.globalEnv m.calls) name v with
  | none => exact stepNotes_unwind m.calls memory
  | some bound => exact (stepNotes_proceed m _ _ _ _).trans (Memory.stepNotes_bind hb)

theorem stepNotes_resume (m : Machine) (memory : Memory) :
    (m.resume (ε := ε) memory).1.stepNotes = memory.stepNotes := by
  have habort : ∀ why : Stop ε, (abort m.calls why memory).1.stepNotes = memory.stepNotes :=
    fun _ => stepNotes_unwind m.calls memory
  unfold resume
  cases m.task with
  | start => rfl
  | sourceFile => rfl
  | functionBody decl => rfl
  | statementList ss => exact stepNotes_proceed m _ _ _ _
  | statement s rest =>
    cases s with
    | define name value pos => rfl
    | function name parameter body ret pos => rfl
    | hole => exact habort _
  | define name value pos rest =>
    cases value with
    | literal lexeme =>
      simp only
      cases literalValue name pos lexeme with
      | error d => exact habort _
      | ok v => exact stepNotes_bindAndProceed m _ _ _ _
    | call callee argument =>
      simp only
      cases resolveCall memory.store (currentEnv m.globalEnv m.calls) callee argument pos with
      | error d => exact habort _
      | ok fv =>
        simp only [enter]
        cases fv.1.capture with
        | detached tag => exact habort _
        | env e => exact memory.stepNotes_beginCall fv.1 e argument fv.2
    | hole => exact habort _
  | declare decl rest =>
    simp only
    cases hd : memory.declare (currentEnv m.globalEnv m.calls) decl with
    | none => exact habort _
    | some fm => exact (stepNotes_proceed m _ _ _ _).trans (Memory.stepNotes_declare hd)

end Machine

/-! ## What a walk enters in its books -/

/-- What is noted in the log of an event, the `number`-th one delivered. -/
def Observer.Sighting.note (number : Nat) (s : Observer.Sighting) : LogEntry :=
  .stepped number s.event.kind (s.store.envText s.event.env)

namespace Walk

/-- The books of the later walk are those of `w` and, after them, the entries for `events`. -/
structure Entered (w : Walk) (events : List Observer.Sighting) (w' : Walk) : Prop where
  context : w'.context = w.context
  steps : w'.steps = w.steps + events.length
  counted : ∀ kind, w'.tally.count (Tally.stepKey kind) =
    w.tally.count (Tally.stepKey kind) + events.countP fun s => s.event.kind = kind
  traced : w'.journal.names? w.context =
    (w.journal.names? w.context).map (· ++ events.map fun s => s.event.kind.name)
  noted : w'.memory.stepNotes =
    w.memory.stepNotes ++ events.mapIdx fun i s => s.note (w.steps + i + 1)

namespace Entered

variable {w w' w'' : Walk} {events events' : List Observer.Sighting}

theorem nil (hcontext : w'.context = w.context) (hsteps : w'.steps = w.steps)
    (htally : w'.tally = w.tally) (hjournal : w'.journal = w.journal)
    (hnotes : w'.memory.stepNotes = w.memory.stepNotes) : Entered w [] w' where
  context := hcontext
  steps := hsteps
  counted kind := by rw [htally]; rfl
  traced := by rw [hjournal]; simp
  noted := by rw [hnotes]; simp

theorem trans (h : Entered w events w') (g : Entered w' events' w'') :
    Entered w (events ++ events') w'' where
  context := g.context.trans h.context
  steps := by
    rw [g.steps, h.steps, List.length_append]
    omega
  counted kind := by
    rw [g.counted, h.counted, List.countP_append]
    omega
  traced := by
    have hlater := g.traced
    rw [h.context] at hlater
    rw [hlater, h.traced, Option.map_map]
    congr 1
    funext names
    simp
  noted := by
    have hnumber : ∀ i, w'.steps + i + 1 = w.steps + (i + events.length) + 1 := by
      intro i
      rw [h.steps]
      omega
    rw [g.noted, h.noted, List.mapIdx_append, List.append_assoc]
    simp only [hnumber]

end Entered

theorem entered_deliver (w : Walk) (m : Machine) :
    Entered w [{ event := m.event, store := w.memory.store }] (w.deliver m).2 where
  context := rfl
  steps := rfl
  counted kind := by
    show (w.tally.bump (Tally.stepKey m.event.kind)).count (Tally.stepKey kind) = _
    rw [Tally.count_bump, List.countP_singleton]
    by_cases hkind : m.event.kind = kind
    · simp [hkind]
    · have hkey : Tally.stepKey kind ≠ Tally.stepKey m.event.kind :=
        fun h => hkind (Tally.stepKey_injective h).symm
      simp [hkind, hkey]
  traced := Journal.names?_record w.journal w.context m.event.kind.name
  noted := by
    show (w.memory.note _).stepNotes = _
    rw [Memory.stepNotes_note]
    rfl

theorem entered_next (w : Walk) : Entered w w.answer.toList w.next.2 := by
  unfold answer next
  rcases w.phase with m | m | outcome
  · exact entered_deliver w m
  · have hnotes := Machine.stepNotes_resume (ε := Interrupt) m w.memory
    simp only
    rcases hresume : m.resume (ε := Interrupt) w.memory with ⟨memory, m' | outcome⟩
    · rw [hresume] at hnotes
      have hresumed : Entered w [] { w with memory } := .nil rfl rfl rfl rfl hnotes
      exact hresumed.trans (entered_deliver { w with memory } m')
    · rw [hresume] at hnotes
      exact .nil rfl rfl rfl rfl hnotes
  · exact .nil rfl rfl rfl rfl rfl

theorem entered_stop (w : Walk) (why : Interrupt) : Entered w [] (w.stop why) := by
  unfold stop
  rcases w.phase with m | m | outcome
  · exact .nil rfl rfl rfl rfl rfl
  · exact .nil rfl rfl rfl rfl (Machine.stepNotes_unwind m.calls w.memory)
  · exact .nil rfl rfl rfl rfl rfl

end Walk
end Stepwise
