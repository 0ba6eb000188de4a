/-
What the evaluator does while the driver is outside of all operations.

The driver and the evaluator take turns, so while the driver is not in an operation the evaluator
should stand still, and the environment of the last event with it.  That is so until the flag is
raised from outside.  The flag wakes the evaluator, which then leaves the calls that are running,
whether the driver is in an operation or not.  It does nothing else: no binding is made and no
call is entered (`Evaluator.Runs.leaves`), so an environment changes exactly if a call runs in it
that is still to be left.

Leaving a call takes a frame off its environment because the environments are balanced, which the
evaluator keeps wherever it is (`Evaluator.Situated`).
-/
import Stepwise.Proofs.Interleaving
import Stepwise.Proofs.Scoping

namespace Stepwise

/-! ## Leaving calls -/

namespace Machine

theorem unwind_append (calls calls' : List Activation) (memory : Memory) :
    unwind (calls ++ calls') memory = unwind calls' (unwind calls memory) :=
  List.foldl_append

theorem chain_unwind {d : EnvId} {calls : List Activation} (h : ∀ a ∈ calls, a.env ≠ d)
    (memory : Memory) : (unwind calls memory).store.chain d = memory.store.chain d := by
  induction calls generalizing memory with
  | nil => rfl
  | cons a calls ih =>
    show (unwind calls (memory.endCall a.decl.name a.env)).store.chain d = _
    rw [ih fun b hb => h b (List.mem_cons_of_mem a hb), Memory.store_endCall,
      Store.chain_popped_of_ne (Ne.symm (h a List.mem_cons_self))]

/-- Once all calls are left, an environment consists of what it captured. -/
theorem balanced_unwind {captured : List (List FrameId)} {calls : List Activation} :
    ∀ {owned : List FrameId} {memory : Memory}, Balanced calls owned captured memory.store →
      Balanced [] [] captured (unwind calls memory).store := by
  induction calls with
  | nil =>
    intro owned memory h
    obtain rfl : owned = [] := List.eq_nil_of_length_eq_zero h.aligned
    exact h
  | cons a calls ih =>
    intro owned memory h
    cases owned with
    | nil => cases h.aligned
    | cons i owned =>
      have hpopped := h.popped
      rw [← Memory.store_endCall memory a.decl.name] at hpopped
      exact ih hpopped

theorem chain_unwind_ne {captured : List (List FrameId)} {calls : List Activation}
    {owned : List FrameId} {memory : Memory} (h : Balanced calls owned captured memory.store)
    {a : Activation} (ha : a ∈ calls) :
    (unwind calls memory).store.chain a.env ≠ memory.store.chain a.env := by
  have hlt := (h.callees a ha).2
  have hend := balanced_unwind h
  have hsize : (unwind calls memory).store.chains.size = memory.store.chains.size :=
    hend.captures.symm.trans h.captures
  have hframes : framesOf a.env calls owned ≠ [] := fun hnil =>
    (framesOf_eq_nil_iff h.aligned).mp hnil a ha rfl
  rw [hend.chain a.env (hsize ▸ hlt), h.chain a.env hlt]
  show captured.getD a.env [] ≠ _
  intro heq
  exact hframes (List.append_left_eq_self.mp heq.symm)

end Machine

/-! ## Where the evaluator keeps its environments balanced -/

/-- The machine stands at a scene whose environments are balanced. -/
def Machine.At (m : Machine) (store : Store) : Prop :=
  ∃ sc : Scene, sc.IsBalanced ∧ sc.machine = m ∧ sc.memory.store = store

theorem Machine.At.balanced {m : Machine} {store : Store} (h : m.At store) :
    ∃ owned captured, Balanced m.calls owned captured store := by
  obtain ⟨sc, hsc, rfl, rfl⟩ := h
  exact ⟨sc.owned, sc.captured, hsc.balanced⟩

theorem Machine.At.resume {m m' : Machine} {memory memory' : Memory} (h : m.At memory.store)
    (hresume : m.resume (ε := Interrupt) memory = (memory', .parked m')) : m'.At memory'.store := by
  obtain ⟨sc, hsc, rfl, hstore⟩ := h
  have hsame := Machine.resume_same (ε := Interrupt) sc.machine
    (show sc.memory.SameStore memory from hstore)
  rw [hresume] at hsame
  obtain ⟨hstore', hprogress⟩ := hsame
  rcases sc.resume_cases Interrupt with ⟨sc', hnext, hresume'⟩ | ⟨_, _, -, hresume'⟩
  · rw [hresume'] at hstore' hprogress
    exact ⟨sc', hsc.next hnext, Machine.Progress.parked.inj hprogress, hstore'⟩
  · rw [hresume'] at hprogress
    cases hprogress

namespace Handoff

def Pause.At (store : Store) : Pause → Prop
  | before m => m.calls = [] ∧ m.At store
  | after m => m.At store

theorem Pause.At.balanced {q : Pause} {store : Store} (h : q.At store) :
    ∃ owned captured, Balanced q.calls owned captured store := by
  cases q with
  | before m =>
    obtain ⟨hcalls, h⟩ := h
    show ∃ owned captured, Balanced [] owned captured store
    rw [← hcalls]
    exact h.balanced
  | after m => exact Machine.At.balanced h

namespace Evaluator

/-- Wherever the evaluator is, the environments are balanced for the calls that are running. -/
def Situated (e : Evaluator) : Prop :=
  match e.stage with
  | .waiting q => q.At e.memory.store
  | .woken q => q.At e.memory.store
  | .working m => m.At e.memory.store
  | .announcing m => m.At e.memory.store
  | .sending m => m.At e.memory.store
  | .leaving calls _ => ∃ owned captured, Balanced calls owned captured e.memory.store
  | _ => True

/-- The calls that the evaluator has still to leave, or will have if it is cancelled. -/
def pending (e : Evaluator) : List Activation :=
  match e.stage with
  | .waiting q => q.calls
  | .woken q => q.calls
  | .leaving calls _ => calls
  | _ => []

variable {e e' : Evaluator}

theorem Move.situated (h : e.Move e') (hs : e.Situated) : e'.Situated := by
  unfold Situated at hs
  cases h with
  | wake hstage | offer hstage =>
    rw [hstage] at hs
    exact hs
  | begin hstage =>
    rw [hstage] at hs
    exact hs.2
  | goOn hstage =>
    rw [hstage] at hs
    exact hs
  | work hstage hresume =>
    rw [hstage] at hs
    exact Machine.At.resume hs hresume
  | sendClosed hstage =>
    unfold Situated
    rw [hstage] at hs ⊢
    exact hs
  | refuse hstage =>
    rw [hstage] at hs
    exact hs.balanced
  | withdraw hstage | giveUp hstage =>
    rw [hstage] at hs
    exact Machine.At.balanced hs
  | leave hstage =>
    rw [hstage] at hs
    obtain ⟨owned, captured, hbalanced⟩ := hs
    cases owned with
    | nil => cases hbalanced.aligned
    | cons i owned =>
      refine ⟨owned, captured, ?_⟩
      rw [Memory.store_endCall]
      exact hbalanced.popped
  | succeed | fail | left | closeEvents | closeDone | exit => trivial

theorem Situated.balanced (h : e.Situated) (hpending : e.pending ≠ []) :
    ∃ owned captured, Balanced e.pending owned captured e.memory.store := by
  unfold Situated at h
  unfold pending at hpending ⊢
  cases hstage : e.stage with
  | waiting q | woken q =>
    rw [hstage] at h
    exact h.balanced
  | leaving calls why =>
    rw [hstage] at h
    exact h
  | _ =>
    rw [hstage] at hpending
    exact absurd rfl hpending

/-! ## While the driver is outside -/

/-- At rest the evaluator leaves calls, and does nothing else. -/
theorem Move.leaves (h : e.Move e') (hrest : e.AtRest) :
    ∃ k, e'.memory = Machine.unwind (e.pending.take k) e.memory ∧
      e'.pending = e.pending.drop k := by
  have hwork := hrest.not_atWork
  unfold pending
  cases h with
  | begin hstage hc | goOn hstage hc =>
    unfold AtRest at hrest
    rw [hstage, hc] at hrest
    simp [Stage.isWaiting, Stage.hasClosedEvents] at hrest
  | work hstage | succeed hstage | fail hstage | offer hstage | withdraw hstage | giveUp hstage
  | sendClosed hstage =>
    rw [hstage] at hwork
    cases hwork
  | leave hstage =>
    rw [hstage]
    exact ⟨1, rfl, rfl⟩
  | wake hstage | refuse hstage | left hstage | closeEvents hstage | closeDone hstage
  | exit hstage =>
    rw [hstage]
    exact ⟨0, rfl, rfl⟩

theorem Runs.leaves (h : e.Runs e') (hrest : e.AtRest) :
    e'.AtRest ∧ ∃ k, e'.memory = Machine.unwind (e.pending.take k) e.memory ∧
      e'.pending = e.pending.drop k := by
  induction h with
  | refl => exact ⟨hrest, 0, rfl, rfl⟩
  | tail _ hmove ih =>
    obtain ⟨hrest', k, hmemory, hpending⟩ := ih
    obtain ⟨k', hmemory', hpending'⟩ := hmove.leaves hrest'
    refine ⟨hmove.atRest hrest', k + k', ?_, ?_⟩
    · rw [hmemory', hpending, hmemory, ← Machine.unwind_append, ← List.take_add]
    · rw [hpending', hpending, List.drop_drop]

theorem Runs.ahead_eq (h : e.Runs e') (hrest : e.AtRest) (htidy : e.Tidy) :
    e'.ahead = e.ahead := by
  have hkept : e'.ahead = e.ahead ∧ e'.AtRest ∧ e'.Tidy := by
    induction h with
    | refl => exact ⟨rfl, hrest, htidy⟩
    | tail _ hmove ih =>
      obtain ⟨hahead, hrest', htidy'⟩ := ih
      exact ⟨(hmove.ahead_eq hrest'.calm htidy').trans hahead, hmove.atRest hrest',
        hmove.tidy htidy'⟩
  exact hkept.1

theorem AtRest.of_not_cancelled (h : e.AtRest) (hc : e.cancelled = false) :
    (e.stage.isWaiting = true ∧ ∀ e', ¬ e.Move e') ∨ e.stage.hasClosedEvents = true := by
  rcases h with hwaiting | ⟨hc', -⟩ | hclosed
  · refine .inl ⟨hwaiting, fun e' hmove => ?_⟩
    cases hstage : e.stage with
    | waiting q =>
      cases hmove with
      | wake _ hc' => cases hc.symm.trans hc'
      | _ hstage' => cases hstage.symm.trans hstage'
    | _ =>
      rw [hstage] at hwaiting
      cases hwaiting
  · cases hc.symm.trans hc'
  · exact .inr hclosed

theorem pending_of_hasClosedEvents (h : e.stage.hasClosedEvents = true) : e.pending = [] := by
  unfold pending
  cases hstage : e.stage with
  | waiting | woken | leaving =>
    rw [hstage] at h
    cases h
  | _ => rfl

/-- A cancelled evaluator can leave all the calls by itself. -/
theorem AtRest.exists_unwound (h : e.AtRest) (htidy : e.Tidy) (hc : e.cancelled = true)
    (hpending : e.pending ≠ []) :
    ∃ e', e.Runs e' ∧ e'.memory = Machine.unwind e.pending e.memory := by
  have hahead : ∃ why, e.ahead = Machine.abort e.pending why e.memory := by
    unfold ahead
    unfold pending at hpending ⊢
    cases hstage : e.stage with
    | waiting q | woken q => exact ⟨.interrupted .canceled, if_pos hc⟩
    | leaving calls why => exact ⟨why, rfl⟩
    | _ =>
      rw [hstage] at hpending
      exact absurd rfl hpending
  obtain ⟨why, hahead⟩ := hahead
  obtain ⟨e', hruns, hexited⟩ := canExit_of_ahead (fun _ => hc) hahead
  have hahead' := hruns.ahead_eq h htidy
  rw [hahead, ahead, hexited] at hahead'
  exact ⟨e', hruns, congrArg Prod.fst hahead'⟩

end Evaluator

theorem Reachable.situated {p : Program} {context : Context} {journal : Journal} {anytime : Bool}
    {s : Handoff} (h : Reachable p context journal anytime s) : s.evaluator.Situated := by
  induction h with
  | start => exact ⟨rfl, .start p .fresh, Scene.start_isBalanced p Memory.sound_fresh rfl, rfl, rfl⟩
  | cancel _ _ ih => exact ih
  | move _ hmove ih =>
    cases hmove with
    | evaluator hmove => exact hmove.situated ih
    | driver hmove =>
      cases hmove with
      | @knowFinished purpose | @seeDone purpose | @seeClosed purpose => cases purpose <;> exact ih
      | @note purpose => cases purpose <;> exact ih
      | _ => exact ih
    | both hmove =>
      unfold Evaluator.Situated at ih
      cases hmove with
      | goOn _ hstage | event _ hstage =>
        rw [hstage] at ih
        exact ih

theorem Reachable.anytime {p : Program} {context : Context} {journal : Journal} {s : Handoff}
    (h : Reachable p context journal false s) : Reachable p context journal true s := by
  induction h with
  | start => exact .start
  | move _ hmove ih => exact ih.move hmove
  | cancel _ _ ih => exact ih.cancel (.inl rfl)

/-- Once the flag is up, the environment of any call that is still to be left can change. -/
theorem Reachable.exists_changed {p : Program} {context : Context} {journal : Journal}
    {anytime : Bool} {s : Handoff} (h : Reachable p context journal anytime s)
    (hidle : s.activity = .idle) (hc : s.evaluator.cancelled = true) {a : Activation}
    (ha : a ∈ s.evaluator.pending) :
    ∃ e, s.evaluator.Runs e ∧
      e.memory.store.chain a.env ≠ s.evaluator.memory.store.chain a.env := by
  have hrest := h.disciplined.atRest_of hidle nofun
  have hpending : s.evaluator.pending ≠ [] := List.ne_nil_of_mem ha
  obtain ⟨owned, captured, hbalanced⟩ := h.situated.balanced hpending
  obtain ⟨e, hruns, hmemory⟩ := hrest.exists_unwound h.disciplined.tidy hc hpending
  refine ⟨e, hruns, ?_⟩
  rw [hmemory]
  exact Machine.chain_unwind_ne hbalanced ha

/-- While the driver is outside of all operations, with the flag raised at any time: as long as
the flag is down, the evaluator waits and cannot move, or there are no more events and it has left
all calls.  Whatever it does, it leaves calls that were running, and no frame is touched.  So an
environment can change under the driver exactly if the flag is up and a call runs in it that is
still to be left. -/
theorem outside_changes_iff {p : Program} {context : Context} {journal : Journal} {s : Handoff}
    (h : Reachable p context journal true s) (hidle : s.activity = .idle) :
    (s.evaluator.cancelled = false →
      (s.evaluator.stage.isWaiting = true ∧ ∀ e, ¬ s.evaluator.Move e) ∨
        (s.evaluator.stage.hasClosedEvents = true ∧ s.evaluator.pending = [])) ∧
    (∀ e, s.evaluator.Runs e →
      e.memory.store.frames = s.evaluator.memory.store.frames ∧
      ∃ k, e.memory = Machine.unwind (s.evaluator.pending.take k) s.evaluator.memory) ∧
    ∀ d, (∃ e, s.evaluator.Runs e ∧
        e.memory.store.chain d ≠ s.evaluator.memory.store.chain d) ↔
      s.evaluator.cancelled = true ∧ ∃ a ∈ s.evaluator.pending, a.env = d := by
  have hrest := h.disciplined.atRest_of hidle nofun
  refine ⟨fun hc => ?_, fun e hruns => ?_, fun d => ⟨?_, ?_⟩⟩
  · exact (hrest.of_not_cancelled hc).imp_right fun hclosed =>
      ⟨hclosed, Evaluator.pending_of_hasClosedEvents hclosed⟩
  · obtain ⟨-, k, hmemory, -⟩ := hruns.leaves hrest
    exact ⟨by rw [hmemory, Machine.frames_unwind], k, hmemory⟩
  · rintro ⟨e, hruns, hchanged⟩
    obtain ⟨-, k, hmemory, -⟩ := hruns.leaves hrest
    have hcall : ∃ a ∈ s.evaluator.pending.take k, a.env = d := by
      refine Classical.byContradiction fun hnone => hchanged ?_
      rw [hmemory, Machine.chain_unwind fun a ha hd => hnone ⟨a, ha, hd⟩]
    obtain ⟨a, ha, hd⟩ := hcall
    refine ⟨?_, a, List.mem_of_mem_take ha, hd⟩
    cases hc : s.evaluator.cancelled with
    | true => rfl
    | false =>
      -- With the flag down there is no move to make, or no call to leave.
      rcases hrest.of_not_cancelled hc with ⟨-, hstuck⟩ | hclosed
      · rcases Relation.ReflTransGen.cases_head hruns with rfl | ⟨e', hmove, -⟩
        · exact absurd rfl hchanged
        · exact absurd hmove (hstuck e')
      · rw [Evaluator.pending_of_hasClosedEvents hclosed, List.take_nil] at ha
        cases ha
  · rintro ⟨hc, a, ha, rfl⟩
    exact h.exists_changed hidle hc ha

/-- The flag is raised while the driver is outside, with a call running. -/
theorem selfApplied_cancelled :
    ∃ before seen s a, Reachable selfApplied .background {} true s ∧ s.activity = .idle ∧
      s.history = before ++ [.next (some seen), .cancelled] ∧
      s.evaluator.cancelled = true ∧ s.evaluator.pending = [a] ∧ a.env = seen.event.env ∧
      s.evaluator.memory.store = seen.store := by
  have hone : (match ((Walk.start selfApplied .quiet .background {}).skip 7).ahead.2 with
      | .parked m => m.calls.length
      | .ended _ => 0) = 1 := by decide +kernel
  obtain ⟨before, hbefore, -⟩ := Walk.driven_skip 7 (.start selfApplied .quiet .background {})
  generalize (Walk.start selfApplied .quiet .background {}).skip 7 = w at hone hbefore
  rcases hahead : w.ahead with ⟨memory, m | outcome⟩
  · rw [hahead] at hone
    obtain ⟨a, ha⟩ := List.length_eq_one_iff.mp hone
    have hnext := Walk.next_eq_deliver hahead
    have hanswer : w.answer = some { event := m.event, store := memory.store } := by
      rw [Walk.answer, hnext]
      rfl
    have hdriven := hbefore.snoc (.next w)
    rw [hanswer] at hdriven
    obtain ⟨s, hs, hidle, hhistory⟩ := Reachable.exists_driven hdriven .start rfl (.nil _)
    have hhistory : s.history = before ++ [.next (some _)] := hhistory
    have hunderway := hs.underway (hhistory ▸ hdriven)
    unfold Underway at hunderway
    rw [hidle, hnext] at hunderway
    cases hunderway.2 with
    | ended hphase => cases hphase
    | @waiting q hstage hc hphase hmemory =>
      have hcalls : q.calls = [a] := by
        cases q with
        | before m' => cases hphase
        | after m' =>
          cases hphase
          exact ha
      refine ⟨before, { event := m.event, store := memory.store }, s.cancel, a,
        hs.anytime.cancel (.inl rfl), hidle, ?_, rfl, ?_, ?_, ?_⟩
      · show s.history ++ [.cancelled] = _
        rw [hhistory, List.append_assoc]
        rfl
      · show Evaluator.pending { s.evaluator with cancelled := true } = [a]
        rw [Evaluator.pending, hstage]
        exact hcalls
      · show a.env = m.event.env
        rw [m.event_env, ha]
        rfl
      · show s.evaluator.memory.store = memory.store
        rw [← hmemory]
        rfl
  · rw [hahead] at hone
    cases hone

/-- The environment of the call can change under the driver, and no other can. -/
theorem selfApplied_outside_changes_iff :
    ∃ s a, Reachable selfApplied .background {} true s ∧ s.activity = .idle ∧
      s.evaluator.cancelled = true ∧ s.evaluator.pending = [a] ∧
      (∃ e, s.evaluator.Runs e ∧
        e.memory.store.chain a.env ≠ s.evaluator.memory.store.chain a.env) ∧
      ∀ d ≠ a.env, ∀ e, s.evaluator.Runs e →
        e.memory.store.chain d = s.evaluator.memory.store.chain d := by
  obtain ⟨before, seen, s, a, h, hidle, -, hc, hpending, -, -⟩ := selfApplied_cancelled
  obtain ⟨-, -, hchanges⟩ := outside_changes_iff h hidle
  rw [hpending] at hchanges
  refine ⟨s, a, h, hidle, hc, hpending, ?_, fun d hd e hruns => ?_⟩
  · exact (hchanges a.env).mpr ⟨hc, a, List.mem_singleton_self a, rfl⟩
  · refine Classical.byContradiction fun hchanged => ?_
    obtain ⟨-, b, hb, rfl⟩ := (hchanges d).mp ⟨e, hruns, hchanged⟩
    rw [List.mem_singleton.mp hb] at hd
    exact hd rfl

/-- The driver has been told of the call and is outside; the flag is raised, and the environment
of the call loses its frame under it. -/
theorem selfApplied_changes_outside :
    ∃ before seen s e, Reachable selfApplied .background {} true s ∧ s.activity = .idle ∧
      s.history = before ++ [.next (some seen), .cancelled] ∧
      s.evaluator.memory.store = seen.store ∧ s.evaluator.Runs e ∧
      e.memory.store.chain seen.event.env ≠ seen.store.chain seen.event.env := by
  obtain ⟨before, seen, s, a, h, hidle, hhistory, hc, hpending, ha, hstore⟩ :=
    selfApplied_cancelled
  have hmem : a ∈ s.evaluator.pending := by rw [hpending]; exact List.mem_singleton_self a
  obtain ⟨e, hruns, hchanged⟩ := h.exists_changed hidle hc hmem
  rw [ha, hstore] at hchanged
  exact ⟨before, seen, s, e, h, hidle, hhistory, hstore, hruns, hchanged⟩

end Handoff
end Stepwise
