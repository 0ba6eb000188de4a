/-
A walk and an evaluation in a single run agree.

A walk is pulled and an evaluation pushes, but both go through the scenes of the program:
the evaluation by `Program.sightings_complete`, the walk by `answer_start` below.  The walk
notes each delivered event in its log, which the evaluation does not, so the machine is
first shown to look at the store of its memory only.
-/
import Stepwise.Proofs.Scenes
import Stepwise.Walk

namespace Stepwise

variable {ε : Type}

/-! ## Logs make no difference -/

namespace Memory

/-- The two memories differ in their logs at most. -/
def SameStore (m m' : Memory) : Prop := m.store = m'.store

theorem SameStore.bind {m m' : Memory} (h : m.SameStore m') (e : EnvId) (name : Text) (v : Value) :
    (m.bind e name v = none ∧ m'.bind e name v = none) ∨
      ∃ n n', m.bind e name v = some n ∧ m'.bind e name v = some n' ∧ n.SameStore n' := by
  unfold Memory.bind
  rw [show m.store = m'.store from h]
  cases m'.store.bind e name v with
  | none => exact .inl ⟨rfl, rfl⟩
  | some store => exact .inr ⟨_, _, rfl, rfl, rfl⟩

theorem SameStore.declare {m m' : Memory} (h : m.SameStore m') (e : EnvId) (decl : FunctionDecl) :
    (m.declare e decl = none ∧ m'.declare e decl = none) ∨
      ∃ f n n', m.declare e decl = some (f, n) ∧ m'.declare e decl = some (f, n') ∧
        n.SameStore n' := by
  have hf : m.declared decl = m'.declared decl := by
    unfold declared nextEnv
    rw [show m.store = m'.store from h]
  rw [declare_eq, declare_eq, hf, show m.store = m'.store from h]
  cases m'.store.bind e decl.name (m'.declared decl) with
  | none => exact .inl ⟨rfl, rfl⟩
  | some store => exact .inr ⟨_, _, _, rfl, rfl, rfl⟩

theorem SameStore.beginCall {m m' : Memory} (h : m.SameStore m') (f : Closure) (e : EnvId)
    (argument : Text) (v : Value) :
    (m.beginCall f e argument v).SameStore (m'.beginCall f e argument v) := by
  show m.store.push e f.decl.parameter v = m'.store.push e f.decl.parameter v
  rw [show m.store = m'.store from h]

theorem SameStore.endCall {m m' : Memory} (h : m.SameStore m') (name : Text) (e : EnvId) :
    (m.endCall name e).SameStore (m'.endCall name e) := by
  show (m.endCall name e).store = (m'.endCall name e).store
  rw [store_endCall, store_endCall, show m.store = m'.store from h]

end Memory

namespace Machine

/-- Where two memories led to, that differed in their logs at most. -/
def SameCourse (r r' : Memory × Progress ε) : Prop := r.1.SameStore r'.1 ∧ r.2 = r'.2

theorem abort_same {m m' : Memory} (h : m.SameStore m') (calls : List Activation) (why : Stop ε) :
    SameCourse (abort calls why m) (abort calls why m') := by
  refine ⟨?_, rfl⟩
  show (unwind calls m).SameStore (unwind calls m')
  induction calls generalizing m m' with
  | nil => exact h
  | cons a calls ih => exact ih (h.endCall a.decl.name a.env)

theorem proceed_same (machine : Machine) (calls : List Activation) :
    ∀ {m m' : Memory} (last : Option Value) (rest : List Statement), m.SameStore m' →
      SameCourse (ε := ε) (machine.proceed calls last rest m)
        (machine.proceed calls last rest m') := by
  induction calls with
  | nil =>
    intro m m' last rest h
    cases rest with
    | cons s rest => exact ⟨h, rfl⟩
    | nil => cases last <;> exact ⟨h, rfl⟩
  | cons a calls ih =>
    intro m m' last rest h
    cases rest with
    | cons s rest => exact ⟨h, rfl⟩
    | nil =>
      simp only [proceed]
      rw [show m.store = m'.store from h]
      cases returnValue (ε := ε) m'.store a.env a.decl with
      | error why => exact abort_same h (a :: calls) why
      | ok v =>
        simp only
        have hend := h.endCall a.decl.name a.env
        rcases hend.bind (currentEnv machine.globalEnv calls) a.target v with
          ⟨hb, hb'⟩ | ⟨n, n', hb, hb', hn⟩
        · rw [hb, hb']
          exact abort_same hend calls _
        · rw [hb, hb']
          exact ih (some v) a.rest hn

theorem bindAndProceed_same (machine : Machine) {m m' : Memory} (h : m.SameStore m') (name : Text)
    (v : Value) (rest : List Statement) :
    SameCourse (ε := ε) (machine.bindAndProceed name v rest m)
      (machine.bindAndProceed name v rest m') := by
  unfold bindAndProceed
  rcases h.bind (currentEnv machine.globalEnv machine.calls) name v with
    ⟨hb, hb'⟩ | ⟨n, n', hb, hb', hn⟩
  · rw [hb, hb']
    exact abort_same h machine.calls _
  · rw [hb, hb']
    exact proceed_same machine machine.calls (some v) rest hn

theorem resume_same (machine : Machine) {m m' : Memory} (h : m.SameStore m') :
    SameCourse (ε := ε) (machine.resume m) (machine.resume m') := by
  unfold resume
  cases machine.task with
  | start => exact ⟨h, rfl⟩
  | sourceFile => exact ⟨h, rfl⟩
  | functionBody decl => exact ⟨h, rfl⟩
  | statementList ss => exact proceed_same machine machine.calls none ss h
  | statement s rest =>
    cases s with
    | define name value pos => exact ⟨h, rfl⟩
    | function name parameter body ret pos => exact ⟨h, rfl⟩
    | hole => exact abort_same h machine.calls _
  | define name value pos rest =>
    cases value with
    | literal lexeme =>
      simp only
      cases literalValue name pos lexeme with
      | error d => exact abort_same h machine.calls _
      | ok v => exact bindAndProceed_same machine h name v rest
    | call callee argument =>
      simp only
      rw [show m.store = m'.store from h]
      cases resolveCall m'.store (currentEnv machine.globalEnv machine.calls) callee argument
        pos with
      | error d => exact abort_same h machine.calls _
      | ok fv =>
        simp only [enter]
        cases fv.1.capture with
        | detached tag => exact abort_same h machine.calls _
        | env e => exact ⟨h.beginCall fv.1 e argument fv.2, rfl⟩
    | hole => exact abort_same h machine.calls _
  | declare decl rest =>
    simp only
    rcases h.declare (currentEnv machine.globalEnv machine.calls) decl with
      ⟨hb, hb'⟩ | ⟨f, n, n', hb, hb', hn⟩
    · rw [hb, hb']
      exact abort_same h machine.calls _
    · rw [hb, hb']
      exact proceed_same machine machine.calls (some f) rest hn

end Machine

/-! ## Walks and scenes -/

namespace Walk

/-- What the next call of `next` delivers, with the store of that moment. -/
def answer (w : Walk) : Option Observer.Sighting :=
  w.next.1.map fun event => { event, store := w.next.2.memory.store }

/-- The walk after `n` calls of `next`. -/
def skip : Nat → Walk → Walk
  | 0, w => w
  | n + 1, w => skip n w.next.2

theorem skip_add (n k : Nat) (w : Walk) : w.skip (n + k) = (w.skip n).skip k := by
  induction n generalizing w with
  | zero => rw [Nat.zero_add]; rfl
  | succ n ih =>
    rw [Nat.add_right_comm]
    exact ih w.next.2

/-- What the next call of `next` finds. -/
def ahead (w : Walk) : Memory × Machine.Progress Interrupt :=
  match w.phase with
  | .waiting m => (w.memory, .parked m)
  | .parked m => m.resume w.memory
  | .over outcome => (w.memory, .ended outcome)

theorem next_of_parked {w : Walk} {memory : Memory} {m : Machine}
    (h : w.ahead = (memory, .parked m)) :
    w.next.1 = some m.event ∧ w.next.2.phase = .parked m ∧
      w.next.2.memory.SameStore memory := by
  unfold ahead at h
  unfold next
  rcases hw : w.phase with m' | m' | outcome
  · rw [hw] at h
    cases h
    exact ⟨rfl, rfl, rfl⟩
  · rw [hw] at h
    simp only [h]
    exact ⟨rfl, rfl, rfl⟩
  · rw [hw] at h
    cases h

theorem next_of_ended {w : Walk} {memory : Memory} {outcome : Except (Stop Interrupt) Value}
    (h : w.ahead = (memory, .ended outcome)) :
    w.next.1 = none ∧ w.next.2.phase = .over outcome := by
  unfold ahead at h
  unfold next
  rcases hw : w.phase with m | m | outcome'
  · rw [hw] at h
    cases h
  · rw [hw] at h
    simp only [h]
    exact ⟨trivial, trivial⟩
  · rw [hw] at h
    cases h
    exact ⟨rfl, rfl⟩

/-- The next event that the walk delivers is that of the scene. -/
def Meets (w : Walk) (sc : Scene) : Prop :=
  ∃ memory : Memory, w.ahead = (memory, .parked sc.machine) ∧ memory.SameStore sc.memory

def Ended (w : Walk) (outcome : Except (Stop Interrupt) Value) : Prop :=
  ∃ memory, w.ahead = (memory, .ended outcome)

section Meets

variable {w : Walk} {sc sc' last : Scene} {outcome : Except (Stop Interrupt) Value}

theorem Meets.answer (h : w.Meets sc) : w.answer = some sc.sighting := by
  obtain ⟨memory, hahead, hstore⟩ := h
  obtain ⟨hevent, -, hmemory⟩ := next_of_parked hahead
  have hstore' : w.next.2.memory.store = sc.memory.store := hmemory.trans hstore
  rw [Walk.answer, hevent, hstore']
  rfl

/-- Once its event is delivered, the walk goes on as the machine of the scene does. -/
theorem Meets.ahead_next (h : w.Meets sc) :
    Machine.SameCourse w.next.2.ahead (sc.machine.resume sc.memory) := by
  obtain ⟨memory, hahead, hstore⟩ := h
  obtain ⟨-, hphase, hmemory⟩ := next_of_parked hahead
  rw [ahead, hphase]
  exact Machine.resume_same sc.machine (hmemory.trans hstore)

theorem Meets.next (h : w.Meets sc) (hnext : sc.next = some sc') : w.next.2.Meets sc' := by
  obtain ⟨hstore, hprogress⟩ := h.ahead_next
  rcases sc.resume_cases Interrupt with ⟨sc'', hnext', hresume⟩ | ⟨_, _, hnext', -⟩
  · obtain rfl : sc'' = sc' := Option.some.inj (hnext'.symm.trans hnext)
    rw [hresume] at hstore hprogress
    exact ⟨w.next.2.ahead.1, Prod.ext rfl hprogress, hstore⟩
  · cases hnext'.symm.trans hnext

theorem Meets.ended (h : w.Meets sc) {memory : Memory}
    (hresume : sc.machine.resume sc.memory = (memory, .ended outcome)) :
    w.next.2.Ended outcome := by
  obtain ⟨-, hprogress⟩ := h.ahead_next
  rw [hresume] at hprogress
  exact ⟨w.next.2.ahead.1, Prod.ext rfl hprogress⟩

theorem Meets.skip {n : Nat} : ∀ {w : Walk} {sc : Scene}, w.Meets sc →
    sc.after n = some sc' → (w.skip n).Meets sc' := by
  induction n with
  | zero => exact fun h hn => Option.some.inj hn ▸ h
  | succ n ih =>
    intro w sc h hn
    obtain ⟨next, hnext, hn⟩ := Option.bind_eq_some_iff.mp hn
    exact ih (h.next hnext) hn

theorem Ended.next (h : w.Ended outcome) : w.next.2.Ended outcome := by
  obtain ⟨memory, hahead⟩ := h
  obtain ⟨-, hphase⟩ := next_of_ended hahead
  refine ⟨w.next.2.memory, ?_⟩
  rw [ahead, hphase]

theorem Ended.skip (n : Nat) : ∀ {w : Walk}, w.Ended outcome → (w.skip n).Ended outcome := by
  induction n with
  | zero => exact fun h => h
  | succ n ih => exact fun h => ih h.next

/-- Past the last scene the walk has ended. -/
theorem Meets.skip_ended {k n : Nat} {memory : Memory} (h : w.Meets sc)
    (hlast : sc.after k = some last)
    (hend : last.machine.resume last.memory = (memory, .ended outcome)) (hn : k < n) :
    (w.skip n).Ended outcome := by
  have hended := ((h.skip hlast).ended hend).skip (n - (k + 1))
  have hskip := skip_add k (1 + (n - (k + 1))) w
  rw [show k + (1 + (n - (k + 1))) = n by omega, skip_add] at hskip
  rw [hskip]
  exact hended

theorem Ended.answer (h : w.Ended outcome) : w.answer = none := by
  obtain ⟨memory, hahead⟩ := h
  rw [Walk.answer, (next_of_ended hahead).1]
  rfl

theorem Ended.result (h : w.Ended outcome) {limit : Nat} (hl : 0 < limit) :
    (w.result limit).1 = some outcome := by
  obtain ⟨memory, hahead⟩ := h
  obtain ⟨hnone, hphase⟩ := next_of_ended hahead
  obtain ⟨limit, rfl⟩ := Nat.exists_eq_add_one_of_ne_zero (Nat.ne_of_gt hl)
  rw [Walk.result, ← Prod.eta w.next, hnone]
  simp only [hphase]

theorem Meets.result_succ (h : w.Meets sc) (limit : Nat) :
    w.result (limit + 1) = w.next.2.result limit := by
  obtain ⟨memory, hahead, -⟩ := h
  rw [Walk.result, ← Prod.eta w.next, (next_of_parked hahead).1]

/-- The walk ends as the last scene does, if it may deliver as many events as there are. -/
theorem Meets.result {n : Nat} {memory : Memory}
    (hend : last.machine.resume last.memory = (memory, .ended outcome)) :
    ∀ {w : Walk} {sc : Scene} {limit : Nat}, w.Meets sc → sc.after n = some last →
      n + 1 < limit → (w.result limit).1 = some outcome := by
  induction n with
  | zero =>
    intro w sc limit h hn hl
    obtain ⟨limit, rfl⟩ := Nat.exists_eq_add_of_lt hl
    obtain rfl : sc = last := Option.some.inj hn
    rw [h.result_succ]
    exact (h.ended hend).result (by omega)
  | succ n ih =>
    intro w sc limit h hn hl
    obtain ⟨limit, rfl⟩ := Nat.exists_eq_add_of_lt hl
    obtain ⟨next, hnext, hn⟩ := Option.bind_eq_some_iff.mp hn
    rw [h.result_succ]
    exact ih (h.next hnext) hn (by omega)

end Meets

/-! ## The agreement -/

theorem answer_start (p : Program) (context : Context) (journal : Journal) (n : Nat) :
    ((start p .quiet context journal).skip n).answer =
      (p.sceneAt .fresh n).map Scene.sighting := by
  have hstart : (start p .quiet context journal).Meets (.start p .fresh) := ⟨_, rfl, rfl⟩
  cases hn : p.sceneAt .fresh n with
  | some sc => exact (hstart.skip hn).answer
  | none =>
    obtain ⟨k, last, hk, hlast, hnone⟩ := Scene.after_eq_none hn
    rcases last.resume_cases Interrupt with ⟨sc', hnext, -⟩ | ⟨memory, outcome, -, hresume⟩
    · cases hnext.symm.trans hnone
    · exact (hstart.skip_ended hlast hresume hk).answer

/-- From wherever it is told to go on to the end, the walk ends as the last scene does. -/
theorem result_start {p : Program} {k : Nat} {last : Scene} {memory : Memory}
    {outcome : Except (Stop Interrupt) Value} (hlast : p.sceneAt .fresh k = some last)
    (hend : last.machine.resume last.memory = (memory, .ended outcome)) (context : Context)
    (journal : Journal) (n : Nat) {events : Nat} (hevents : k + 1 < events) :
    (((start p .quiet context journal).skip n).result events).1 = some outcome := by
  have hstart : (start p .quiet context journal).Meets (.start p .fresh) := ⟨_, rfl, rfl⟩
  rcases Nat.lt_or_ge k n with hkn | hnk
  · exact (hstart.skip_ended hlast hend hkn).result (by omega)
  · obtain ⟨sc, hsc, hrest⟩ := Scene.after_of_after hlast hnk
    exact Meets.result hend (hstart.skip hsc) hrest (by omega)

end Walk

/-- An evaluation in a single run, with a record kept of its events. -/
def Program.recorded (p : Program) (limit : Nat) :
    Except (Stop Interrupt) Value × Run (Unit × List Observer.Sighting) :=
  p.evaluate Observer.silent.witnessed limit .fresh ((), [])

/-- A walk delivers the events of the evaluation in a single run, each with the same store,
and says that there are no more exactly where the evaluation has no more.  Where the
evaluation comes to an end, so does the walk, in the same way, from wherever it is told to
go on to the end.  The `limit` on the calls of the evaluation is not felt in the first
`limit` events, and not at all if the evaluation does not end by it. -/
theorem walk_agrees (p : Program) (context : Context) (journal : Journal) (limit : Nat) :
    (∀ n, n < limit ∨ (p.recorded limit).1 ≠ .error .tooDeep →
      ((Walk.start p .quiet context journal).skip n).answer =
        (p.recorded limit).2.seen.2[n]?) ∧
    ((p.recorded limit).1 ≠ .error .tooDeep →
      ∀ n events, (p.recorded limit).2.seen.2.length < events →
        (((Walk.start p .quiet context journal).skip n).result events).1 =
          some (p.recorded limit).1) := by
  have hpassive : (Observer.silent (ε := Interrupt)).Passive := fun _ _ _ => rfl
  have hun : (Observer.silent (ε := Interrupt)).Unstopping := fun _ _ _ => rfl
  refine ⟨fun n hn => ?_, fun hdeep n events hevents => ?_⟩
  · rw [Walk.answer_start]
    exact (Program.sightings_complete hpassive hun hn).symm
  · obtain ⟨k, last, htrail, hlast, hend⟩ := Program.evaluate_last hpassive hun hdeep
    have hlength : (p.recorded limit).2.seen.2.length = k + 1 := by
      rw [show (p.recorded limit).2.seen.2 = _ from htrail]
      exact Scene.length_trail hlast
    exact Walk.result_start hlast hend context journal n (hlength ▸ hevents)

/-- A function that is called with itself and returns it. -/
def selfApplied : Program :=
  { statements := [.function "f" "x" [] (.name "x") 0, .define "y" (.call "f" "f") 1] }

/-- A function that calls itself for ever. -/
def endless : Program :=
  { statements := [
      .function "f" "x" [.define "y" (.call "f" "x") 1] (.name "y") 0,
      .define "z" (.call "f" "f") 2] }

/-- The evaluation that ends has 9 events, and a walk that has seen 3 of them ends like it; the
one that does not end is walked through as far as one likes. -/
theorem walk_agrees_selfApplied_endless :
    ((selfApplied.recorded 1).1 ≠ .error .tooDeep ∧
      ((Walk.start selfApplied .quiet .background {}).skip 8).answer =
        (selfApplied.recorded 1).2.seen.2[8]? ∧
      (((Walk.start selfApplied .quiet .background {}).skip 3).result 10).1 =
        some (selfApplied.recorded 1).1) ∧
    ((Walk.start endless .quiet .background {}).skip 20).answer =
      (endless.recorded 21).2.seen.2[20]? := by
  have hends : (selfApplied.recorded 1).1 ≠ .error .tooDeep := by
    have hok : (selfApplied.recorded 1).1.isOk = true := by decide +kernel
    intro h
    rw [h] at hok
    cases hok
  have hagrees := walk_agrees selfApplied .background {} 1
  refine ⟨⟨hends, hagrees.1 8 (.inr hends), hagrees.2 hends 3 10 (by decide +kernel)⟩, ?_⟩
  exact (walk_agrees endless .background {} 21).1 20 (.inl (by decide))

end Stepwise
