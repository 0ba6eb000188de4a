/-
No observer can make an evaluation go wrong.

An observer may push, bind and pop frames in the environments at every event, and so take away the
frames that an evaluation has made for itself.  Even then a complete program ends with a value, a
diagnosis, the observer's reason, or because a name was to be bound where no frame was left; never
for a missing node or a function without an environment.  What the observer binds must be of a kind
that evaluation could have bound, or no value at all.

What a single binding or a single leaving of a call meets is said of the moments of the evaluation.
`Moment.Fine` is what every moment keeps, whatever the observer does; what the moments so far have
met is found in the outcome (`iterate_of_unbindable?`, `exists_unbindable?`) and in the log
(`unbalanced_iterate`).
-/
import Stepwise.Proofs.Moments
import Stepwise.Proofs.Safety

namespace Stepwise

variable {σ ε : Type}

open Machine (currentEnv)

/-! ## What may be bound -/

/-- A number, no value, or a function that is complete and has an environment to run in. -/
def Value.Innocuous : Value → Prop
  | .function f => f.decl.statement.isComplete = true ∧ ∃ e, f.capture = .env e
  | _ => True

abbrev Store.Innocuous (s : Store) : Prop := s.Holds Value.Innocuous

/-! ## What an observer may do -/

def Observer.Action.Innocuous : Observer.Action → Prop
  | .pop => True
  | .bind _ v => v.Innocuous
  | .push _ v => v.Innocuous

/-- A store after any number of actions, each in an environment of the observer's choice. -/
inductive Meddled (s : Store) : Store → Prop where
  | nothing : Meddled s s
  | act {t : Store} (h : Meddled s t) (e : EnvId) {action : Observer.Action}
      (ha : action.Innocuous) : Meddled s (action.apply t e)

/-- An observer that meddles with the environments and may stop whenever it likes, but brings in no
function whose declaration lacks a part. -/
def Observer.Meddles (obs : Observer σ ε) : Prop :=
  ∀ ev s seen, s.Innocuous → Meddled s (obs ev s seen).store

theorem Observer.Action.Innocuous.apply {action : Observer.Action} (ha : action.Innocuous)
    {s : Store} (hs : s.Innocuous) (e : EnvId) : (action.apply s e).Innocuous := by
  cases action with
  | pop => exact hs.popped e
  | bind name v =>
    show ((s.bind e name v).getD s).Innocuous
    cases hb : s.bind e name v with
    | none => exact hs
    | some t => exact hs.bind hb ha
  | push name v => exact hs.push e name ha

theorem Meddled.innocuous {s t : Store} (h : Meddled s t) (hs : s.Innocuous) : t.Innocuous := by
  induction h with
  | nothing => exact hs
  | act _ e ha ih => exact ha.apply ih e

theorem Meddled.planned {s t : Store} (h : Meddled s t) (e : EnvId) {hooks : List Observer.Hook}
    (hhooks : ∀ hook ∈ hooks, hook.action.Innocuous) :
    Meddled s (hooks.foldl (fun s hook => hook.action.apply s e) t) := by
  induction hooks generalizing t with
  | nil => exact h
  | cons hook hooks ih =>
    refine ih (h.act e (hhooks hook List.mem_cons_self)) fun hook hmem => ?_
    exact hhooks hook (List.mem_cons_of_mem _ hmem)

theorem Observer.scripted_meddles {hooks : List Observer.Hook}
    (h : ∀ hook ∈ hooks, hook.action.Innocuous) (stopAt : Nat) (why : ε) :
    (Observer.scripted hooks stopAt why).Meddles :=
  fun ev _ _ _ => Meddled.nothing.planned ev.env fun hook hmem => h hook (List.mem_filter.mp hmem).1

/-! ## What every moment keeps -/

theorem literalValue_innocuous {name lexeme : Text} {pos : Position} {v : Value}
    (h : literalValue name pos lexeme = .ok v) : v.Innocuous := by
  unfold literalValue at h
  split at h
  · cases h
    trivial
  · cases h

/-- How an evaluation may end.  If it is for a reason of the observer, then it has just given it. -/
inductive EndsRegularly (obs : Observer σ ε) (seen : σ) : Except (Stop ε) Value → Prop where
  | value (v : Value) : EndsRegularly obs seen (.ok v)
  | diagnosed (d : Diagnosis) : EndsRegularly obs seen (.error (.diagnosed d))
  | unbindable (name : Text) : EndsRegularly obs seen (.error (.unbindable name))
  | interrupted {why : ε} (ev : Event) (s : Store) (before : σ)
      (hstop : (obs ev s before).stop = some why) (hseen : (obs ev s before).seen = seen) :
      EndsRegularly obs seen (.error (.interrupted why))

def Activation.IsComplete (a : Activation) : Prop :=
  a.decl.statement.isComplete = true ∧ Statement.areComplete a.rest = true

/-- No node is missing from the program of the machine, nor from what its running calls have still to
do. -/
structure Machine.IsComplete (m : Machine) : Prop where
  program : m.program.isComplete = true
  calls : ∀ a ∈ m.calls, a.IsComplete

theorem Machine.IsComplete.at {m : Machine} (h : m.IsComplete) (task : Task) :
    ({ m with task } : Machine).IsComplete :=
  ⟨h.program, h.calls⟩

def Task.IsComplete : Task → Prop
  | .start => True
  | .sourceFile => True
  | .statementList ss => Statement.areComplete ss = true
  | .statement s rest => s.isComplete = true ∧ Statement.areComplete rest = true
  | .define _ value _ rest => value.isComplete = true ∧ Statement.areComplete rest = true
  | .declare decl rest => decl.statement.isComplete = true ∧ Statement.areComplete rest = true
  | .functionBody decl => decl.statement.isComplete = true

/-- An act that no missing node and no missing environment can come of. -/
def Act.Fine (obs : Observer σ ε) (seen : σ) : Act ε → Prop
  | .event m => m.IsComplete ∧ m.task.IsComplete
  | .bind m _ v rest => m.IsComplete ∧ v.Innocuous ∧ Statement.areComplete rest = true
  | .declare m decl rest => m.IsComplete ∧ decl.statement.isComplete = true ∧
      Statement.areComplete rest = true
  | .leave m a v => m.IsComplete ∧ a.IsComplete ∧ v.Innocuous
  | .unwind _ why => EndsRegularly obs seen (.error why)
  | .ended outcome => EndsRegularly obs seen outcome

namespace Moment

structure Fine (obs : Observer σ ε) (x : Moment σ ε) : Prop where
  store : x.run.memory.store.Innocuous
  act : x.act.Fine obs x.run.seen

section Fine

variable {obs : Observer σ ε} {m : Machine} (hm : m.IsComplete)
include hm

theorem goOn_fine {s : Store} (hs : s.Innocuous) (seen : σ) (last : Option Value)
    {rest : List Statement} (hrest : Statement.areComplete rest = true) :
    (Act.goOn m last rest s).Fine obs seen := by
  obtain ⟨program, globalEnv, task, calls⟩ := m
  cases rest with
  | cons s rest => exact ⟨hm.at _, (Bool.and_eq_true _ _).mp hrest⟩
  | nil =>
    cases calls with
    | nil =>
      cases last with
      | some v => exact .value v
      | none => exact .diagnosed _
    | cons a calls =>
      have ha : a.IsComplete := hm.calls a List.mem_cons_self
      have houter : ({ program, globalEnv, task, calls } : Machine).IsComplete :=
        ⟨hm.program, fun b hb => hm.calls b (List.mem_cons_of_mem a hb)⟩
      obtain ⟨-, hret⟩ := (Bool.and_eq_true _ _).mp ha.1
      simp only [Act.goOn]
      rcases Direct.returnValue_holds (ε := ε) (fun _ => trivial) hs a.env hret with
        ⟨v, hvalue, hv⟩ | ⟨d, hd⟩
      · rw [hv]
        exact ⟨houter, ha, hvalue⟩
      · rw [hd]
        exact .diagnosed d

theorem enter_fine {run : Run σ} (hs : run.memory.store.Innocuous) (target argument : Text)
    {rest : List Statement} (hrest : Statement.areComplete rest = true) {f : Closure} {v : Value}
    (hf : (Value.function f).Innocuous) (hv : v.Innocuous) :
    Fine obs (enter m target rest argument f v run) := by
  obtain ⟨hcomplete, e, he⟩ := hf
  simp only [enter, he]
  refine ⟨?_, ⟨hm.program, fun a ha => ?_⟩, hcomplete⟩
  · show (run.memory.beginCall f e argument v).store.Innocuous
    rw [Memory.store_beginCall]
    exact hs.push e f.decl.parameter hv
  · rcases List.mem_cons.mp ha with rfl | ha
    · exact ⟨hcomplete, hrest⟩
    · exact hm.calls a ha

theorem work_fine {run : Run σ} (hs : run.memory.store.Innocuous) (htask : m.task.IsComplete) :
    Fine obs (work m run) := by
  unfold work
  cases ht : m.task with
  | start => exact ⟨hs, hm.at _, trivial⟩
  | sourceFile => exact ⟨hs, hm.at _, hm.program⟩
  | functionBody decl =>
    rw [ht] at htask
    exact ⟨hs, hm.at _, ((Bool.and_eq_true _ _).mp htask).1⟩
  | statementList ss =>
    rw [ht] at htask
    exact ⟨hs, goOn_fine hm hs run.seen none htask⟩
  | statement s rest =>
    rw [ht] at htask
    cases s with
    | define name value pos => exact ⟨hs, hm.at _, htask⟩
    | function name parameter body ret pos => exact ⟨hs, hm.at _, htask⟩
    | hole => cases htask.1
  | define name value pos rest =>
    rw [ht] at htask
    cases value with
    | literal lexeme =>
      simp only
      cases hvalue : literalValue name pos lexeme with
      | error d => exact ⟨hs, .diagnosed d⟩
      | ok v => exact ⟨hs, hm, literalValue_innocuous hvalue, htask.2⟩
    | call callee argument =>
      simp only
      cases hresolve : resolveCall run.memory.store (currentEnv m.globalEnv m.calls) callee argument
          pos with
      | error d => exact ⟨hs, .diagnosed d⟩
      | ok fv =>
        obtain ⟨hf, hv⟩ := Direct.resolveCall_eq_ok hresolve
        exact enter_fine hm hs name argument htask.2 (hs.lookup hf) (hs.lookup hv)
    | hole => cases htask.1
  | declare decl rest =>
    rw [ht] at htask
    exact ⟨hs, hm, htask⟩

end Fine

/-- Whatever the observer does, one moment leads to another of the kind. -/
theorem Fine.next {obs : Observer σ ε} (hobs : obs.Meddles) {x : Moment σ ε} (h : Fine obs x) :
    Fine obs (next obs x) := by
  obtain ⟨run, act⟩ := x
  obtain ⟨hs, hact⟩ := h
  cases act with
  | event m =>
    have hs' : (shownTo obs m.event run).memory.store.Innocuous :=
      (hobs m.event run.memory.store run.seen hs).innocuous hs
    cases hstop : (obs m.event run.memory.store run.seen).stop with
    | none =>
      rw [next_event_none obs m hstop]
      exact work_fine hact.1 hs' hact.2
    | some why =>
      rw [next_event_some obs m hstop]
      exact ⟨hs', .interrupted m.event run.memory.store run.seen hstop rfl⟩
  | bind m name v rest =>
    obtain ⟨hm, hv, hrest⟩ := hact
    cases hb : run.memory.store.bind (currentEnv m.globalEnv m.calls) name v with
    | none =>
      rw [next_bind_none obs m hb]
      exact ⟨hs, .unbindable name⟩
    | some t =>
      rw [next_bind_some obs m hb]
      have ht : t.Innocuous := hs.bind hb hv
      exact ⟨ht, goOn_fine hm ht run.seen (some v) hrest⟩
  | declare m decl rest =>
    obtain ⟨hm, hdecl, hrest⟩ := hact
    cases hb : run.memory.store.bind (currentEnv m.globalEnv m.calls) decl.name
        (run.memory.declared decl) with
    | none =>
      rw [next_declare_none obs m hb]
      exact ⟨hs, .unbindable decl.name⟩
    | some t =>
      rw [next_declare_some obs m hb]
      -- The new function has the environment that is made for it.
      have ht : t.Innocuous := hs.bind hb ⟨hdecl, _, rfl⟩
      have ht' := ht.of_frames (t := (t.snapshot (currentEnv m.globalEnv m.calls)).2) rfl
      exact ⟨ht', goOn_fine hm ht' run.seen _ hrest⟩
  | leave m a v =>
    obtain ⟨hm, ha, hv⟩ := hact
    refine ⟨?_, hm, hv, ha.2⟩
    show (run.memory.endCall a.decl.name a.env).store.Innocuous
    rw [Memory.store_endCall]
    exact hs.popped a.env
  | unwind calls why =>
    cases calls with
    | nil => exact ⟨hs, hact⟩
    | cons a calls =>
      refine ⟨?_, hact⟩
      show (run.memory.endCall a.decl.name a.env).store.Innocuous
      rw [Memory.store_endCall]
      exact hs.popped a.env
  | ended outcome => exact ⟨hs, hact⟩

theorem Fine.iterate {obs : Observer σ ε} (hobs : obs.Meddles) {x : Moment σ ε} (h : Fine obs x)
    (n : Nat) : Fine obs ((Moment.next obs)^[n] x) :=
  Function.Iterate.rec _ h (fun _ hy => hy.next hobs) n

theorem start_fine (obs : Observer σ ε) {p : Program} (hp : p.isComplete = true) (seen : σ) :
    Fine obs (start p .fresh seen) :=
  ⟨Memory.holds_fresh _, ⟨hp, fun _ ha => absurd ha List.not_mem_nil⟩, trivial⟩

end Moment

/-! ## Where no frame is left -/

/-- The name that is about to be bound, and the environment. -/
def Act.binding? : Act ε → Option (EnvId × Text)
  | .bind m name _ _ => some (currentEnv m.globalEnv m.calls, name)
  | .declare m decl _ => some (currentEnv m.globalEnv m.calls, decl.name)
  | _ => none

/-- The call that is about to be left. -/
def Act.leaving? : Act ε → Option Activation
  | .leave _ a _ => some a
  | .unwind (a :: _) _ => some a
  | _ => none

/-- Why the evaluation is ending, or has ended. -/
def Act.failure? : Act ε → Option (Stop ε)
  | .unwind _ why => some why
  | .ended (.error why) => some why
  | _ => none

/-- What the log says of calls that missed their frame. -/
def Memory.unbalanced (m : Memory) : List Text :=
  m.log.toList.filterMap fun entry =>
    match entry with
    | .unbalanced name => some name
    | _ => none

theorem Memory.unbalanced_beginCall (m : Memory) (f : Closure) (e : EnvId) (argument : Text)
    (v : Value) : (m.beginCall f e argument v).unbalanced = m.unbalanced := by
  simp only [unbalanced, beginCall, note, Array.toList_push, List.filterMap_append,
    List.filterMap_cons, List.filterMap_nil, List.append_nil]

theorem Memory.unbalanced_endCall (m : Memory) (name : Text) (e : EnvId) :
    (m.endCall name e).unbalanced =
      m.unbalanced ++ if (m.store.chain e).isEmpty then [name] else [] := by
  cases hchain : m.store.chain e with
  | cons i rest =>
    rw [Memory.endCall, Store.pop_of_chain hchain]
    exact (List.append_nil _).symm
  | nil =>
    have hpop : m.store.pop e = none := by simp only [Store.pop, hchain]
    rw [Memory.endCall, hpop]
    simp only [unbalanced, note, Array.toList_push, List.filterMap_append, List.filterMap_cons,
      List.filterMap_nil, List.isEmpty_nil, if_true]

namespace Moment

/-- The name that is about to be bound where there is no frame. -/
def unbindable? (x : Moment σ ε) : Option Text :=
  (x.act.binding?.filter fun b => (x.run.memory.store.chain b.1).isEmpty).map (·.2)

/-- The function whose call is about to be left where there is no frame. -/
def unbalanced? (x : Moment σ ε) : Option Text :=
  (x.act.leaving?.filter fun a => (x.run.memory.store.chain a.env).isEmpty).map (·.decl.name)

/-- All that the work after an event can do to a memory is to enter a call. -/
theorem work_run (m : Machine) (run : Run σ) :
    (work (ε := ε) m run).run = run ∨ ∃ f e argument v, (work (ε := ε) m run).run =
      { run with memory := run.memory.beginCall f e argument v } := by
  unfold work
  cases m.task with
  | statement s rest => cases s <;> exact .inl rfl
  | define name value pos rest =>
    cases value with
    | literal lexeme =>
      simp only
      cases literalValue name pos lexeme <;> exact .inl rfl
    | call callee argument =>
      simp only
      cases resolveCall run.memory.store (currentEnv m.globalEnv m.calls) callee argument pos with
      | error d => exact .inl rfl
      | ok fv =>
        simp only [enter]
        cases fv.1.capture with
        | detached tag => exact .inl rfl
        | env e => exact .inr ⟨fv.1, e, argument, fv.2, rfl⟩
    | hole => exact .inl rfl
  | _ => exact .inl rfl

theorem toList_unbalanced? {x : Moment σ ε} {a : Activation} (h : x.act.leaving? = some a) :
    x.unbalanced?.toList =
      if (x.run.memory.store.chain a.env).isEmpty then [a.decl.name] else [] := by
  rw [unbalanced?, h]
  cases hempty : (x.run.memory.store.chain a.env).isEmpty with
  | true => simp only [Option.filter, hempty, if_true, Option.map_some, Option.toList]
  | false => simp only [Option.filter, hempty, Bool.false_eq_true, if_false, Option.map_none,
      Option.toList]

/-- A call that is left where there is no frame is put on the log, and no other. -/
theorem unbalanced_next (obs : Observer σ ε) (x : Moment σ ε) :
    (next obs x).run.memory.unbalanced = x.run.memory.unbalanced ++ x.unbalanced?.toList := by
  obtain ⟨run, act⟩ := x
  cases act with
  | event m =>
    refine Eq.trans ?_ (List.append_nil _).symm
    show _ = (shownTo obs m.event run).memory.unbalanced
    cases hstop : (obs m.event run.memory.store run.seen).stop with
    | some why => rw [next_event_some obs m hstop]
    | none =>
      rw [next_event_none obs m hstop]
      rcases work_run (ε := ε) m (shownTo obs m.event run) with h | ⟨f, e, argument, v, h⟩
      · rw [h]
      · rw [h, Memory.unbalanced_beginCall]
  | bind m name v rest =>
    refine Eq.trans ?_ (List.append_nil _).symm
    cases hb : run.memory.store.bind (currentEnv m.globalEnv m.calls) name v with
    | none => rw [next_bind_none obs m hb]
    | some t =>
      rw [next_bind_some obs m hb]
      rfl
  | declare m decl rest =>
    refine Eq.trans ?_ (List.append_nil _).symm
    cases hb : run.memory.store.bind (currentEnv m.globalEnv m.calls) decl.name
        (run.memory.declared decl) with
    | none => rw [next_declare_none obs m hb]
    | some t =>
      rw [next_declare_some obs m hb]
      rfl
  | leave m a v =>
    rw [toList_unbalanced? (a := a) rfl]
    exact Memory.unbalanced_endCall run.memory a.decl.name a.env
  | unwind calls why =>
    cases calls with
    | nil => exact (List.append_nil _).symm
    | cons a calls =>
      rw [toList_unbalanced? (a := a) rfl]
      exact Memory.unbalanced_endCall run.memory a.decl.name a.env
  | ended outcome => exact (List.append_nil _).symm

theorem unbalanced_iterate (obs : Observer σ ε) (x : Moment σ ε) (n : Nat) :
    ((next obs)^[n] x).run.memory.unbalanced = x.run.memory.unbalanced ++
      (List.range n).filterMap fun i => ((next obs)^[i] x).unbalanced? := by
  induction n with
  | zero => exact (List.append_nil _).symm
  | succ n ih =>
    rw [Function.iterate_succ_apply', unbalanced_next, ih, List.range_succ, List.filterMap_append,
      List.append_assoc]
    rfl

/-! ## Endings for want of a frame -/

theorem unbindable?_eq_some {x : Moment σ ε} {name : Text} (h : x.unbindable? = some name) :
    ∃ e, x.act.binding? = some (e, name) ∧ x.run.memory.store.chain e = [] := by
  obtain ⟨⟨e, _⟩, hb, rfl⟩ := Option.map_eq_some_iff.mp h
  obtain ⟨hb, hempty⟩ := Option.filter_eq_some_iff.mp hb
  exact ⟨e, hb, List.isEmpty_iff.mp hempty⟩

theorem unbindable?_of_chain {x : Moment σ ε} {e : EnvId} {name : Text}
    (hb : x.act.binding? = some (e, name)) (hchain : x.run.memory.store.chain e = []) :
    x.unbindable? = some name := by
  rw [unbindable?, hb, Option.filter, hchain]
  rfl

/-- Where there is no frame, the binding fails and changes nothing. -/
theorem next_of_unbindable? (obs : Observer σ ε) {x : Moment σ ε} {name : Text}
    (h : x.unbindable? = some name) :
    (next obs x).act.failure? = some (.unbindable name) ∧ (next obs x).run = x.run := by
  obtain ⟨e, hb, hchain⟩ := unbindable?_eq_some h
  obtain ⟨run, act⟩ := x
  cases act with
  | bind m name' v rest =>
    cases hb
    rw [next_bind_none obs m (Store.bind_eq_none_iff.mpr hchain)]
    exact ⟨rfl, rfl⟩
  | declare m decl rest =>
    cases hb
    rw [next_declare_none obs m (Store.bind_eq_none_iff.mpr hchain)]
    exact ⟨rfl, rfl⟩
  | _ => cases hb

/-- An evaluation that is ending goes on to end, and changes no frame. -/
theorem next_of_failure? (obs : Observer σ ε) {x : Moment σ ε} {why : Stop ε}
    (h : x.act.failure? = some why) :
    (next obs x).act.failure? = some why ∧
      (next obs x).run.memory.store.frames = x.run.memory.store.frames := by
  obtain ⟨run, act⟩ := x
  cases act with
  | unwind calls why' =>
    cases calls with
    | nil => exact ⟨h, rfl⟩
    | cons a calls =>
      refine ⟨h, ?_⟩
      show (run.memory.endCall a.decl.name a.env).store.frames = _
      rw [Memory.store_endCall, Store.frames_popped]
  | ended outcome => exact ⟨h, rfl⟩
  | _ => cases h

/-- What a binding where there is no frame leads to. -/
theorem iterate_of_unbindable? (obs : Observer σ ε) {x : Moment σ ε} {name : Text} {i n : Nat}
    (hi : i < n) (h : ((next obs)^[i] x).unbindable? = some name) :
    ((next obs)^[n] x).act.failure? = some (.unbindable name) ∧
      ((next obs)^[n] x).run.memory.store.frames =
        ((next obs)^[i] x).run.memory.store.frames := by
  induction n with
  | zero => exact absurd hi (Nat.not_lt_zero i)
  | succ n ih =>
    rw [Function.iterate_succ_apply']
    rcases Nat.lt_succ_iff_lt_or_eq.mp hi with hlt | rfl
    · obtain ⟨hfailure, hframes⟩ := ih hlt
      obtain ⟨hfailure', hframes'⟩ := next_of_failure? obs hfailure
      exact ⟨hfailure', hframes'.trans hframes⟩
    · obtain ⟨hfailure, hrun⟩ := next_of_unbindable? obs h
      exact ⟨hfailure, by rw [hrun]⟩

section Failure

variable {m : Machine} (hm : m.IsComplete) {name : Text}
include hm

theorem failure?_goOn {last : Option Value} {rest : List Statement} {s : Store} :
    (Act.goOn (ε := ε) m last rest s).failure? ≠ some (.unbindable name) := by
  intro h
  obtain ⟨program, globalEnv, task, calls⟩ := m
  cases rest with
  | cons s rest => cases h
  | nil =>
    cases calls with
    | nil => cases last <;> cases h
    | cons a calls =>
      have ha : a.IsComplete := hm.calls a List.mem_cons_self
      obtain ⟨-, hret⟩ := (Bool.and_eq_true _ _).mp ha.1
      simp only [Act.goOn] at h
      have hany : s.Holds fun _ => True := fun _ _ _ _ => trivial
      rcases Direct.returnValue_holds (ε := ε) (fun _ => trivial) hany a.env hret with
        ⟨v, -, hv⟩ | ⟨d, hd⟩
      · rw [hv] at h
        cases h
      · rw [hd] at h
        cases h

theorem failure?_work {run : Run σ} :
    (work (ε := ε) m run).act.failure? ≠ some (.unbindable name) := by
  intro h
  obtain ⟨program, globalEnv, task, calls⟩ := m
  cases task with
  | statementList ss => exact failure?_goOn hm h
  | statement s rest => cases s <;> cases h
  | define target value pos rest =>
    cases value with
    | literal lexeme =>
      simp only [work] at h
      cases hv : literalValue target pos lexeme <;> rw [hv] at h <;> cases h
    | call callee argument =>
      simp only [work] at h
      cases hr : resolveCall run.memory.store (currentEnv globalEnv calls) callee argument pos with
      | error d =>
        rw [hr] at h
        cases h
      | ok fv =>
        simp only [hr, enter] at h
        cases hc : fv.1.capture <;> rw [hc] at h <;> cases h
    | hole => cases h
  | _ => cases h

end Failure

/-- A binding fails only where there is no frame. -/
theorem unbindable?_of_next {obs : Observer σ ε} {x : Moment σ ε} (hx : Fine obs x) {name : Text}
    (h : (next obs x).act.failure? = some (.unbindable name)) :
    x.act.failure? = some (.unbindable name) ∨ x.unbindable? = some name := by
  obtain ⟨run, act⟩ := x
  obtain ⟨-, hact⟩ := hx
  cases act with
  | event m =>
    cases hstop : (obs m.event run.memory.store run.seen).stop with
    | none =>
      rw [next_event_none obs m hstop] at h
      exact absurd h (failure?_work hact.1)
    | some why =>
      rw [next_event_some obs m hstop] at h
      cases h
  | bind m target v rest =>
    cases hb : run.memory.store.bind (currentEnv m.globalEnv m.calls) target v with
    | none =>
      rw [next_bind_none obs m hb] at h
      cases h
      exact .inr (unbindable?_of_chain rfl (Store.bind_eq_none_iff.mp hb))
    | some t =>
      rw [next_bind_some obs m hb] at h
      exact absurd h (failure?_goOn hact.1)
  | declare m decl rest =>
    cases hb : run.memory.store.bind (currentEnv m.globalEnv m.calls) decl.name
        (run.memory.declared decl) with
    | none =>
      rw [next_declare_none obs m hb] at h
      cases h
      exact .inr (unbindable?_of_chain rfl (Store.bind_eq_none_iff.mp hb))
    | some t =>
      rw [next_declare_some obs m hb] at h
      exact absurd h (failure?_goOn hact.1)
  | leave m a v => cases h
  | unwind calls why => cases calls <;> exact .inl h
  | ended outcome => exact .inl h

/-- If an evaluation ends for want of a frame, then at some moment it was to bind the name. -/
theorem exists_unbindable? {obs : Observer σ ε} (hobs : obs.Meddles) {x : Moment σ ε}
    (hx : Fine obs x) {name : Text} (hstart : x.act.failure? = none) {n : Nat}
    (h : ((next obs)^[n] x).act.failure? = some (.unbindable name)) :
    ∃ i < n, ((next obs)^[i] x).unbindable? = some name := by
  induction n with
  | zero =>
    rw [Function.iterate_zero, id, hstart] at h
    cases h
  | succ n ih =>
    rw [Function.iterate_succ_apply'] at h
    rcases unbindable?_of_next (hx.iterate hobs n) h with hbefore | hnow
    · obtain ⟨i, hi, hname⟩ := ih hbefore
      exact ⟨i, Nat.lt_succ_of_lt hi, hname⟩
    · exact ⟨n, Nat.lt_succ_self n, hnow⟩

end Moment

/-! ## Whole evaluations -/

/-- The moments of a program that is evaluated in a fresh memory, counted from 0. -/
def Program.moment (p : Program) (obs : Observer σ ε) (seen : σ) (i : Nat) : Moment σ ε :=
  (Moment.next obs)^[i] (.start p .fresh seen)

/-- Let an observer meddle with the environments of a complete program as it likes, except that a
function it binds or pushes must be declared completely and have an environment to run in
(`Value.Innocuous`), and let the evaluation come to an end.  It ends with a value, with a diagnosis,
for the reason that the observer has just given, or because a name was to be bound where there was
no frame.  The last is the case exactly if at some moment a name was about to be bound in an
environment without frames, and from that moment on no frame has changed.  The log tells of a
missing frame exactly for the calls that were about to be left when their environment had no frames,
in their order. -/
theorem meddling_cannot_crash {p : Program} (hcomplete : p.isComplete = true) {obs : Observer σ ε}
    (hobs : obs.Meddles) {limit : Nat} {seen : σ} {outcome : Except (Stop ε) Value} {run : Run σ}
    (h : p.evaluate obs limit .fresh seen = (outcome, run)) (hends : outcome ≠ .error .tooDeep) :
    EndsRegularly obs run.seen outcome ∧
    ∃ n, p.moment obs seen n = { run, act := .ended outcome } ∧
      (∀ name, outcome = .error (.unbindable name) ↔
        ∃ i < n, (p.moment obs seen i).unbindable? = some name) ∧
      (∀ i < n, ∀ name, (p.moment obs seen i).unbindable? = some name →
        run.memory.store.frames = (p.moment obs seen i).run.memory.store.frames) ∧
      run.memory.unbalanced =
        (List.range n).filterMap fun i => (p.moment obs seen i).unbalanced? := by
  obtain ⟨n, hn⟩ := Moment.evaluate_leads obs limit p .fresh seen (h ▸ hends)
  rw [h] at hn
  have hstart := Moment.start_fine obs hcomplete seen
  have hended := hstart.iterate hobs n
  rw [hn] at hended
  refine ⟨hended.act, n, hn, fun name => ⟨fun houtcome => ?_, ?_⟩, ?_, ?_⟩
  · refine Moment.exists_unbindable? hobs hstart rfl ?_
    rw [hn, houtcome]
    rfl
  · rintro ⟨i, hi, hname⟩
    obtain ⟨hfailure, -⟩ := Moment.iterate_of_unbindable? obs hi hname
    rw [hn] at hfailure
    cases outcome with
    | ok v => cases hfailure
    | error why => rw [Option.some.inj hfailure]
  · intro i hi name hname
    obtain ⟨-, hframes⟩ := Moment.iterate_of_unbindable? obs hi hname
    rwa [hn] at hframes
  · have hlog := Moment.unbalanced_iterate obs (.start p .fresh seen) n
    rwa [hn] at hlog

/-- The name that an evaluation could not bind. -/
def unboundName? : Except (Stop ε) Value → Option Text
  | .error (.unbindable name) => some name
  | _ => none

theorem eq_of_unboundName? {outcome : Except (Stop ε) Value} {name : Text}
    (h : unboundName? outcome = some name) : outcome = .error (.unbindable name) := by
  unfold unboundName? at h
  split at h
  · rw [Option.some.inj h]
  · cases h

/-- A function that names a number before it returns it. -/
def undermined : Program :=
  { statements := [
      .function "g" "x" [.define "t" (.literal "1") 1] (.name "t") 0,
      .define "y" (.call "g" "g") 2] }

/-- Pops the frame of the call and the global frame when the function is about to name its number. -/
def undermining : Observer (Array Observer.Sighting) Unit :=
  .scripted [⟨11, .pop⟩, ⟨11, .pop⟩] 0 ()

theorem undermining_meddles : undermining.Meddles := by
  refine Observer.scripted_meddles (fun hook hhook => ?_) 0 ()
  rcases List.mem_cons.mp hhook with rfl | hhook
  · trivial
  · rw [List.mem_singleton.mp hhook]
    trivial

theorem undermined_cannot_crash :
    ∃ run n i, undermined.evaluate undermining 1 .fresh #[] = (.error (.unbindable "t"), run) ∧
      i < n ∧ (undermined.moment undermining #[] i).unbindable? = some ("t" : Text) ∧
      run.memory.store.frames = (undermined.moment undermining #[] i).run.memory.store.frames ∧
      run.memory.unbalanced = (["g"] : List Text) ∧
      run.memory.unbalanced =
        (List.range n).filterMap fun i => (undermined.moment undermining #[] i).unbalanced? := by
  have hname : unboundName? (undermined.evaluate undermining 1 .fresh #[]).1 =
      some ("t" : Text) := by
    decide +kernel
  have hlog : (undermined.evaluate undermining 1 .fresh #[]).2.memory.unbalanced =
      (["g"] : List Text) := by
    decide +kernel
  cases hresult : undermined.evaluate undermining 1 .fresh #[] with
  | mk outcome run =>
    rw [hresult] at hname hlog
    cases eq_of_unboundName? hname
    obtain ⟨-, n, -, hunbindable, hframes, hunbalanced⟩ :=
      meddling_cannot_crash (by decide) undermining_meddles hresult nofun
    obtain ⟨i, hi, hmoment⟩ := (hunbindable "t").mp rfl
    exact ⟨run, n, i, rfl, hi, hmoment, hframes i hi "t" hmoment, hlog, hunbalanced⟩

end Stepwise
