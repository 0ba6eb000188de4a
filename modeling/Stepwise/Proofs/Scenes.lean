/-
The scenes of an evaluation.

What an evaluation does between two events depends on its observer only if the observer
changes environments or stops the evaluation.  So for the observers that do neither, and up
to the point where an observer stops it, an evaluation is one sequence of scenes, fixed by
the program and by the memory it starts in: `Scene.after n` of its first scene is the one at
event `n`, counted from 0.

A scene is a parked machine with its memory, and with two things that the store no longer
shows: of which frames each environment consisted when it was made, and which frame was
pushed for each of the running calls.

`sightings_scene` says that all that a passive observer ever sees are scenes, in order, and
`sightings_complete` that one who stops at nothing sees all of them.
-/
import Stepwise.Proofs.Correspondence

namespace Stepwise

variable {σ ε δ : Type}

/-! ## Reasons to stop make no difference -/

def Stop.map (f : ε → δ) : Stop ε → Stop δ
  | diagnosed d => diagnosed d
  | unbindable name => unbindable name
  | interrupted why => interrupted (f why)
  | missing hole => missing hole
  | uncaptured => uncaptured
  | tooDeep => tooDeep

namespace Machine

def Progress.map (f : ε → δ) : Progress ε → Progress δ
  | parked m => parked m
  | ended outcome => ended (outcome.mapError (Stop.map f))

theorem returnValue_map (f : ε → δ) (s : Store) (env : EnvId) (decl : FunctionDecl) :
    returnValue (ε := δ) s env decl = (returnValue s env decl).mapError (Stop.map f) := by
  unfold returnValue
  cases decl.ret with
  | name x =>
    simp only
    cases s.lookup env x <;> rfl
  | sum left right =>
    show (sumOf s env left right decl.pos).mapError _ =
      ((sumOf s env left right decl.pos).mapError _).mapError _
    cases sumOf s env left right decl.pos <;> rfl
  | hole => rfl

theorem proceed_map (f : ε → δ) (m : Machine) (calls : List Activation) :
    ∀ (last : Option Value) (rest : List Statement) (memory : Memory),
      m.proceed calls last rest memory =
        Prod.map id (Progress.map f) (m.proceed calls last rest memory) := by
  induction calls with
  | nil =>
    intro last rest memory
    cases rest with
    | cons s rest => rfl
    | nil => cases last <;> rfl
  | cons a calls ih =>
    intro last rest memory
    cases rest with
    | cons s rest => rfl
    | nil =>
      simp only [proceed, returnValue_map f]
      cases returnValue (ε := ε) memory.store a.env a.decl with
      | error why => rfl
      | ok v =>
        rw [show Except.mapError (Stop.map f) (.ok v) = .ok v from rfl]
        simp only
        cases (memory.endCall a.decl.name a.env).bind (currentEnv m.globalEnv calls) a.target v with
        | none => rfl
        | some memory => exact ih (some v) a.rest memory

theorem bindAndProceed_map (f : ε → δ) (m : Machine) (name : Text) (v : Value)
    (rest : List Statement) (memory : Memory) :
    m.bindAndProceed name v rest memory =
      Prod.map id (Progress.map f) (m.bindAndProceed name v rest memory) := by
  unfold bindAndProceed
  cases memory.bind (currentEnv m.globalEnv m.calls) name v with
  | none => rfl
  | some memory => exact proceed_map f m m.calls (some v) rest memory

theorem enter_map (f : ε → δ) (m : Machine) (target : Text) (rest : List Statement)
    (argument : Text) (g : Closure) (v : Value) (memory : Memory) :
    m.enter target rest argument g v memory =
      Prod.map id (Progress.map f) (m.enter target rest argument g v memory) := by
  unfold enter
  cases g.capture <;> rfl

theorem resume_map (f : ε → δ) (m : Machine) (memory : Memory) :
    m.resume memory = Prod.map id (Progress.map f) (m.resume memory) := by
  unfold resume
  cases m.task with
  | start => rfl
  | sourceFile => rfl
  | functionBody decl => rfl
  | statementList ss => exact proceed_map f m m.calls none ss memory
  | statement s rest => cases s <;> rfl
  | define name value pos rest =>
    cases value with
    | literal lexeme =>
      simp only
      cases literalValue name pos lexeme with
      | error d => rfl
      | ok v => exact bindAndProceed_map f m name v rest memory
    | call callee argument =>
      simp only
      cases resolveCall memory.store (currentEnv m.globalEnv m.calls) callee argument pos with
      | error d => rfl
      | ok fv => exact enter_map f m name rest argument fv.1 fv.2 memory
    | hole => rfl
  | declare decl rest =>
    simp only
    cases memory.declare (currentEnv m.globalEnv m.calls) decl with
    | none => rfl
    | some fm => exact proceed_map f m m.calls (some fm.1) rest fm.2

theorem event_env (m : Machine) : m.event.env = currentEnv m.globalEnv m.calls := by
  unfold event
  cases m.task <;> rfl

end Machine

/-! ## Scenes -/

/-- A parked evaluation. -/
structure Scene where
  machine : Machine
  memory : Memory
  /-- The frames of each environment when it was made, innermost first. -/
  captured : List (List FrameId)
  /-- The frames that were pushed for the running calls, innermost first. -/
  owned : List FrameId

namespace Scene

def start (p : Program) (memory : Memory) : Scene :=
  { machine := .init p Memory.globalEnv
    memory
    captured := memory.store.chains.toList
    owned := [] }

def env (sc : Scene) : EnvId := Machine.currentEnv sc.machine.globalEnv sc.machine.calls

def sighting (sc : Scene) : Observer.Sighting :=
  { event := sc.machine.event, store := sc.memory.store }

/-- What has been captured when the work of the scene is done: a declaration captures the
frames of the environment in which it stands. -/
def capturedNext (sc : Scene) : List (List FrameId) :=
  match sc.machine.task with
  | .declare .. => sc.captured ++ [sc.memory.store.chain sc.env]
  | _ => sc.captured

/-- The frames of the `calls` that run when the work of the scene is done: one more if a call
was entered, and else those of the calls that have not ended. -/
def ownedNext (sc : Scene) (calls : List Activation) : List FrameId :=
  if sc.machine.calls.length < calls.length then sc.memory.store.frames.size :: sc.owned
  else sc.owned.drop (sc.machine.calls.length - calls.length)

/-- The scene at the next event, if there is one. -/
def next (sc : Scene) : Option Scene :=
  match sc.machine.resume (ε := Empty) sc.memory with
  | (memory, .parked machine) =>
    some { machine, memory, captured := sc.capturedNext, owned := sc.ownedNext machine.calls }
  | (_, .ended _) => none

/-- The scene after as many more events, if there are as many. -/
def after : Nat → Scene → Option Scene
  | 0, sc => some sc
  | n + 1, sc => sc.next.bind (after n)

theorem after_succ {sc sc' : Scene} (h : sc.next = some sc') (n : Nat) :
    sc.after (n + 1) = sc'.after n := by
  rw [after, h]
  rfl

theorem after_add (n k : Nat) (sc : Scene) : sc.after (n + k) = (sc.after n).bind (after k) := by
  induction n generalizing sc with
  | zero => rw [Nat.zero_add]; rfl
  | succ n ih =>
    rw [Nat.add_right_comm]
    show sc.next.bind (after (n + k)) = (sc.next.bind (after n)).bind (after k)
    cases sc.next with
    | none => rfl
    | some sc' => exact ih sc'

/-- A scene is reached through all those before it. -/
theorem after_of_after {n k : Nat} {sc last : Scene} (h : sc.after k = some last) (hn : n ≤ k) :
    ∃ sc', sc.after n = some sc' ∧ sc'.after (k - n) = some last := by
  obtain ⟨j, rfl⟩ := Nat.exists_eq_add_of_le hn
  rw [after_add] at h
  obtain ⟨sc', hsc', hrest⟩ := Option.bind_eq_some_iff.mp h
  exact ⟨sc', hsc', by rwa [Nat.add_sub_cancel_left]⟩

theorem after_of_le {n k : Nat} {sc : Scene} (h : sc.after n = none) (hk : n ≤ k) :
    sc.after k = none := by
  obtain ⟨j, rfl⟩ := Nat.exists_eq_add_of_le hk
  rw [after_add, h]
  rfl

theorem after_eq_none {n : Nat} : ∀ {sc : Scene}, sc.after n = none →
    ∃ k last, k < n ∧ sc.after k = some last ∧ last.next = none := by
  induction n with
  | zero => exact fun h => absurd h nofun
  | succ n ih =>
    intro sc h
    cases hnext : sc.next with
    | none => exact ⟨0, sc, Nat.succ_pos n, rfl, hnext⟩
    | some sc' =>
      obtain ⟨k, last, hk, hlast, hend⟩ := ih ((after_succ hnext n).symm.trans h)
      exact ⟨k + 1, last, Nat.succ_lt_succ hk, (after_succ hnext k).trans hlast, hend⟩

/-- What the first scene has and every scene hands on to the next, all scenes have. -/
theorem after_induction {P : Scene → Prop}
    (hstep : ∀ sc sc', P sc → sc.next = some sc' → P sc') {n : Nat} {sc sc' : Scene}
    (hsc : P sc) (h : sc.after n = some sc') : P sc' := by
  induction n generalizing sc with
  | zero => exact Option.some.inj h ▸ hsc
  | succ n ih =>
    obtain ⟨next, hnext, h⟩ := Option.bind_eq_some_iff.mp h
    exact ih (hstep sc next hsc hnext) h

/-- What an observer is shown at the next `n` events. -/
def trail : Nat → Scene → List Observer.Sighting
  | 0, _ => []
  | n + 1, sc => sc.sighting :: sc.next.elim [] (trail n)

theorem trail_one (sc : Scene) : sc.trail 1 = [sc.sighting] := by
  rw [trail]
  cases sc.next <;> rfl

theorem trail_of_next {sc sc' : Scene} (h : sc.next = some sc') (n : Nat) :
    sc.trail (n + 1) = sc.sighting :: sc'.trail n := by
  rw [trail, h]
  rfl

theorem getElem?_trail (n i : Nat) (sc : Scene) :
    (sc.trail n)[i]? = if i < n then (sc.after i).map sighting else none := by
  induction n generalizing sc i with
  | zero => rfl
  | succ n ih =>
    cases i with
    | zero => rfl
    | succ i =>
      show (sc.next.elim [] (trail n))[i]? = _
      rw [show sc.after (i + 1) = sc.next.bind (after i) from rfl]
      cases sc.next with
      | none => simp
      | some sc' =>
        simp only [Option.elim, Option.bind, Nat.add_lt_add_iff_right]
        exact ih i sc'

theorem length_trail {n : Nat} : ∀ {sc last : Scene}, sc.after n = some last →
    (sc.trail (n + 1)).length = n + 1 := by
  induction n with
  | zero =>
    intro sc last _
    rw [trail_one]
    rfl
  | succ n ih =>
    intro sc last h
    obtain ⟨sc', hnext, h⟩ := Option.bind_eq_some_iff.mp h
    rw [trail_of_next hnext]
    exact congrArg (· + 1) (ih h)

end Scene

/-- The scene at event `n` of a program that is evaluated in a memory. -/
def Program.sceneAt (p : Program) (memory : Memory) (n : Nat) : Option Scene :=
  (Scene.start p memory).after n

/-! ## What observers see -/

/-- What the observer has seen, as far as `log` tells, are the entries of a list, to which each
event adds one. -/
def Observer.Logs {γ : Type} (obs : Observer σ ε) (entry : Event → Store → γ)
    (log : σ → List γ → Prop) : Prop :=
  ∀ ev s seen entries, log seen entries → log (obs ev s seen).seen (entries ++ [entry ev s])

/-- The observer, with a record kept of all that it is shown. -/
def Observer.witnessed (obs : Observer σ ε) : Observer (σ × List Observer.Sighting) ε :=
  fun ev s seen =>
    let reaction := obs ev s seen.1
    { store := reaction.store
      seen := (reaction.seen, seen.2 ++ [{ event := ev, store := s }])
      stop := reaction.stop }

theorem Observer.witnessed_logs (obs : Observer σ ε) :
    obs.witnessed.Logs Observer.Sighting.mk fun seen entries => seen.2 = entries := by
  intro ev s seen entries h
  subst h
  rfl

/-- The events that a program shows to an observer, each with the store of its moment. -/
def Program.sightings (p : Program) (obs : Observer σ ε) (limit : Nat) (memory : Memory)
    (seen : σ) : List Observer.Sighting :=
  (p.evaluate obs.witnessed limit memory (seen, [])).2.seen.2

def Observer.Unstopping (obs : Observer σ ε) : Prop := ∀ ev s seen, (obs ev s seen).stop = none

namespace Scene

open Machine

/-- Whatever the reasons of the observer, a scene leads to the next or to the end. -/
theorem resume_cases (ε : Type) (sc : Scene) :
    (∃ sc', sc.next = some sc' ∧
      sc.machine.resume (ε := ε) sc.memory = (sc'.memory, .parked sc'.machine)) ∨
    (∃ memory outcome, sc.next = none ∧
      sc.machine.resume (ε := ε) sc.memory = (memory, .ended outcome)) := by
  rw [resume_map (ε := Empty) Empty.elim sc.machine sc.memory]
  unfold next
  rcases sc.machine.resume (ε := Empty) sc.memory with ⟨memory, machine | outcome⟩
  · exact .inl ⟨_, rfl, rfl⟩
  · exact .inr ⟨_, _, rfl, rfl⟩

theorem next_of_ended {sc : Scene} {memory : Memory} {outcome : Except (Stop ε) Value}
    (h : sc.machine.resume sc.memory = (memory, .ended outcome)) : sc.next = none := by
  rcases sc.resume_cases ε with ⟨sc', hnext, hresume⟩ | ⟨_, _, hnext, -⟩
  · rw [h] at hresume
    cases hresume
  · exact hnext

theorem after_of_ended {k : Nat} {sc last : Scene} {memory : Memory}
    {outcome : Except (Stop ε) Value} (hlast : sc.after k = some last)
    (h : last.machine.resume last.memory = (memory, .ended outcome)) :
    sc.after (k + 1) = none := by
  rw [after_add, hlast]
  exact congrArg (Option.bind · _) (next_of_ended h)

def config (sc : Scene) (seen : σ) : Config σ ε :=
  { run := { memory := sc.memory, seen }, progress := .parked sc.machine }

section Passive

variable {obs : Observer σ ε} (hobs : obs.Passive) {log : σ → List Observer.Sighting → Prop}
  (hlog : obs.Logs Observer.Sighting.mk log)
include hobs

theorem react_of_passive (sc : Scene) (seen : σ) :
    react obs sc.machine { memory := sc.memory, seen } =
      let reaction := obs sc.machine.event sc.memory.store seen
      .of reaction.seen <|
        match reaction.stop with
        | none => sc.machine.resume sc.memory
        | some why => sc.machine.interrupt why sc.memory := by
  have hmemory : ({ sc.memory with store :=
      (obs sc.machine.event sc.memory.store seen).store } : Memory) = sc.memory :=
    congrArg (fun store => ({ sc.memory with store } : Memory)) (hobs _ _ _)
  show Config.of _ (match (obs sc.machine.event sc.memory.store seen).stop with
    | none => sc.machine.resume
        { sc.memory with store := (obs sc.machine.event sc.memory.store seen).store }
    | some why => sc.machine.interrupt why
        { sc.memory with store := (obs sc.machine.event sc.memory.store seen).store }) = _
  rw [hmemory]

include hlog

/-- A passive observer has seen the scenes on the way, and is at the next one unless the
evaluation has ended.  If it was not the observer who ended it, it ended of itself after the
last scene seen. -/
theorem steps_scenes {n : Nat} : ∀ (sc : Scene) (trail : List Observer.Sighting) {seen : σ}
    {c : Config σ ε}, log seen trail → Steps obs n (sc.config seen) c →
      log c.run.seen (trail ++ sc.trail n) ∧
        match c.progress with
        | .parked _ => ∃ sc', sc.after n = some sc' ∧ c = sc'.config c.run.seen
        | .ended outcome => obs.Unstopping → ∃ k last, n = k + 1 ∧ sc.after k = some last ∧
            last.machine.resume last.memory = (c.run.memory, .ended outcome) := by
  induction n with
  | zero =>
    intro sc trail seen c hseen h
    cases h
    exact ⟨(List.append_nil trail).symm ▸ hseen, sc, rfl, rfl⟩
  | succ n ih =>
    -- The observer ends it here, or the machine goes on to the next scene, or it ends of itself.
    intro sc trail seen c hseen h
    cases h with
    | step h =>
      have hseen := hlog sc.machine.event sc.memory.store seen trail hseen
      rw [react_of_passive hobs] at h
      simp only at h
      cases hstop : (obs sc.machine.event sc.memory.store seen).stop with
      | some why =>
        rw [hstop] at h
        obtain ⟨rfl, rfl⟩ := h.of_ended
        refine ⟨?_, fun hun => ?_⟩
        · rw [Scene.trail_one]
          exact hseen
        · rw [hun] at hstop
          cases hstop
      | none =>
        rw [hstop] at h
        rcases sc.resume_cases ε with ⟨sc', hnext, hresume⟩ | ⟨memory, outcome, hnext, hresume⟩
        · simp only [hresume] at h
          obtain ⟨hseen, hrest⟩ := ih sc' _ hseen h
          refine ⟨?_, ?_⟩
          · rw [Scene.trail_of_next hnext]
            rwa [List.append_assoc] at hseen
          · rw [Scene.after_succ hnext]
            cases hprogress : c.progress with
            | parked m =>
              rw [hprogress] at hrest
              exact hrest
            | ended outcome =>
              rw [hprogress] at hrest
              intro hun
              obtain ⟨k, last, rfl, hlast, hresume⟩ := hrest hun
              exact ⟨k + 1, last, rfl, (Scene.after_succ hnext k).trans hlast, hresume⟩
        · simp only [hresume] at h
          obtain ⟨rfl, rfl⟩ := h.of_ended
          refine ⟨?_, fun _ => ⟨0, sc, rfl, rfl, hresume⟩⟩
          rw [Scene.trail, hnext]
          exact hseen

end Passive
end Scene

section Passive

variable {obs : Observer σ ε} (hobs : obs.Passive)
include hobs

/-- The events of an evaluation are its scenes, as far as it goes.  It goes through all of
them, and ends as the last one does, unless the observer stops it or the limit on calls is
reached. -/
theorem Program.sightings_eq_trail (p : Program) (limit : Nat) (memory : Memory) (seen : σ) :
    ∃ n, p.sightings obs limit memory seen = (Scene.start p memory).trail n ∧
      (obs.Unstopping →
        match p.evaluate obs.witnessed limit memory (seen, []) with
        | (.error .tooDeep, _) => limit ≤ n
        | (outcome, run) => ∃ k last, n = k + 1 ∧ p.sceneAt memory k = some last ∧
            last.machine.resume last.memory = (run.memory, .ended outcome)) := by
  have hfollows := Machine.evaluate_follows obs.witnessed limit p memory (seen, [])
  have hpassive : obs.witnessed.Passive := fun ev s seen => hobs ev s seen.1
  have hun : obs.Unstopping → obs.witnessed.Unstopping := fun h ev s seen => h ev s seen.1
  unfold Program.sightings
  generalize p.evaluate obs.witnessed limit memory (seen, []) = result at *
  rcases result with ⟨why | v, run⟩
  · cases why with
    | tooDeep =>
      obtain ⟨n, d, hn, hsteps, hseen⟩ := hfollows
      obtain ⟨htrail, -⟩ :=
        Scene.steps_scenes hpassive obs.witnessed_logs (Scene.start p memory) [] rfl hsteps
      exact ⟨n, hseen ▸ htrail, fun _ => hn⟩
    | _ =>
      obtain ⟨n, hsteps⟩ := hfollows
      obtain ⟨htrail, hend⟩ :=
        Scene.steps_scenes hpassive obs.witnessed_logs (Scene.start p memory) [] rfl hsteps
      exact ⟨n, htrail, fun h => hend (hun h)⟩
  · obtain ⟨n, hsteps⟩ := hfollows
    obtain ⟨htrail, hend⟩ :=
      Scene.steps_scenes hpassive obs.witnessed_logs (Scene.start p memory) [] rfl hsteps
    exact ⟨n, htrail, fun h => hend (hun h)⟩

theorem Program.sightings_scene {p : Program} {limit : Nat} {memory : Memory} {seen : σ} {i : Nat}
    {s : Observer.Sighting} (h : (p.sightings obs limit memory seen)[i]? = some s) :
    ∃ sc, p.sceneAt memory i = some sc ∧ s = sc.sighting := by
  obtain ⟨n, htrail, -⟩ := p.sightings_eq_trail hobs limit memory seen
  rw [htrail, Scene.getElem?_trail] at h
  split at h
  · obtain ⟨sc, hsc, hs⟩ := Option.map_eq_some_iff.mp h
    exact ⟨sc, hsc, hs.symm⟩
  · cases h

/-- An evaluation that neither its observer nor the limit on calls has stopped ends as its
last scene does, and that scene is the last thing seen. -/
theorem Program.evaluate_last (hun : obs.Unstopping) {p : Program} {limit : Nat}
    {memory : Memory} {seen : σ}
    (h : (p.evaluate obs.witnessed limit memory (seen, [])).1 ≠ .error .tooDeep) :
    ∃ k last, p.sightings obs limit memory seen = (Scene.start p memory).trail (k + 1) ∧
      p.sceneAt memory k = some last ∧ last.machine.resume last.memory =
        ((p.evaluate obs.witnessed limit memory (seen, [])).2.memory,
          .ended (p.evaluate obs.witnessed limit memory (seen, [])).1) := by
  obtain ⟨n, htrail, hend⟩ := p.sightings_eq_trail hobs limit memory seen
  have hend := hend hun
  generalize p.evaluate obs.witnessed limit memory (seen, []) = result at *
  rcases result with ⟨why | v, run⟩
  · cases why with
    | tooDeep => exact absurd rfl h
    | _ =>
      obtain ⟨k, last, rfl, hlast, hresume⟩ := hend
      exact ⟨k, last, htrail, hlast, hresume⟩
  · obtain ⟨k, last, rfl, hlast, hresume⟩ := hend
    exact ⟨k, last, htrail, hlast, hresume⟩

/-- A passive observer that does not stop the evaluation sees every scene, if the limit on
calls is not reached before it. -/
theorem Program.sightings_complete (hun : obs.Unstopping) {p : Program} {limit : Nat}
    {memory : Memory} {seen : σ} {i : Nat}
    (h : i < limit ∨ (p.evaluate obs.witnessed limit memory (seen, [])).1 ≠ .error .tooDeep) :
    (p.sightings obs limit memory seen)[i]? = (p.sceneAt memory i).map Scene.sighting := by
  by_cases hdeep : (p.evaluate obs.witnessed limit memory (seen, [])).1 = .error .tooDeep
  · obtain ⟨n, htrail, hend⟩ := p.sightings_eq_trail hobs limit memory seen
    have hi : i < n := by
      have hlimit : i < limit := h.resolve_right (absurd hdeep)
      have hend := hend hun
      generalize p.evaluate obs.witnessed limit memory (seen, []) = result at *
      obtain ⟨outcome, run⟩ := result
      obtain rfl : outcome = .error .tooDeep := hdeep
      exact Nat.lt_of_lt_of_le hlimit hend
    rw [htrail, Scene.getElem?_trail, if_pos hi]
    rfl
  · obtain ⟨k, last, htrail, hlast, hresume⟩ := Program.evaluate_last hobs hun hdeep
    rw [htrail, Scene.getElem?_trail]
    by_cases hi : i < k + 1
    · rw [if_pos hi]
      rfl
    · have hnone : (Scene.start p memory).after (k + 1) = none := Scene.after_of_ended hlast hresume
      rw [if_neg hi, Program.sceneAt, Scene.after_of_le hnone (Nat.le_of_not_lt hi)]
      rfl

end Passive
end Stepwise
