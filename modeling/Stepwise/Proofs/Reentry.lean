/-
Only re-entry can make a program run for ever.

As long as no declaration is entered while a call of it is running, the running calls stand at
different sites, and there are no more sites than function declarations in the program.  An
evaluation that met a larger limit on its calls would have had more calls running than that
(`evaluate_dives`).  So it ends, and no order on the functions of the program is needed: which
function a name stands for may change from call to call.
-/
import Mathlib.Data.List.Perm.Subperm
import Stepwise.Proofs.Depth
import Stepwise.Proofs.Endings
import Stepwise.Proofs.Onlookers
import Stepwise.Proofs.Refinement
import Stepwise.Proofs.Sites
import Stepwise.Proofs.Stopping

namespace Stepwise

open Machine

variable {σ ε : Type}

/-- At event `n` a call begins, and another call of the same declaration is running, whichever
function was called. -/
def Program.ReentersAt (p : Program) (n : Nat) : Prop :=
  ∃ sc a outer, p.sceneAt .fresh n = some sc ∧ sc.machine.task = .functionBody a.decl ∧
    sc.machine.calls = a :: outer ∧
    ∃ b ∈ outer, (p.sitesAt n).getD b.env [] = (p.sitesAt n).getD a.env []

/-- The sites of the running calls, innermost first. -/
def callSites (sites : List Site) (calls : List Activation) : List Site :=
  calls.map fun a => sites.getD a.env []

section

variable {p : Program} {sites : List Site} {e : EnvId} {decl : FunctionDecl}

theorem HasDecl.getD (h : HasDecl p sites e decl) : p.DeclaredAt (sites.getD e []) decl := by
  obtain ⟨site, hsite, hdecl⟩ := h
  rw [List.getD_eq_getElem?_getD, hsite]
  exact hdecl

theorem HasDecl.getD_append (h : HasDecl p sites e decl) (more : List Site) :
    (sites ++ more).getD e [] = sites.getD e [] := by
  obtain ⟨site, hsite, -⟩ := h
  rw [List.getD_eq_getElem?_getD, List.getD_eq_getElem?_getD, hsite,
    getElem?_append_of_eq_some hsite]

/-- A declaration leaves the sites of the running calls alone. -/
theorem callSites_sitesNext {sc : Scene} {calls : List Activation}
    (h : ∀ a ∈ calls, HasDecl p sites a.env a.decl) :
    callSites (sc.sitesNext sites) calls = callSites sites calls := by
  refine List.map_congr_left fun a ha => ?_
  unfold Scene.sitesNext
  split
  · exact (h a ha).getD_append _
  · rfl

end

namespace Program

variable {p : Program}

/-- Where no declaration has been re-entered, the running calls stand at different sites. -/
theorem nodup_callSites {n : Nat} : ∀ {sc : Scene}, p.sceneAt .fresh n = some sc →
    (∀ i ≤ n, ¬p.ReentersAt i) → (callSites (p.sitesAt n) sc.machine.calls).Nodup := by
  induction n with
  | zero =>
    intro sc h _
    obtain rfl := Option.some.inj h
    exact List.nodup_nil
  | succ n ih =>
    intro sc' h hnever
    obtain ⟨sc, hsc, hnext⟩ := Scene.after_succ_last h
    have hplaced := sceneAt_placed hsc
    have hsites : callSites (sc.sitesNext (p.sitesAt n)) sc.machine.calls =
        callSites (p.sitesAt n) sc.machine.calls :=
      callSites_sitesNext fun a ha => hplaced.calls.hasDecl ha
    have hnodup := ih hsc fun i hi => hnever i (Nat.le_succ_of_le hi)
    rw [← hsites, ← sitesAt_succ hsc] at hnodup
    rcases (hplaced.next hnext).2 with ⟨k, hcalls⟩ | ⟨a, hcalls, htask⟩
    · rw [hcalls, callSites, List.map_drop]
      exact hnodup.sublist (List.drop_sublist k _)
    · rw [hcalls]
      refine List.nodup_cons.mpr ⟨fun hmem => ?_, hnodup⟩
      obtain ⟨b, hb, hsame⟩ := List.mem_map.mp hmem
      exact hnever (n + 1) (Nat.le_refl _) ⟨sc', a, _, h, htask, hcalls, b, hb, hsame⟩

/-- Then no more calls are running than there are function declarations. -/
theorem length_calls_le {n : Nat} {sc : Scene} (h : p.sceneAt .fresh n = some sc)
    (hnever : ∀ i ≤ n, ¬p.ReentersAt i) : sc.machine.calls.length ≤ p.functionCount := by
  have hplaced := sceneAt_placed h
  have hsubset : callSites (p.sitesAt n) sc.machine.calls ⊆ p.sites := by
    intro site hsite
    obtain ⟨a, ha, rfl⟩ := List.mem_map.mp hsite
    exact (hplaced.calls.hasDecl ha).getD.mem_sites
  have hle := ((nodup_callSites h hnever).subperm hsubset).length_le
  rwa [callSites, List.length_map, sites, Statement.length_listSites] at hle

theorem exists_reentersAt {n : Nat} {sc : Scene} (h : p.sceneAt .fresh n = some sc)
    (hdeep : p.functionCount < sc.machine.calls.length) : ∃ i ≤ n, p.ReentersAt i := by
  by_contra hnone
  have hle := length_calls_le h fun i hi hre => hnone ⟨i, hi, hre⟩
  omega

end Program

/-! ## Evaluations that meet their limit -/

section

variable {obs : Observer σ ε} (hobs : obs.LooksOn) {p : Program} {limit : Nat} {seen : σ}
include hobs

/-- An evaluation that met its limit has shown an event at which that many calls were running, and
none after it. -/
theorem Program.exists_deep (hdeep : (p.evaluate obs limit .fresh seen).1 = .error .tooDeep) :
    ∃ n sc, p.sceneAt .fresh n = some sc ∧ sc.machine.calls.length = limit ∧
      (p.evaluate obs limit .fresh seen).2.seen =
        obs.shown seen ((Scene.start p .fresh).trail (n + 1)) := by
  have hdives := evaluate_dives obs limit p .fresh seen
  generalize p.evaluate obs limit .fresh seen = result at *
  obtain ⟨_, run⟩ := result
  obtain rfl := hdeep
  obtain ⟨n, m, r, hsteps, hdepth, hseen⟩ := hdives
  have hlog : obs.Logs Observer.Sighting.mk fun seen' events => seen' = obs.shown seen events := by
    intro ev s seen' events h
    rw [obs.shown_concat, ← h]
  have hstart : seen = obs.shown seen [] := rfl
  obtain ⟨-, sc, hsc, hparked⟩ :=
    Scene.steps_scenes hobs.passive hlog (Scene.start p .fresh) [] hstart hsteps
  obtain ⟨hshown, -⟩ := Scene.steps_scenes hobs.passive hlog (Scene.start p .fresh) [] hstart
    (hsteps.trans (Steps.single obs m r))
  obtain rfl : m = sc.machine := Progress.parked.inj (congrArg Config.progress hparked)
  exact ⟨n, sc, hsc, hdepth, hseen.symm.trans hshown⟩

theorem Program.evaluate_ne_tooDeep_of_never (hnever : ∀ n, ¬p.ReentersAt n)
    (hlimit : p.functionCount < limit) :
    (p.evaluate obs limit .fresh seen).1 ≠ .error .tooDeep := by
  intro hdeep
  obtain ⟨n, sc, hsc, hdepth, -⟩ := Program.exists_deep hobs hdeep
  have hle := Program.length_calls_le hsc fun i _ => hnever i
  omega

theorem Program.exists_sceneAt_eq_none
    (hends : (p.evaluate obs limit .fresh seen).1 ≠ .error .tooDeep) :
    ∃ n, p.sceneAt .fresh n = none := by
  obtain ⟨n, hsteps⟩ := Program.exists_steps hends
  have hlog : obs.Logs Observer.Sighting.mk fun _ _ => True := fun _ _ _ _ _ => trivial
  obtain ⟨-, hended⟩ :=
    Scene.steps_scenes hobs.passive hlog (Scene.start p .fresh) [] trivial hsteps
  obtain ⟨k, last, -, hlast, hresume⟩ := hended hobs.unstopping
  exact ⟨k + 1, Scene.after_of_ended hlast hresume⟩

end

/-- The function declarations of a program have as many sites, and each running call runs the one
that stands at its own.  If no declaration is entered while a call of it is running, the evaluation
ends: every limit on its calls that is larger than the number of declarations gives the same result,
and no more calls than that are running at any event.  And in any case the evaluation that is
allowed one call more than there are declarations ends as it would without a limit, or it has shown
an event at which it re-entered a declaration. -/
theorem only_reentry_runs_forever (p : Program) {obs : Observer σ ε} (hobs : obs.LooksOn)
    (seen : σ) :
    (p.sites.Nodup ∧ p.sites.length = p.functionCount ∧
      ∀ n sc, p.sceneAt .fresh n = some sc → ∀ a ∈ sc.machine.calls,
        (p.sitesAt n).getD a.env [] ∈ p.sites ∧
        p.DeclaredAt ((p.sitesAt n).getD a.env []) a.decl) ∧
    ((∀ n, ¬p.ReentersAt n) →
      (∃ result, result.1 ≠ .error .tooDeep ∧
        ∀ limit, p.functionCount < limit → p.evaluate obs limit .fresh seen = result) ∧
      (∃ n, p.sceneAt .fresh n = none) ∧
      ∀ n sc, p.sceneAt .fresh n = some sc → sc.machine.calls.length ≤ p.functionCount) ∧
    let limit := p.functionCount + 1
    let result := p.evaluate obs.witnessed limit .fresh (seen, [])
    (result.1 = .error .tooDeep →
      ∃ n < (p.sightings obs limit .fresh seen).length, p.ReentersAt n) ∧
    (result.1 ≠ .error .tooDeep → ∃ events, ∀ limit', events < limit' →
      p.evaluate obs.witnessed limit' .fresh (seen, []) = result) := by
  refine ⟨⟨?_, ?_, ?_⟩, fun hnever => ?_, ?_⟩
  · exact Statement.nodup_listSites [] p.statements
  · exact Statement.length_listSites [] p.statements
  · intro n sc hsc a ha
    have hdecl := ((Program.sceneAt_placed hsc).calls.hasDecl ha).getD
    exact ⟨hdecl.mem_sites, hdecl⟩
  · have hends : ∀ limit, p.functionCount < limit →
        (p.evaluate obs limit .fresh seen).1 ≠ .error .tooDeep :=
      fun _ => Program.evaluate_ne_tooDeep_of_never hobs hnever
    have hends' := hends (p.functionCount + 1) (Nat.lt_succ_self _)
    refine ⟨⟨p.evaluate obs (p.functionCount + 1) .fresh seen, hends', fun limit hlimit => ?_⟩,
      Program.exists_sceneAt_eq_none hobs hends',
      fun n sc hsc => Program.length_calls_le hsc fun i _ => hnever i⟩
    obtain ⟨n, hsteps⟩ := Program.exists_steps (hends limit hlimit)
    obtain ⟨k, hsteps'⟩ := Program.exists_steps hends'
    exact hsteps.ended_unique hsteps'
  · intro limit result
    refine ⟨fun hdeep => ?_, fun hends => ?_⟩
    · obtain ⟨n, sc, hsc, hdepth, hseen⟩ := Program.exists_deep hobs.witnessed hdeep
      rw [Observer.shown_witnessed] at hseen
      have hevents : p.sightings obs limit .fresh seen = (Scene.start p .fresh).trail (n + 1) :=
        congrArg Prod.snd hseen
      obtain ⟨i, hi, hreenters⟩ :=
        Program.exists_reentersAt hsc (hdepth ▸ Nat.lt_succ_self p.functionCount)
      refine ⟨i, ?_, hreenters⟩
      rw [hevents, Scene.length_trail hsc]
      exact Nat.lt_succ_of_le hi
    · obtain ⟨n, hsteps⟩ := Program.exists_steps hends
      exact ⟨n, fun limit' hlimit => Program.evaluate_of_steps hsteps hlimit⟩

theorem Program.ReentersAt.not_nodup {p : Program} {n : Nat} (h : p.ReentersAt n) :
    ∃ sc, p.sceneAt .fresh n = some sc ∧ ¬(callSites (p.sitesAt n) sc.machine.calls).Nodup := by
  obtain ⟨sc, a, outer, hsc, -, hcalls, b, hb, hsame⟩ := h
  refine ⟨sc, hsc, fun hnodup => ?_⟩
  rw [hcalls] at hnodup
  exact (List.nodup_cons.mp hnodup).1 (List.mem_map.mpr ⟨b, hb, hsame⟩)

theorem closureKept_never_reenters (n : Nat) : ¬closureKept.ReentersAt n := by
  intro h
  obtain ⟨sc, hsc, hnodup⟩ := h.not_nodup
  have hlast : (closureKept.sceneAt .fresh 17).isNone = true := by decide +kernel
  have hall : (List.range 17).all (fun i => (closureKept.sceneAt .fresh i).all fun sc =>
      decide (callSites (closureKept.sitesAt i) sc.machine.calls).Nodup) = true := by
    decide +kernel
  by_cases hn : n < 17
  · have hscene := List.all_eq_true.mp hall n (List.mem_range.mpr hn)
    rw [hsc] at hscene
    exact hnodup (of_decide_eq_true hscene)
  · have hnone : closureKept.sceneAt .fresh n = none :=
      Scene.after_of_le (Option.isNone_iff_eq_none.mp hlast) (Nat.le_of_not_lt hn)
    cases hsc.symm.trans hnone

/-- Whether an evaluation met its limit. -/
def metLimit : Except (Stop ε) Value → Bool
  | .error .tooDeep => true
  | _ => false

theorem eq_tooDeep_of_metLimit {outcome : Except (Stop ε) Value} (h : metLimit outcome = true) :
    outcome = .error .tooDeep := by
  rcases outcome with why | v
  · cases why with
    | tooDeep => rfl
    | _ => cases h
  · cases h

/-- A program with three declarations, of which one is nested, re-enters none of them and ends; the
one that calls itself for ever is found out within two calls. -/
theorem closureKept_ends_endless_reenters :
    ((∀ n, ¬closureKept.ReentersAt n) ∧ closureKept.functionCount = 3 ∧
      ∃ result, result.1 ≠ .error .tooDeep ∧ ∀ limit, 3 < limit →
        closureKept.evaluate (Observer.silent (ε := Empty)) limit .fresh () = result) ∧
    endless.functionCount = 1 ∧
    (endless.evaluate (Observer.silent (ε := Empty)).witnessed 2 .fresh ((), [])).1 =
      .error .tooDeep ∧
    ∃ n < (endless.sightings (Observer.silent (ε := Empty)) 2 .fresh ()).length,
      endless.ReentersAt n := by
  have hobs : (Observer.silent (ε := Empty)).LooksOn := ⟨fun _ _ _ => rfl, fun _ _ _ => rfl⟩
  have hcount : closureKept.functionCount = 3 := by decide +kernel
  have hcount' : endless.functionCount = 1 := by decide +kernel
  refine ⟨⟨closureKept_never_reenters, hcount, ?_⟩, hcount', ?_⟩
  · rw [← hcount]
    exact ((only_reentry_runs_forever closureKept hobs ()).2.1 closureKept_never_reenters).1
  · have hdeep : (endless.evaluate (Observer.silent (ε := Empty)).witnessed 2 .fresh ((), [])).1 =
        .error .tooDeep := eq_tooDeep_of_metLimit (by decide +kernel)
    have hreenters := (only_reentry_runs_forever endless hobs ()).2.2.1
    rw [hcount'] at hreenters
    exact ⟨hdeep, hreenters hdeep⟩

end Stepwise
