/-
The modes of the command agree.

The command executes a program in a single run, or walks through it, or walks through it and waits
for a line of input after each event.  The run and the walk go through the same scenes, so they come
out the same, but for the words put before an error of the run; and each record that is written
shows the event of a scene (`stepThrough_of_meets`).  Waiting makes no difference as long as there
are lines (`stepThrough_supplied`).  The last event takes a line too: where lines are as many as
events the walk ends, and where there is one less it is given up (`stepThrough_closed`).
-/
import Stepwise.CommandLine.Run
import Stepwise.Proofs.RoundTrip
import Stepwise.Proofs.Stopping

namespace Stepwise

/-! ## Single runs -/

theorem Execution.watch_passes (context : Context) (journal : Journal)
    (events : List Observer.Sighting) :
    (watch context).Passes { signal := .quiet, journal } events := by
  induction events generalizing journal with
  | nil => trivial
  | cons s events ih => exact ⟨rfl, ih (journal.record context s.event.kind.name)⟩

/-- Unless it is told to stop, an execution is shown all events and ends as the last scene does. -/
theorem Program.execute_of_last {p : Program} {limit k : Nat} {last : Scene} {memory : Memory}
    {outcome : Except (Stop Interrupt) Value} (hlast : p.sceneAt .fresh k = some last)
    (hend : last.machine.resume last.memory = (memory, .ended outcome)) (hlimit : k + 1 < limit)
    (context : Context) (journal : Journal) :
    (p.execute limit .quiet context journal).outcome = outcome.mapError .stopped ∧
      p.sightings (Execution.watch context) limit .fresh { signal := .quiet, journal } =
        (Scene.start p .fresh).trail (k + 1) := by
  have hpassive := Execution.watch_passive context
  have hpasses := Execution.watch_passes context journal ((Scene.start p .fresh).trail (k + 1))
  refine ⟨?_, ?_⟩
  · rw [(p.execute_eq limit .quiet context journal).2,
      (Program.evaluate_of_last hpassive hpasses hlast hend hlimit).1]
  · have hwitnessed : (Execution.watch context).witnessed.Passive :=
      fun ev s seen => hpassive ev s seen.1
    have hpasses' : (Execution.watch context).witnessed.Passes ({ signal := .quiet, journal }, [])
        ((Scene.start p .fresh).trail (k + 1)) :=
      (Execution.watch context).passes_witnessed.mpr hpasses
    rw [Program.sightings, (Program.evaluate_of_last hwitnessed hpasses' hlast hend hlimit).1,
      Observer.shown_witnessed]
    rfl

namespace CommandLine

open Observer (Sighting)

/-! ## Lines -/

/-- The lines of an input, without the newlines that end them; the last one need not end so, if it
is not empty. -/
inductive Splits : Text → List Text → Prop where
  | nil : Splits [] []
  | last {line : Text} : line ≠ [] → Text.newline ∉ line → Splits line [line]
  | cons {line input : Text} {lines : List Text} : Text.newline ∉ line → Splits input lines →
      Splits (line ++ Text.newline :: input) (line :: lines)

theorem exists_splits (input : Text) : ∃ lines, Splits input lines := by
  induction input with
  | nil => exact ⟨[], .nil⟩
  | cons b input ih =>
    obtain ⟨lines, h⟩ := ih
    by_cases hb : b = Text.newline
    · subst hb
      exact ⟨[] :: lines, .cons List.not_mem_nil h⟩
    · have hfront : ∀ {line}, Text.newline ∉ line → Text.newline ∉ b :: line :=
        fun hline => List.not_mem_cons_of_ne_of_not_mem (Ne.symm hb) hline
      cases h with
      | nil => exact ⟨[[b]], .last (List.cons_ne_nil _ _) (hfront List.not_mem_nil)⟩
      | last hne hline => exact ⟨[b :: input], .last (List.cons_ne_nil _ _) (hfront hline)⟩
      | @cons line _ lines hline h => exact ⟨(b :: line) :: lines, .cons (hfront hline) h⟩

theorem countLines_append {line : Text} (hline : Text.newline ∉ line) (lines : Nat) {length : Nat}
    (hshort : length + line.length < lineLimit) (rest : Text) :
    countLines lines length (line ++ rest) = countLines lines (length + line.length) rest := by
  induction line generalizing length with
  | nil => rfl
  | cons b line ih =>
    have hb := List.ne_of_not_mem_cons hline
    have hline := List.not_mem_of_not_mem_cons hline
    rw [List.length_cons] at hshort ⊢
    have hlt : length + 1 ≠ lineLimit := by omega
    rw [List.cons_append, countLines, if_neg (Ne.symm hb), if_neg hlt, ih hline (by omega)]
    congr 1
    omega

/-- All lines are counted if none is too long. -/
theorem countLines_of_splits {input : Text} {lines : List Text} (h : Splits input lines)
    (hshort : ∀ line ∈ lines, line.length < lineLimit) (counted : Nat) :
    countLines counted 0 input = counted + lines.length := by
  induction h generalizing counted with
  | nil => rfl
  | @last line hne hline =>
    have hlength : line.length < lineLimit := hshort line List.mem_cons_self
    have hread : countLines counted 0 (line ++ []) = countLines counted (0 + line.length) [] :=
      countLines_append hline counted (by omega) []
    rw [List.append_nil, countLines, Nat.zero_add,
      if_neg (Nat.ne_of_gt (List.length_pos_iff.mpr hne))] at hread
    exact hread
  | @cons line input lines hline _ ih =>
    have hlength : line.length < lineLimit := hshort line List.mem_cons_self
    rw [countLines_append hline counted (by omega), countLines, if_pos rfl,
      ih (fun l hl => hshort l (List.mem_cons_of_mem line hl)), List.length_cons]
    omega

/-! ## Records -/

/-- The record of an event, the `number`-th one. -/
def recordOf (number : Nat) (s : Sighting) : Text :=
  Text.padded 3 number ++ " " ++ s.text ++ "\n"

/-- The records of events that come after `steps` others. -/
def recordsAfter (steps : Nat) (events : List Sighting) : List Text :=
  events.mapIdx fun i s => recordOf (steps + i + 1) s

theorem recordsAfter_cons (steps : Nat) (s : Sighting) (events : List Sighting) :
    recordsAfter steps (s :: events) =
      recordOf (steps + 1) s :: recordsAfter (steps + 1) events := by
  have hnumber : ∀ i, steps + (i + 1) + 1 = steps + 1 + i + 1 := by omega
  simp [recordsAfter, List.mapIdx_cons, hnumber]

section Walking

variable {w : Walk} {sc last : Scene} {outcome : Except (Stop Interrupt) Value} {memory : Memory}

theorem steps_of_meets (h : w.Meets sc) : w.next.2.steps = w.steps + 1 := by
  have hentered := w.entered_next
  rw [h.answer] at hentered
  exact hentered.steps

theorem record_of_meets (h : w.Meets sc) :
    record w.next.2 sc.machine.event = recordOf (w.steps + 1) sc.sighting := by
  obtain ⟨memory, hahead, hstore⟩ := h
  obtain ⟨-, -, hmemory⟩ := Walk.next_of_parked hahead
  have hnext : w.next.2.memory.store = sc.memory.store := hmemory.trans hstore
  rw [record, steps_of_meets ⟨memory, hahead, hstore⟩, hnext]
  rfl

/-- One event is written, and then a line is waited for. -/
theorem stepThrough_of_meets (h : w.Meets sc) (limit : Nat) (records : Array Text) :
    let written := records.push (recordOf (w.steps + 1) sc.sighting)
    stepThrough (limit + 1) none w records = stepThrough limit none w.next.2 written ∧
    stepThrough (limit + 1) (some 0) w records = abandoned w.next.2 .inputClosed written ∧
    ∀ m, stepThrough (limit + 1) (some (m + 1)) w records =
      stepThrough limit (some m) w.next.2 written := by
  have hrecord := record_of_meets h
  obtain ⟨memory, hahead, -⟩ := h
  have hevent := (Walk.next_of_parked hahead).1
  refine ⟨?_, ?_, fun m => ?_⟩ <;>
  · rw [stepThrough, ← Prod.eta w.next, hevent]
    simp only [hrecord]

theorem stepThrough_of_ended (h : w.Ended outcome) (limit : Nat) (lines : Option Nat)
    (records : Array Text) :
    stepThrough (limit + 1) lines w records = ended w.next.2 records ∧
      (ended w.next.2 records).result = outcome.mapError .stopped := by
  obtain ⟨memory, hahead⟩ := h
  obtain ⟨hnone, hphase⟩ := Walk.next_of_ended hahead
  refine ⟨?_, ?_⟩
  · rw [stepThrough, ← Prod.eta w.next, hnone]
  · rw [ended, hphase]

/-- A walk that waits for nothing writes a record for each scene and ends as the last one does. -/
theorem stepThrough_to_end {n : Nat}
    (hend : last.machine.resume last.memory = (memory, .ended outcome)) (limit : Nat) :
    ∀ {w : Walk} {sc : Scene} (records : Array Text), w.Meets sc → sc.after n = some last →
      (stepThrough (limit + n + 2) none w records).result = outcome.mapError .stopped ∧
      (stepThrough (limit + n + 2) none w records).records.toList =
        records.toList ++ recordsAfter w.steps (sc.trail (n + 1)) := by
  induction n with
  | zero =>
    intro w sc records h hn
    obtain rfl : sc = last := Option.some.inj hn
    obtain ⟨hended, hresult⟩ := stepThrough_of_ended (h.ended hend) limit none
      (records.push (recordOf (w.steps + 1) sc.sighting))
    rw [(stepThrough_of_meets h (limit + 1) records).1, hended]
    refine ⟨hresult, ?_⟩
    rw [Scene.trail_one, recordsAfter_cons]
    exact Array.toList_push
  | succ n ih =>
    intro w sc records h hn
    obtain ⟨next, hnext, hn⟩ := Option.bind_eq_some_iff.mp hn
    have hrest := ih (records.push (recordOf (w.steps + 1) sc.sighting)) (h.next hnext) hn
    rw [steps_of_meets h, Array.toList_push, List.append_assoc] at hrest
    have hlimit : limit + (n + 1) + 2 = limit + n + 2 + 1 := rfl
    rw [hlimit, (stepThrough_of_meets h (limit + n + 2) records).1, Scene.trail_of_next hnext,
      recordsAfter_cons]
    exact hrest

/-- Where no event lacks a line, the lines make no difference. -/
theorem stepThrough_supplied {n : Nat}
    (hend : last.machine.resume last.memory = (memory, .ended outcome)) (limit : Nat) :
    ∀ {w : Walk} {sc : Scene} {m : Nat} (records : Array Text), w.Meets sc →
      sc.after n = some last → n < m →
      stepThrough (limit + n + 2) (some m) w records =
        stepThrough (limit + n + 2) none w records := by
  induction n with
  | zero =>
    intro w sc m records h hn hm
    obtain ⟨m, rfl⟩ := Nat.exists_eq_add_one_of_ne_zero (Nat.ne_of_gt hm)
    obtain rfl : sc = last := Option.some.inj hn
    obtain ⟨hnone, -, hsome⟩ := stepThrough_of_meets h (limit + 1) records
    rw [hnone, hsome m, (stepThrough_of_ended (h.ended hend) limit none _).1,
      (stepThrough_of_ended (h.ended hend) limit (some m) _).1]
  | succ n ih =>
    intro w sc m records h hn hm
    obtain ⟨m, rfl⟩ := Nat.exists_eq_add_one_of_ne_zero (Nat.ne_zero_of_lt hm)
    obtain ⟨next, hnext, hn⟩ := Option.bind_eq_some_iff.mp hn
    obtain ⟨hnone, -, hsome⟩ := stepThrough_of_meets h (limit + n + 2) records
    have hlimit : limit + (n + 1) + 2 = limit + n + 2 + 1 := rfl
    rw [hlimit, hnone, hsome m]
    exact ih _ (h.next hnext) hn (Nat.lt_of_succ_lt_succ hm)

/-- Where lines run out, the event that lacks one has been written, and is the last. -/
theorem stepThrough_closed {m : Nat} (limit : Nat) :
    ∀ {w : Walk} {sc sc' : Scene} {n : Nat} (records : Array Text), w.Meets sc →
      sc.after m = some sc' → m ≤ n →
      (stepThrough (limit + m + 1) (some m) w records).result = .error .inputClosed ∧
      (stepThrough (limit + m + 1) (some m) w records).records.toList =
        records.toList ++ (recordsAfter w.steps (sc.trail (n + 1))).take (m + 1) := by
  induction m with
  | zero =>
    intro w sc sc' n records h _ _
    rw [(stepThrough_of_meets h limit records).2.1, Scene.trail, recordsAfter_cons]
    exact ⟨rfl, Array.toList_push⟩
  | succ m ih =>
    intro w sc sc' n records h hm hmn
    obtain ⟨n, rfl⟩ := Nat.exists_eq_add_one_of_ne_zero (Nat.ne_zero_of_lt hmn)
    obtain ⟨next, hnext, hm⟩ := Option.bind_eq_some_iff.mp hm
    have hrest := ih (records.push (recordOf (w.steps + 1) sc.sighting)) (h.next hnext) hm
      (Nat.le_of_succ_le_succ hmn)
    rw [steps_of_meets h, Array.toList_push, List.append_assoc] at hrest
    have hlimit : limit + (m + 1) + 1 = limit + m + 1 + 1 := rfl
    rw [hlimit, (stepThrough_of_meets h (limit + m + 1) records).2.2 m, Scene.trail_of_next hnext,
      recordsAfter_cons, List.take_succ_cons]
    exact hrest

end Walking

/-! ## The agreement -/

section

variable {o : Options} {s : Setting} {text : Text} {p : Program}
  (hread : s.read o.file = .ok text) (hdecode : Program.decode text = .ok p)
include hread hdecode

theorem run_direct :
    (run { o with step := false } s).result =
      (p.execute s.limit s.signal s.context s.journal).outcome.mapError .failed := by
  simp only [run, hread, executeText, hdecode]
  rfl

theorem run_step (interactive : Bool) :
    run { o with step := true, interactive } s =
      stepThrough s.limit (if interactive then some (countLines 0 0 s.input) else none)
        (Walk.start p s.signal s.context s.journal) #[] := by
  simp only [run, hread, hdecode]
  rfl

variable (hquiet : s.signal = .quiet) {k : Nat} {last : Scene} {memory : Memory}
  {outcome : Except (Stop Interrupt) Value} (hlast : p.sceneAt .fresh k = some last)
  (hend : last.machine.resume last.memory = (memory, .ended outcome)) (hlimit : k + 1 < s.limit)
include hquiet hlast hend hlimit

theorem run_direct_of_last :
    (run { o with step := false } s).result =
      outcome.mapError fun why => .failed (.stopped why) := by
  rw [run_direct hread hdecode, hquiet,
    (Program.execute_of_last hlast hend hlimit s.context s.journal).1]
  cases outcome <;> rfl

theorem run_step_of_last :
    let stepped := run { o with step := true, interactive := false } s
    stepped.result = outcome.mapError .stopped ∧
    stepped.records.toList = recordsAfter 0 ((Scene.start p .fresh).trail (k + 1)) := by
  obtain ⟨extra, hextra⟩ : ∃ extra, s.limit = extra + k + 2 := ⟨s.limit - (k + 2), by omega⟩
  have hmeets : (Walk.start p .quiet s.context s.journal).Meets (.start p .fresh) := ⟨_, rfl, rfl⟩
  simp only
  rw [run_step hread hdecode, hquiet, hextra, if_neg Bool.false_ne_true]
  exact stepThrough_to_end hend extra #[] hmeets hlast

/-- The events that come after the lines have run out are neither written nor evaluated. -/
theorem run_interactive_of_last {lines : List Text} (hlines : Splits s.input lines)
    (hshort : ∀ line ∈ lines, line.length < lineLimit) :
    let stepped := run { o with step := true, interactive := false } s
    let prompted := run { o with step := true, interactive := true } s
    (k + 1 ≤ lines.length → prompted = stepped) ∧
    (lines.length < k + 1 → prompted.result = .error .inputClosed ∧
      prompted.records.toList = stepped.records.toList.take (lines.length + 1)) := by
  have hmeets : (Walk.start p .quiet s.context s.journal).Meets (.start p .fresh) := ⟨_, rfl, rfl⟩
  refine ⟨fun hm => ?_, fun hm => ?_⟩
  · obtain ⟨extra, hextra⟩ : ∃ extra, s.limit = extra + k + 2 := ⟨s.limit - (k + 2), by omega⟩
    rw [run_step hread hdecode, run_step hread hdecode, hquiet, hextra, if_pos rfl,
      if_neg Bool.false_ne_true, countLines_of_splits hlines hshort, Nat.zero_add]
    exact stepThrough_supplied hend extra #[] hmeets hlast hm
  · obtain ⟨sc, hsc, -⟩ := Scene.after_of_after hlast (Nat.le_of_lt_succ hm)
    obtain ⟨extra, hextra⟩ : ∃ extra, s.limit = extra + lines.length + 1 :=
      ⟨s.limit - (lines.length + 1), by omega⟩
    rw [(run_step_of_last hread hdecode hquiet hlast hend hlimit).2, run_step hread hdecode, hquiet,
      hextra, if_pos rfl, countLines_of_splits hlines hshort, Nat.zero_add]
    exact stepThrough_closed extra #[] hmeets hsc (Nat.le_of_lt_succ hm)

end

/-- Let a file hold a program whose evaluation ends, and let nothing cancel the run.  Without `step`
the command is shown the events of that evaluation and comes out as it does; with `step` it comes
out the same, and writes a record for each event.  With `interactive` it writes the records of the
events for which there are lines, and the next one.  If no event lacks a line, it is the run without
`interactive`; otherwise it gives no value, whatever the program does. -/
theorem modes_agree {o : Options} {s : Setting} {text : Text} {p : Program} {depth : Nat}
    (hread : s.read o.file = .ok text) (hdecode : Program.decode text = .ok p)
    (hquiet : s.signal = .quiet) (hends : (p.recorded depth).1 ≠ .error .tooDeep)
    (hlimit : (p.recorded depth).2.seen.2.length < s.limit) :
    let outcome := (p.recorded depth).1
    let events := (p.recorded depth).2.seen.2
    let direct := run { o with step := false } s
    let stepped := run { o with step := true, interactive := false } s
    let prompted := run { o with step := true, interactive := true } s
    (p.sightings (Execution.watch s.context) s.limit .fresh
        { signal := s.signal, journal := s.journal } = events ∧
      direct.result = outcome.mapError (fun why => .failed (.stopped why)) ∧
      stepped.result = outcome.mapError .stopped ∧
      (∀ why, (RunError.failed (.stopped why)).message =
        "failed to evaluate source file: " ++ (RunError.stopped why).message) ∧
      stepped.records.toList =
        events.mapIdx fun i e => Text.padded 3 (i + 1) ++ " " ++ e.text ++ "\n") ∧
    (∃ lines, Splits s.input lines) ∧
    ∀ lines, Splits s.input lines → (∀ line ∈ lines, line.length < lineLimit) →
      prompted.records.toList =
        stepped.records.toList.take (min events.length (lines.length + 1)) ∧
      (events.length ≤ lines.length → prompted = stepped) ∧
      (lines.length < events.length → prompted.result = .error .inputClosed) ∧
      RunError.inputClosed.message = "input closed before evaluation finished" := by
  intro outcome events direct stepped prompted
  have hpassive : (Observer.silent (ε := Interrupt)).Passive := fun _ _ _ => rfl
  have hun : (Observer.silent (ε := Interrupt)).Unstopping := fun _ _ _ => rfl
  obtain ⟨k, last, htrail, hlast, hend⟩ := Program.evaluate_last hpassive hun hends
  have hevents : events = (Scene.start p .fresh).trail (k + 1) := htrail
  have hlength : events.length = k + 1 := hevents ▸ Scene.length_trail hlast
  have hlimit : k + 1 < s.limit := hlength ▸ hlimit
  obtain ⟨hresult, hrecords⟩ := run_step_of_last hread hdecode hquiet hlast hend hlimit
  rw [← hevents] at hrecords
  refine ⟨⟨?_, ?_, hresult, fun _ => rfl, ?_⟩, exists_splits s.input, fun lines hlines hshort => ?_⟩
  · rw [hquiet, hevents]
    exact (Program.execute_of_last hlast hend hlimit s.context s.journal).2
  · exact run_direct_of_last hread hdecode hquiet hlast hend hlimit
  · simp only [recordsAfter, Nat.zero_add] at hrecords
    exact hrecords
  · obtain ⟨hsupplied, hclosed⟩ :=
      run_interactive_of_last hread hdecode hquiet hlast hend hlimit hlines hshort
    rw [← hlength] at hsupplied hclosed
    refine ⟨?_, hsupplied, fun hm => (hclosed hm).1, rfl⟩
    rcases Nat.lt_or_ge lines.length events.length with hm | hm
    · rw [Nat.min_eq_right hm]
      exact (hclosed hm).2
    · have hwritten : stepped.records.toList.length = events.length :=
        hrecords ▸ List.length_mapIdx
      have hsame : prompted = stepped := hsupplied hm
      rw [hsame, Nat.min_eq_left (Nat.le_succ_of_le hm), ← hwritten, List.take_length]

/-- A file that declares a function, where the second line of input is not ended. -/
def declaring : Setting where
  read := fun _ =>
    .ok (Outlandish.blanks.text ++ (Outlandish.document.text ++ Outlandish.blanks.text))
  input := Text.newline :: "q"
  limit := 10

/-- There are five events and two lines. -/
theorem declaring_modes_agree :
    (outlandish.recorded 1).2.seen.2.length = 5 ∧
    Splits declaring.input [[], "q"] ∧
    (run { step := false } declaring).result =
      (outlandish.recorded 1).1.mapError (fun why => .failed (.stopped why)) ∧
    (run { step := true } declaring).result = (outlandish.recorded 1).1.mapError .stopped ∧
    (run { step := true } declaring).records.size = 5 ∧
    (run { step := true, interactive := true } declaring).records.toList =
      (run { step := true } declaring).records.toList.take 3 ∧
    (run { step := true, interactive := true } declaring).result = .error .inputClosed := by
  have hdecode : Program.decode
      (Outlandish.blanks.text ++ (Outlandish.document.text ++ Outlandish.blanks.text)) =
        .ok outlandish :=
    Program.decode_of_isFound Outlandish.document_isFound Outlandish.blanks Outlandish.blanks
  have hlength : (outlandish.recorded 1).2.seen.2.length = 5 := by decide +kernel
  have hends : (outlandish.recorded 1).1 ≠ .error .tooDeep := by
    intro h
    have hok : (outlandish.recorded 1).1.isOk = true := by decide +kernel
    rw [h] at hok
    cases hok
  have hlast : Splits "q" ["q"] := .last (by decide) (by decide)
  have hsplits : Splits declaring.input [[], "q"] := .cons List.not_mem_nil hlast
  have hshort : ∀ line ∈ [[], Text.ofString "q"], line.length < lineLimit := by decide
  have hlimit : (outlandish.recorded 1).2.seen.2.length < declaring.limit := by
    rw [hlength]
    decide
  obtain ⟨⟨-, hdirect, hstepped, -, hrecords⟩, -, hinteractive⟩ :=
    modes_agree (o := {}) (s := declaring) rfl hdecode rfl hends hlimit
  obtain ⟨htaken, -, hclosed, -⟩ := hinteractive _ hsplits hshort
  rw [hlength] at htaken hclosed
  refine ⟨hlength, hsplits, hdirect, hstepped, ?_, htaken, hclosed (by decide)⟩
  rw [← Array.length_toList, hrecords, List.length_mapIdx, hlength]

end CommandLine
end Stepwise
