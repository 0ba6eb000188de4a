/-
Traces of different contexts are kept apart.

Contexts are numbered in the order in which they are made, and the background is number 0.  Which of
them begin a trace, and which is derived from which, can be told from the operations alone, without
a journal: a `Family` is that record, and `Family.nearest?` is the first context on the way to the
background that begins a trace.  `traces_stay_apart` says that a context shows the names that were
recorded through contexts with the same nearest one, and no others.

A report puts the entries of a trace in the order of time, in place.  As the clock does not go back,
they are in that order already (`Journal.Ordered`), and entries of one time keep their places.  So a
report leaves the journal as it was (`Journal.report_of_ordered`).
-/
import Stepwise.Proofs.Bookkeeping

namespace Stepwise

/-! ## Reports leave the journal as it was -/

/-- The entries are in the order of time, and none is later than now. -/
structure Trace.Ordered (t : Trace) (now : Nat) : Prop where
  sorted : t.entries.toList.Pairwise fun a b => a.elapsed ≤ b.elapsed
  past : ∀ e ∈ t.entries.toList, e.elapsed ≤ now - t.start

theorem Trace.Ordered.push {t : Trace} {now : Nat} (h : t.Ordered now) (name : Text) :
    Trace.Ordered { t with entries := t.entries.push { name, elapsed := now - t.start } } now := by
  constructor
  · rw [Array.toList_push, List.pairwise_append]
    refine ⟨h.sorted, List.pairwise_singleton _ _, fun e he e' he' => ?_⟩
    rw [List.mem_singleton.mp he']
    exact h.past e he
  · intro e he
    rw [Array.toList_push, List.mem_append] at he
    rcases he with he | he
    · exact h.past e he
    · exact Nat.le_of_eq (congrArg TraceEntry.elapsed (List.mem_singleton.mp he))

namespace Journal

def Ordered (j : Journal) : Prop :=
  ∀ (i : TraceId) (t : Trace), j.traces[i]? = some t → t.Ordered j.clock

section

variable {j : Journal} (h : j.Ordered)
include h

theorem Ordered.advance (nanoseconds : Nat) : (j.advance nanoseconds).Ordered := by
  intro i t ht
  obtain ⟨hsorted, hpast⟩ := h i t ht
  refine ⟨hsorted, fun e he => ?_⟩
  have hbefore := hpast e he
  show e.elapsed ≤ j.clock + nanoseconds - t.start
  omega

theorem Ordered.beginTrace (parent : Context) : (j.beginTrace parent).2.Ordered := by
  intro i t ht
  have ht : (j.traces.push { start := j.clock })[i]? = some t := ht
  rw [Array.getElem?_push] at ht
  by_cases hi : i = j.traces.size
  · rw [if_pos hi] at ht
    cases ht
    exact ⟨.nil, fun e he => absurd he List.not_mem_nil⟩
  · rw [if_neg hi] at ht
    exact h i t ht

theorem Ordered.record (c : Context) (name : Text) : (j.record c name).Ordered := by
  unfold Journal.record
  cases c.trace? with
  | none => exact h
  | some i =>
    intro k t ht
    simp only [Array.getElem?_modify] at ht
    by_cases hk : i = k
    · rw [if_pos hk] at ht
      obtain ⟨t', ht', rfl⟩ := Option.map_eq_some_iff.mp ht
      exact (h k t' ht').push name
    · rw [if_neg hk] at ht
      exact h k t ht

/-- Putting a trace in order changes nothing. -/
theorem modify_inOrder (i : TraceId) :
    (j.traces.modify i fun t => { t with entries := (inOrder t.entries.toList).toArray }) =
      j.traces := by
  apply Array.ext_getElem?
  intro k
  rw [Array.getElem?_modify]
  by_cases hk : i = k
  · rw [if_pos hk]
    cases ht : j.traces[k]? with
    | none => rfl
    | some t =>
      have hsorted : inOrder t.entries.toList = t.entries.toList :=
        List.mergeSort_of_pairwise ((h k t ht).sorted.imp decide_eq_true)
      rw [Option.map_some, hsorted]
  · rw [if_neg hk]

theorem report_of_ordered (stamp : Nat → Text) (c : Context) :
    j.report stamp c = ((j.trace? c).map fun t => reportText stamp t.entries.toList, j) := by
  unfold report trace?
  cases c.trace? with
  | none => rfl
  | some i =>
    simp only [modify_inOrder h i]

end

/-! ## What other contexts show -/

theorem names?_congr (j : Journal) {c d : Context} (h : c.trace? = d.trace?) :
    j.names? c = j.names? d := by
  unfold names? trace?
  rw [h]

theorem names?_record_of_ne (j : Journal) {c d : Context} (h : c.trace? ≠ d.trace?) (name : Text) :
    (j.record d name).names? c = j.names? c := by
  unfold names? trace? record
  cases hd : d.trace? with
  | none => rfl
  | some i =>
    cases hc : c.trace? with
    | none => rfl
    | some k =>
      have hk : i ≠ k := fun hik => h (by rw [hc, hd, hik])
      simp [Array.getElem?_modify, hk]

theorem size_record (j : Journal) (c : Context) (name : Text) :
    (j.record c name).traces.size = j.traces.size := by
  unfold record
  cases c.trace? with
  | none => rfl
  | some i => exact Array.size_modify

theorem names?_beginTrace_self (j : Journal) (parent : Context) :
    (j.beginTrace parent).2.names? (j.beginTrace parent).1 = some [] := by
  simp [names?, trace?, beginTrace, Context.trace?]

theorem names?_beginTrace_of_lt (j : Journal) (parent : Context) {c : Context}
    (h : ∀ i, c.trace? = some i → i < j.traces.size) :
    (j.beginTrace parent).2.names? c = j.names? c := by
  unfold names? trace? beginTrace
  cases hc : c.trace? with
  | none => rfl
  | some i =>
    have hi : i ≠ j.traces.size := Nat.ne_of_lt (h i hc)
    simp [Array.getElem?_push, hi]

end Journal

namespace Tracing

/-! ## Operations -/

/-- What can be done with contexts, which are numbered in the order in which they are made; the
background is number 0. -/
inductive Op where
  /-- Makes a context that begins a trace. -/
  | trace (parent : Nat)
  /-- Makes a context that does not. -/
  | derive (parent : Nat)
  | record (c : Nat) (name : Text)
  | names (c : Nat)
  | report (c : Nat)
  | wait (nanoseconds : Nat)

/-- What an operation answers. -/
inductive Reply where
  | done
  | made (c : Nat)
  | names (names : Option (List Text))
  | report (text : Option Text)
deriving DecidableEq

structure State where
  contexts : Array Context := #[.background]
  journal : Journal := {}

namespace State

def context (s : State) (c : Nat) : Context := s.contexts[c]?.getD .background

/-- Carries out an operation; `stamp` is how a report shows a time. -/
def perform (stamp : Nat → Text) (s : State) : Op → Reply × State
  | .trace parent =>
    let made := s.journal.beginTrace (s.context parent)
    (.made s.contexts.size, { contexts := s.contexts.push made.1, journal := made.2 })
  | .derive parent =>
    (.made s.contexts.size,
      { s with contexts := s.contexts.push (.derived (s.context parent)) })
  | .record c name => (.done, { s with journal := s.journal.record (s.context c) name })
  | .names c => (.names (s.journal.names? (s.context c)), s)
  | .report c =>
    let reported := s.journal.report stamp (s.context c)
    (.report reported.1, { s with journal := reported.2 })
  | .wait nanoseconds => (.done, { s with journal := s.journal.advance nanoseconds })

def performAll (stamp : Nat → Text) (s : State) (ops : List Op) : State :=
  ops.foldl (fun s op => (s.perform stamp op).2) s

theorem context_push (s : State) (new : Context) (j : Journal) (c : Nat) :
    context { contexts := s.contexts.push new, journal := j } c =
      if c = s.contexts.size then new else s.context c := by
  unfold context
  rw [Array.getElem?_push]
  by_cases hc : c = s.contexts.size
  · rw [if_pos hc, if_pos hc, Option.getD_some]
  · rw [if_neg hc, if_neg hc]

theorem perform_ordered {s : State} (h : s.journal.Ordered) (stamp : Nat → Text) (op : Op) :
    (s.perform stamp op).2.journal.Ordered := by
  cases op with
  | trace parent => exact h.beginTrace (s.context parent)
  | derive parent => exact h
  | record c name => exact h.record _ name
  | names c => exact h
  | report c =>
    show (s.journal.report stamp (s.context c)).2.Ordered
    rw [Journal.report_of_ordered h]
    exact h
  | wait nanoseconds => exact h.advance nanoseconds

theorem performAll_ordered (stamp : Nat → Text) (ops : List Op) :
    ∀ s : State, s.journal.Ordered → (s.performAll stamp ops).journal.Ordered := by
  induction ops with
  | nil => exact fun s h => h
  | cons op ops ih => exact fun s h => ih _ (perform_ordered h stamp op)

/-- What a report answers, and that it changes nothing. -/
theorem perform_report {s : State} (h : s.journal.Ordered) (stamp : Nat → Text) (c : Nat) :
    s.perform stamp (.report c) =
      (.report ((s.journal.trace? (s.context c)).map fun t =>
        Journal.reportText stamp t.entries.toList), s) := by
  show (Reply.report (s.journal.report stamp (s.context c)).1,
    ({ s with journal := (s.journal.report stamp (s.context c)).2 } : State)) = _
  rw [Journal.report_of_ordered h]

end State

/-- Where a sequence of operations leads to, where there was only the background before. -/
def after (stamp : Nat → Text) (ops : List Op) : State := State.performAll stamp {} ops

theorem after_ordered (stamp : Nat → Text) (ops : List Op) :
    (after stamp ops).journal.Ordered := by
  apply State.performAll_ordered
  intro i t ht
  cases ht

/-! ## Families of contexts -/

/-- How a context was made. -/
structure Birth where
  traced : Bool
  parent : Nat

/-- The contexts other than the background, the latest first; the oldest is number 1. -/
abbrev Family := List Birth

namespace Family

/-- Whether a context began a trace. -/
def isTraced : Family → Nat → Bool
  | [], _ => false
  | b :: older, c => if c = older.length + 1 then b.traced else isTraced older c

/-- A context, the one it was derived from, and so on up to the background. -/
def lineage : Family → Nat → List Nat
  | [], c => [c]
  | b :: older, c =>
    if c = older.length + 1 then c :: lineage older b.parent else lineage older c

/-- The nearest context that began a trace: the context itself, or one that it comes from. -/
def nearest? (f : Family) (c : Nat) : Option Nat := (f.lineage c).find? f.isTraced

/-- Every context was derived from an older one. -/
def IsProper : Family → Prop
  | [] => True
  | b :: older => b.parent ≤ older.length ∧ IsProper older

theorem le_length_of_isTraced {f : Family} {c : Nat} (h : f.isTraced c = true) :
    c ≤ f.length := by
  induction f with
  | nil => cases h
  | cons b older ih =>
    by_cases hc : c = older.length + 1
    · exact Nat.le_of_eq hc
    · rw [isTraced, if_neg hc] at h
      exact Nat.le_succ_of_le (ih h)

theorem le_length_of_nearest? {f : Family} {c t : Nat} (h : f.nearest? c = some t) :
    t ≤ f.length :=
  le_length_of_isTraced (List.find?_some h)

theorem IsProper.le_of_mem_lineage {f : Family} (hf : f.IsProper) {a c : Nat}
    (ha : a ∈ f.lineage c) : a = c ∨ a ≤ f.length := by
  induction f generalizing c with
  | nil => exact .inl (List.mem_singleton.mp ha)
  | cons b older ih =>
    obtain ⟨hparent, hf⟩ := hf
    show a = c ∨ a ≤ older.length + 1
    by_cases hc : c = older.length + 1
    · rw [lineage, if_pos hc, List.mem_cons] at ha
      rcases ha with ha | ha
      · exact .inl ha
      · have hle := ih hf ha
        omega
    · rw [lineage, if_neg hc] at ha
      have hle := ih hf ha
      omega

/-- A context that is made later is in no lineage. -/
theorem IsProper.find?_lineage {older : Family} (hf : older.IsProper) (b : Birth) {c : Nat}
    (hc : c ≠ older.length + 1) :
    (older.lineage c).find? (isTraced (b :: older)) = older.nearest? c := by
  have hfilter : (older.lineage c).filter (isTraced (b :: older)) =
      (older.lineage c).filter older.isTraced := by
    apply List.filter_congr
    intro a ha
    have hle := hf.le_of_mem_lineage ha
    rw [isTraced, if_neg (by omega)]
  rw [nearest?, ← List.head?_filter, ← List.head?_filter, hfilter]

theorem IsProper.nearest?_of_ne {older : Family} (hf : older.IsProper) (b : Birth) {c : Nat}
    (hc : c ≠ older.length + 1) : nearest? (b :: older) c = older.nearest? c := by
  rw [nearest?, lineage, if_neg hc]
  exact hf.find?_lineage b hc

theorem IsProper.nearest?_self {older : Family} (hf : older.IsProper) {b : Birth}
    (hb : b.parent ≤ older.length) :
    nearest? (b :: older) (older.length + 1) =
      if b.traced then some (older.length + 1) else older.nearest? b.parent := by
  have htraced : isTraced (b :: older) (older.length + 1) = b.traced := by
    rw [isTraced, if_pos rfl]
  rw [nearest?, lineage, if_pos rfl, List.find?_cons, htraced, hf.find?_lineage b (by omega)]
  cases b.traced <;> rfl

end Family

/-! ## What the operations alone tell -/

namespace Op

def birth? : Op → Option Birth
  | trace parent => some ⟨true, parent⟩
  | derive parent => some ⟨false, parent⟩
  | _ => none

def recording? : Op → Option (Nat × Text)
  | record c name => some (c, name)
  | _ => none

/-- The context that an operation is on. -/
def context? : Op → Option Nat
  | trace c | derive c | record c _ | names c | report c => some c
  | wait _ => none

end Op

def family (ops : List Op) : Family := (ops.filterMap Op.birth?).reverse

/-- What was recorded, in order, and through which contexts. -/
def recordings (ops : List Op) : List (Nat × Text) := ops.filterMap Op.recording?

/-- Every operation is on a context that is there by then, where `made` contexts besides the
background are there at first. -/
def isProper (made : Nat) : List Op → Bool
  | [] => true
  | op :: ops =>
    op.context?.all (· ≤ made) && isProper (made + op.birth?.toList.length) ops

/-- The names that were recorded through contexts with the same nearest one as `c`. -/
def recordedWith (ops : List Op) (c : Nat) : List Text :=
  ((recordings ops).filter fun r =>
    (family ops).nearest? r.1 = (family ops).nearest? c).map Prod.snd

theorem family_concat (ops : List Op) (op : Op) :
    family (ops ++ [op]) = op.birth?.toList ++ family ops := by
  unfold family
  rw [List.filterMap_append, List.reverse_append]
  cases hop : op.birth? <;> simp [hop]

theorem family_concat_of_birth {op : Op} {b : Birth} (h : op.birth? = some b) (ops : List Op) :
    family (ops ++ [op]) = b :: family ops := by
  rw [family_concat, h]
  rfl

theorem recordings_concat (ops : List Op) (op : Op) :
    recordings (ops ++ [op]) = recordings ops ++ op.recording?.toList := by
  unfold recordings
  rw [List.filterMap_append]
  cases hop : op.recording? <;> simp [hop]

theorem recordings_concat_of_none {op : Op} (h : op.recording? = none) (ops : List Op) :
    recordings (ops ++ [op]) = recordings ops := by
  rw [recordings_concat, h]
  exact List.append_nil _

theorem Op.recording?_of_birth {op : Op} {b : Birth} (h : op.birth? = some b) :
    op.recording? = none := by
  cases op with
  | record c name => cases h
  | trace | derive | names | report | wait => rfl

/-! ## The names that are kept -/

/-- The contexts share traces as the family says, and the traces hold what was recorded. -/
structure Kept (ops : List Op) (s : State) : Prop where
  size : s.contexts.size = (family ops).length + 1
  proper : (family ops).IsProper
  inBounds : ∀ c i, (s.context c).trace? = some i → i < s.journal.traces.size
  same : ∀ c d, (s.context c).trace? = (s.context d).trace? ↔
    (family ops).nearest? c = (family ops).nearest? d
  known : ∀ r ∈ recordings ops, r.1 ≤ (family ops).length
  names : ∀ c, s.journal.names? (s.context c) =
    ((family ops).nearest? c).map fun _ => recordedWith ops c

theorem context_start (c : Nat) : ({} : State).context c = .background := by
  cases c with
  | zero => rfl
  | succ c => simp [State.context]

theorem kept_start : Kept [] {} where
  size := rfl
  proper := trivial
  inBounds c i hi := by
    rw [context_start] at hi
    cases hi
  same c d := by
    rw [context_start, context_start]
    exact ⟨fun _ => rfl, fun _ => rfl⟩
  known r hr := absurd hr List.not_mem_nil
  names c := by
    rw [context_start]
    rfl

namespace Kept

variable {ops : List Op} {s : State} (h : Kept ops s)
include h

/-- An operation that makes no context and records nothing leaves the traces as they are. -/
theorem silent {op : Op} (hbirth : op.birth? = none) (hrecording : op.recording? = none)
    {j : Journal} (hj : j.traces = s.journal.traces) :
    Kept (ops ++ [op]) { s with journal := j } := by
  have hfamily : family (ops ++ [op]) = family ops := by
    rw [family_concat, hbirth]
    rfl
  have hrecordings := recordings_concat_of_none hrecording ops
  have hnames : ∀ c, j.names? c = s.journal.names? c := by
    intro c
    unfold Journal.names? Journal.trace?
    rw [hj]
  constructor
  · rw [hfamily]
    exact h.size
  · rw [hfamily]
    exact h.proper
  · intro c i hi
    rw [hj]
    exact h.inBounds c i hi
  · rw [hfamily]
    exact h.same
  · rw [hfamily, hrecordings]
    exact h.known
  · intro c
    unfold recordedWith
    rw [hfamily, hrecordings]
    exact (hnames _).trans (h.names c)

theorem record {c : Nat} (hc : c ≤ (family ops).length) (name : Text) :
    Kept (ops ++ [.record c name])
      { s with journal := s.journal.record (s.context c) name } := by
  have hfamily : family (ops ++ [.record c name]) = family ops := family_concat ops _
  have hrecordings : recordings (ops ++ [.record c name]) = recordings ops ++ [(c, name)] :=
    recordings_concat ops _
  constructor
  · rw [hfamily]
    exact h.size
  · rw [hfamily]
    exact h.proper
  · intro d i hi
    rw [Journal.size_record]
    exact h.inBounds d i hi
  · rw [hfamily]
    exact h.same
  · intro r hr
    rw [hrecordings, List.mem_append] at hr
    rw [hfamily]
    rcases hr with hr | hr
    · exact h.known r hr
    · rw [List.mem_singleton.mp hr]
      exact hc
  · intro d
    show (s.journal.record (s.context c) name).names? (s.context d) = _
    unfold recordedWith
    rw [hfamily, hrecordings, List.filter_append, List.map_append]
    -- The name goes to the contexts of one trace, which are those of one nearest context.
    by_cases hd : (s.context d).trace? = (s.context c).trace?
    · have hnearest := (h.same d c).mp hd
      rw [Journal.names?_congr _ hd, Journal.names?_record, ← Journal.names?_congr _ hd,
        h.names d, Option.map_map]
      simp [hnearest, recordedWith, Function.comp_def]
    · have hnearest : (family ops).nearest? c ≠ (family ops).nearest? d :=
        fun heq => hd ((h.same d c).mpr heq.symm)
      rw [Journal.names?_record_of_ne _ hd, h.names d]
      simp [hnearest, recordedWith]

section

variable {op : Op} {b : Birth} (hbirth : op.birth? = some b)
include hbirth

/-- What was recorded so far, seen from a family with one context more. -/
theorem recordedWith_made (c : Nat) :
    recordedWith (ops ++ [op]) c = ((recordings ops).filter fun r =>
      (family ops).nearest? r.1 = Family.nearest? (b :: family ops) c).map Prod.snd := by
  unfold recordedWith
  rw [family_concat_of_birth hbirth, recordings_concat_of_none (Op.recording?_of_birth hbirth)]
  congr 1
  apply List.filter_congr
  intro r hr
  have hr := h.known r hr
  rw [h.proper.nearest?_of_ne b (by omega)]

/-- A context is made that shares a trace with just those that have the same nearest one, and the
other contexts show what they did. -/
theorem made (hparent : b.parent ≤ (family ops).length) {new : Context} {j : Journal}
    (hsize : s.journal.traces.size ≤ j.traces.size)
    (hinBounds : ∀ i, new.trace? = some i → i < j.traces.size)
    (hsame : ∀ d, new.trace? = (s.context d).trace? ↔
      Family.nearest? (b :: family ops) ((family ops).length + 1) = (family ops).nearest? d)
    (hothers : ∀ d, j.names? (s.context d) = s.journal.names? (s.context d))
    (hnames : j.names? new =
      (Family.nearest? (b :: family ops) ((family ops).length + 1)).map fun _ =>
        recordedWith (ops ++ [op]) ((family ops).length + 1)) :
    Kept (ops ++ [op]) { contexts := s.contexts.push new, journal := j } := by
  have hfamily := family_concat_of_birth hbirth ops
  constructor
  · rw [hfamily, Array.size_push, h.size]
    rfl
  · rw [hfamily]
    exact ⟨hparent, h.proper⟩
  · intro c i hi
    rw [State.context_push] at hi
    by_cases hc : c = s.contexts.size
    · rw [if_pos hc] at hi
      exact hinBounds i hi
    · rw [if_neg hc] at hi
      exact Nat.lt_of_lt_of_le (h.inBounds c i hi) hsize
  · intro c d
    rw [State.context_push, State.context_push, h.size, hfamily]
    by_cases hc : c = (family ops).length + 1
    · by_cases hd : d = (family ops).length + 1
      · rw [hc, hd]
        exact ⟨fun _ => rfl, fun _ => rfl⟩
      · rw [if_pos hc, if_neg hd, hc, h.proper.nearest?_of_ne b hd]
        exact hsame d
    · by_cases hd : d = (family ops).length + 1
      · rw [if_neg hc, if_pos hd, hd, h.proper.nearest?_of_ne b hc, eq_comm, hsame c, eq_comm]
      · rw [if_neg hc, if_neg hd, h.proper.nearest?_of_ne b hc, h.proper.nearest?_of_ne b hd]
        exact h.same c d
  · intro r hr
    rw [recordings_concat_of_none (Op.recording?_of_birth hbirth)] at hr
    rw [hfamily]
    exact Nat.le_succ_of_le (h.known r hr)
  · intro c
    rw [State.context_push, h.size, hfamily]
    by_cases hc : c = (family ops).length + 1
    · rw [if_pos hc, hc]
      exact hnames
    · rw [if_neg hc, h.recordedWith_made hbirth, h.proper.nearest?_of_ne b hc]
      exact (hothers c).trans (h.names c)

end

theorem trace {parent : Nat} (hparent : parent ≤ (family ops).length) :
    Kept (ops ++ [.trace parent])
      { contexts := s.contexts.push (s.journal.beginTrace (s.context parent)).1
        journal := (s.journal.beginTrace (s.context parent)).2 } := by
  have hnearest : Family.nearest? (⟨true, parent⟩ :: family ops) ((family ops).length + 1) =
      some ((family ops).length + 1) := h.proper.nearest?_self hparent
  -- The new context is nearest to no other, as its trace is the trace of no other.
  have hfresh : ∀ c, (family ops).nearest? c ≠ some ((family ops).length + 1) := by
    intro c hc
    have hle := Family.le_length_of_nearest? hc
    omega
  have hsize : (s.journal.beginTrace (s.context parent)).2.traces.size =
      s.journal.traces.size + 1 := Array.size_push ..
  refine h.made rfl hparent ?_ ?_ ?_ ?_ ?_
  · omega
  · intro i hi
    rw [← Option.some.inj hi, hsize]
    exact Nat.lt_succ_self _
  · intro d
    rw [hnearest]
    constructor
    · intro hd
      exact absurd (h.inBounds d _ hd.symm) (Nat.lt_irrefl _)
    · intro hd
      exact absurd hd.symm (hfresh d)
  · intro d
    exact Journal.names?_beginTrace_of_lt _ _ (h.inBounds d)
  · rw [Journal.names?_beginTrace_self, h.recordedWith_made (b := ⟨true, parent⟩) rfl, hnearest]
    simp [hfresh]

theorem derive {parent : Nat} (hparent : parent ≤ (family ops).length) :
    Kept (ops ++ [.derive parent])
      { s with contexts := s.contexts.push (.derived (s.context parent)) } := by
  have hnearest : Family.nearest? (⟨false, parent⟩ :: family ops) ((family ops).length + 1) =
      (family ops).nearest? parent := h.proper.nearest?_self hparent
  refine h.made rfl hparent ?_ ?_ ?_ ?_ ?_
  · exact Nat.le_refl _
  · exact h.inBounds parent
  · intro d
    rw [hnearest]
    exact h.same parent d
  · exact fun d => rfl
  · rw [h.recordedWith_made (b := ⟨false, parent⟩) rfl, hnearest]
    exact h.names parent

theorem perform (hordered : s.journal.Ordered) (stamp : Nat → Text) {op : Op}
    (hop : op.context?.all (· ≤ (family ops).length) = true) :
    Kept (ops ++ [op]) (s.perform stamp op).2 := by
  have hcontext : ∀ c, op.context? = some c → c ≤ (family ops).length := by
    intro c hc
    rw [hc] at hop
    exact of_decide_eq_true hop
  cases op with
  | trace parent => exact h.trace (hcontext parent rfl)
  | derive parent => exact h.derive (hcontext parent rfl)
  | record c name => exact h.record (hcontext c rfl) name
  | names c => exact h.silent rfl rfl rfl
  | report c =>
    rw [State.perform_report hordered]
    exact h.silent rfl rfl rfl
  | wait nanoseconds => exact h.silent rfl rfl rfl

theorem performAll (hordered : s.journal.Ordered) (stamp : Nat → Text) {rest : List Op}
    (hrest : isProper (family ops).length rest = true) :
    Kept (ops ++ rest) (s.performAll stamp rest) := by
  -- By induction on what is still to be done; what has been done is part of the invariant.
  induction rest generalizing ops s with
  | nil =>
    rw [List.append_nil]
    exact h
  | cons op rest ih =>
    rw [isProper, Bool.and_eq_true] at hrest
    have hlength : (family (ops ++ [op])).length =
        (family ops).length + op.birth?.toList.length := by
      rw [family_concat, List.length_append, Nat.add_comm]
    have hkept := ih (h.perform hordered stamp hrest.1) (State.perform_ordered hordered stamp op)
      (hlength ▸ hrest.2)
    rw [List.append_assoc] at hkept
    exact hkept

end Kept

theorem after_kept (stamp : Nat → Text) {ops : List Op} (hops : isProper 0 ops = true) :
    Kept ops (after stamp ops) := by
  have hstart : ({} : State).journal.Ordered := after_ordered stamp []
  exact kept_start.performAll hstart stamp hops

/-! ## Nothing leaks -/

theorem Family.nearest?_eq_none_iff {f : Family} {c : Nat} :
    f.nearest? c = none ↔ ∀ a ∈ f.lineage c, f.isTraced a = false := by
  unfold nearest?
  rw [List.find?_eq_none]
  simp only [Bool.not_eq_true]

theorem Family.exists_nearest? {f : Family} {c : Nat} (h : ∃ a ∈ f.lineage c, f.isTraced a = true) :
    ∃ t, f.nearest? c = some t :=
  Option.isSome_iff_exists.mp (List.find?_isSome.mpr h)

theorem after_report (stamp : Nat → Text) (before later : List Op) (c : Nat) :
    after stamp (before ++ .report c :: later) = after stamp (before ++ later) := by
  unfold after State.performAll
  rw [List.foldl_append, List.foldl_append, List.foldl_cons]
  have hreport := State.perform_report (after_ordered stamp before) stamp c
  unfold after State.performAll at hreport
  rw [hreport]

/-- A report on a context lists the names that the context shows, each in a line with its time. -/
theorem Kept.report {ops : List Op} {s : State} (h : Kept ops s) (hordered : s.journal.Ordered)
    (stamp : Nat → Text) {c t : Nat} (ht : (family ops).nearest? c = some t) :
    ∃ entries : List TraceEntry, entries.map TraceEntry.name = recordedWith ops c ∧
      (entries.Pairwise fun a b => a.elapsed ≤ b.elapsed) ∧
      (s.perform stamp (.report c)).1 = .report (some (Text.ofString "====Trace====\n" ++
        entries.flatMap fun e => ("\t" ++ stamp e.elapsed ++ ": " ++ e.name ++ "\n" : Text))) := by
  have hnames := h.names c
  rw [ht] at hnames
  obtain ⟨trace, htrace, hentries⟩ := Option.map_eq_some_iff.mp hnames
  obtain ⟨i, -, hi⟩ := Option.bind_eq_some_iff.mp htrace
  refine ⟨trace.entries.toList, hentries, (hordered i trace hi).sorted, ?_⟩
  rw [State.perform_report hordered, htrace]
  rfl

/-- Whatever is done with contexts, each on those that are there by then: a context shows no names
exactly if neither it nor any that it comes from began a trace.  Otherwise it shows the names that
were recorded through contexts with the same nearest one, in the order of recording.  A report on it
is then a heading and a line for each of these names, in this order, at times that do not go back;
where no names are shown there is no report.  And after a report all is as if there had been
none. -/
theorem traces_stay_apart (stamp : Nat → Text) {ops : List Op} (hops : isProper 0 ops = true)
    (c : Nat) :
    let s := after stamp ops
    let f := family ops
    ((s.perform stamp (.names c)).1 = .names none ↔ ∀ a ∈ f.lineage c, f.isTraced a = false) ∧
    ((∃ a ∈ f.lineage c, f.isTraced a = true) →
      (s.perform stamp (.names c)).1 = .names (some (recordedWith ops c)) ∧
      ∃ entries : List TraceEntry, entries.map TraceEntry.name = recordedWith ops c ∧
        (entries.Pairwise fun a b => a.elapsed ≤ b.elapsed) ∧
        (s.perform stamp (.report c)).1 = .report (some (Text.ofString "====Trace====\n" ++
          entries.flatMap fun e => ("\t" ++ stamp e.elapsed ++ ": " ++ e.name ++ "\n" : Text)))) ∧
    ((∀ a ∈ f.lineage c, f.isTraced a = false) →
      (s.perform stamp (.report c)).1 = .report none) ∧
    ∀ before later, ops = before ++ .report c :: later → s = after stamp (before ++ later) := by
  have h := after_kept stamp hops
  have hordered := after_ordered stamp ops
  have hnames : ((after stamp ops).perform stamp (.names c)).1 =
      .names (((family ops).nearest? c).map fun _ => recordedWith ops c) :=
    congrArg Reply.names (h.names c)
  refine ⟨?_, fun htraced => ?_, fun huntraced => ?_, fun before later heq => ?_⟩
  · rw [hnames, ← Family.nearest?_eq_none_iff]
    simp
  · obtain ⟨t, ht⟩ := Family.exists_nearest? htraced
    rw [hnames, ht]
    exact ⟨rfl, h.report hordered stamp ht⟩
  · have hnone := h.names c
    rw [Family.nearest?_eq_none_iff.mpr huntraced] at hnone
    rw [State.perform_report hordered, Option.map_eq_none_iff.mp hnone]
    rfl
  · rw [heq]
    exact after_report stamp before later c

/-- Contexts 1 and 3 begin traces, 3 within that of 1; 2 is derived from 1 and 4 from 3. -/
def nested : List Op :=
  [.trace 0, .derive 1, .trace 2, .derive 3, .record 2 "a", .wait 1500, .record 4 "b", .report 4,
    .record 0 "c", .record 1 "d", .report 2, .wait 1, .record 3 "e"]

/-- What is recorded through 3 and 4 is not shown by 1 and 2, nor the other way round; what is
recorded through the background is lost; a report lists two names; and the first one might as well
not have been made. -/
theorem nested_stay_apart :
    let s := after Journal.microseconds nested
    isProper 0 nested = true ∧
    (s.perform Journal.microseconds (.names 0)).1 = .names none ∧
    (s.perform Journal.microseconds (.report 0)).1 = .report none ∧
    (s.perform Journal.microseconds (.names 2)).1 = .names (some ["a", "d"]) ∧
    (s.perform Journal.microseconds (.names 4)).1 = .names (some ["b", "e"]) ∧
    (∃ first second, first ≤ second ∧
      (s.perform Journal.microseconds (.report 4)).1 = .report (some
        (Text.ofString "====Trace====\n\t" ++ Journal.microseconds first ++ ": b\n\t" ++
          Journal.microseconds second ++ ": e\n"))) ∧
    s = after Journal.microseconds (nested.eraseIdx 7) := by
  have hproper : isProper 0 nested = true := by decide
  obtain ⟨hnone, -, hunreported, -⟩ := traces_stay_apart Journal.microseconds hproper 0
  obtain ⟨-, houter, -, -⟩ := traces_stay_apart Journal.microseconds hproper 2
  obtain ⟨-, hinner, -, hreport⟩ := traces_stay_apart Journal.microseconds hproper 4
  have houterNames : recordedWith nested 2 = (["a", "d"] : List Text) := by decide
  have hinnerNames : recordedWith nested 4 = (["b", "e"] : List Text) := by decide
  obtain ⟨hinner, entries, hentries, hsorted, htext⟩ := hinner ⟨3, by decide, by decide⟩
  rw [hinnerNames] at hinner hentries
  refine ⟨hproper, hnone.mpr (by decide), hunreported (by decide), ?_, hinner, ?_,
    hreport (nested.take 7) (nested.drop 8) rfl⟩
  · rw [← houterNames]
    exact (houter ⟨1, by decide, by decide⟩).1
  · obtain ⟨first, rest, rfl, hfirst, hrest⟩ := List.map_eq_cons_iff.mp hentries
    obtain ⟨second, rest, rfl, hsecond, hrest⟩ := List.map_eq_cons_iff.mp hrest
    cases List.map_eq_nil_iff.mp hrest
    refine ⟨first.elapsed, second.elapsed, List.rel_of_pairwise_cons hsorted (.head _), ?_⟩
    rw [htext, List.flatMap_cons, List.flatMap_cons, List.flatMap_nil, hfirst, hsecond]
    simp only [List.append_assoc, List.append_nil]
    rfl

end Tracing
end Stepwise
