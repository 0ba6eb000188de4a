/-
Statement lists are read all or nothing, in order.

`Wire.statementList` reads every element of a list, also behind one that holds no statement, and
gathers statements and errors apart.  Only then it is decided what to give back: all statements if
there is no error, and otherwise the first error and no statements.  Programs and function bodies
are read by it (`decode_eq`, `statement_of_declaration`), although by their definitions reading
stops at the first error.

`statementLists_all_or_nothing` says what that comes to, and that no statement is missing at any
depth of a program that was decoded.  This is said of the elements that are found in any text.
Those found in JSON are the elements of the array, whatever they are, if the names of the members
before it can be read.
-/
import Mathlib.Data.List.Forall2
import Stepwise.Proofs.RoundTrip

namespace Stepwise

namespace Wire

/-! ## Gathering -/

/-- What has come of the elements of a list so far. -/
structure Gathered where
  statements : List Statement := []
  errors : List DecodeError := []

namespace Gathered

def add (g : Gathered) (element : Text) : Gathered :=
  match statement element with
  | .ok s => { g with statements := g.statements ++ [s] }
  | .error e => { g with errors := g.errors ++ [e] }

def outcome (g : Gathered) : Except DecodeError (List Statement) :=
  match g.errors with
  | [] => .ok g.statements
  | e :: _ => .error e

end Gathered

/-- The statements of a program or of a function body. -/
def statementList (t : Text) : Except DecodeError (List Statement) := do
  let elements ← statementTexts t
  (elements.foldl Gathered.add {}).outcome

def functionDeclaration (t : Text) : Except DecodeError Statement := do
  let name ← token "FunctionName" t
  let parameter ← token "FunctionParameter" t
  let body ← explain (.noBody name) (get ["FunctionBody"] t)
  let statements ← statementList body.text
  let ret ← returnExpr name body.text
  let pos ← declarationPosition t
  return .function name parameter statements ret pos

/-- The first error stays the first. -/
theorem gathered_of_error {g : Gathered} {e : DecodeError} {es : List DecodeError}
    (h : g.errors = e :: es) (elements : List Text) :
    (elements.foldl Gathered.add g).outcome = .error e := by
  induction elements generalizing g es with
  | nil => simp only [List.foldl_nil, Gathered.outcome, h]
  | cons element elements ih =>
    rw [List.foldl_cons]
    cases hs : statement element with
    | ok s => exact ih (by simp only [Gathered.add, hs]; exact h)
    | error e' => exact ih (by simp only [Gathered.add, hs, h]; rfl)

theorem gathered_of_none {g : Gathered} (h : g.errors = []) (elements : List Text) :
    (elements.foldl Gathered.add g).outcome =
      (elements.mapM statement).map (g.statements ++ ·) := by
  induction elements generalizing g with
  | nil =>
    simp only [List.foldl_nil, Gathered.outcome, h, List.mapM_nil]
    exact congrArg Except.ok (List.append_nil _).symm
  | cons element elements ih =>
    rw [List.foldl_cons, List.mapM_cons]
    cases hs : statement element with
    | ok s =>
      rw [ih (by simp only [Gathered.add, hs]; exact h)]
      cases hrest : elements.mapM statement with
      | ok ss => simp [Gathered.add, hs, bind, Except.bind, pure, Except.pure, Except.map]
      | error e => rfl
    | error e =>
      have herrors : (g.add element).errors = [e] := by
        simp only [Gathered.add, hs, h]
        rfl
      exact gathered_of_error herrors elements

/-- Reading on behind an error makes no difference. -/
theorem gathered_eq_mapM (elements : List Text) :
    (elements.foldl Gathered.add {}).outcome = elements.mapM statement := by
  rw [gathered_of_none rfl]
  cases elements.mapM statement <;> rfl

theorem statementList_eq (t : Text) :
    statementList t = statementTexts t >>= fun elements => elements.mapM statement := by
  unfold statementList
  simp only [gathered_eq_mapM]

/-! ## Where lists are read -/

theorem statement_of_declaration {t v : Text} (hvariable : field "VariableDeclaration" t = none)
    (hfunction : field "FunctionDeclaration" t = some v) :
    statement t = functionDeclaration v := by
  rw [statement_of_function hvariable hfunction]
  unfold functionDeclaration outline
  simp only [statementList_eq]
  cases token "FunctionName" v with
  | error e => rfl
  | ok name =>
    cases token "FunctionParameter" v with
    | error e => rfl
    | ok parameter =>
      cases hbody : explain (.noBody name) (get ["FunctionBody"] v) with
      | error e => simp [hbody, bind, Except.bind]
      | ok body =>
        cases hlist : statementTexts body.text with
        | error e => simp [hbody, hlist, bind, Except.bind]
        | ok elements => simp [hbody, hlist, bind, Except.bind, pure, Except.pure]

/-! ## All or nothing -/

section

variable {α β ε : Type} {f : α → Except ε β}

theorem mapM_eq_ok_iff {l : List α} {l' : List β} :
    l.mapM f = .ok l' ↔ List.Forall₂ (fun a b => f a = .ok b) l l' := by
  induction l generalizing l' with
  | nil =>
    rw [List.mapM_nil, List.forall₂_nil_left_iff]
    exact ⟨fun h => (Except.ok.inj h).symm, fun h => congrArg Except.ok h.symm⟩
  | cons a l ih =>
    rw [List.mapM_cons, List.forall₂_cons_left_iff]
    constructor
    · intro h
      obtain ⟨b, hb, h⟩ := exists_of_bind_eq_ok h
      obtain ⟨rest, hrest, h⟩ := exists_of_bind_eq_ok h
      exact ⟨b, rest, hb, ih.mp hrest, (Except.ok.inj h).symm⟩
    · rintro ⟨b, rest, hb, hrest, rfl⟩
      rw [hb, ih.mpr hrest]
      rfl

theorem exists_mapM_eq_ok_iff {l : List α} :
    (∃ l', l.mapM f = .ok l') ↔ ∀ a ∈ l, ∃ b, f a = .ok b := by
  induction l with
  | nil => exact ⟨fun _ a ha => absurd ha List.not_mem_nil, fun _ => ⟨[], rfl⟩⟩
  | cons a l ih =>
    rw [List.forall_mem_cons, ← ih, List.mapM_cons]
    constructor
    · rintro ⟨l', h⟩
      obtain ⟨b, hb, h⟩ := exists_of_bind_eq_ok h
      obtain ⟨rest, hrest, -⟩ := exists_of_bind_eq_ok h
      exact ⟨⟨b, hb⟩, rest, hrest⟩
    · rintro ⟨⟨b, hb⟩, rest, hrest⟩
      rw [hb, hrest]
      exact ⟨b :: rest, rfl⟩

theorem mapM_append_of_error {before after : List α} {a : α} {e : ε}
    (hbefore : ∀ a' ∈ before, ∃ b, f a' = .ok b) (ha : f a = .error e) :
    (before ++ a :: after).mapM f = .error e := by
  induction before with
  | nil =>
    rw [List.nil_append, List.mapM_cons, ha]
    rfl
  | cons a' before ih =>
    obtain ⟨⟨b, hb⟩, hbefore⟩ := List.forall_mem_cons.mp hbefore
    rw [List.cons_append, List.mapM_cons, hb, ih hbefore]
    rfl

theorem exists_of_mapM_eq_error {l : List α} {e : ε} (h : l.mapM f = .error e) :
    ∃ before a after, l = before ++ a :: after ∧
      (∀ a' ∈ before, ∃ b, f a' = .ok b) ∧ f a = .error e := by
  induction l with
  | nil => cases h
  | cons a l ih =>
    rw [List.mapM_cons] at h
    cases ha : f a with
    | error e' =>
      rw [ha] at h
      cases h
      exact ⟨[], a, l, rfl, fun a' ha' => absurd ha' List.not_mem_nil, ha⟩
    | ok b =>
      have hrest : l.mapM f = .error e := by
        rw [ha] at h
        cases hl : l.mapM f with
        | error e' =>
          rw [hl] at h
          exact h
        | ok bs =>
          rw [hl] at h
          cases h
      obtain ⟨before, a', after, rfl, hbefore, herror⟩ := ih hrest
      exact ⟨a :: before, a', after, rfl, List.forall_mem_cons.mpr ⟨⟨b, ha⟩, hbefore⟩, herror⟩

end

theorem statementList_of_elements {t : Text} {texts : List Text}
    (h : elements "StatementList" t = .ok texts) : statementList t = texts.mapM statement := by
  rw [statementList_eq, statementTexts, h]
  rfl

theorem elements_of_statementList {t : Text} {ss : List Statement}
    (h : statementList t = .ok ss) : ∃ texts, elements "StatementList" t = .ok texts := by
  rw [statementList_eq] at h
  obtain ⟨texts, htexts, -⟩ := exists_of_bind_eq_ok h
  exact ⟨texts, explain_ok htexts⟩

theorem statement_eq_ok {t : Text} {s : Statement} (h : statement t = .ok s) :
    (∃ v, definition v = .ok s) ∨
      ∃ v, field "FunctionDeclaration" t = some v ∧ functionDeclaration v = .ok s := by
  cases hvariable : field "VariableDeclaration" t with
  | some v => exact .inl ⟨v, (statement_of_variable hvariable).symm.trans h⟩
  | none =>
    cases hfunction : field "FunctionDeclaration" t with
    | some v => exact .inr ⟨v, rfl, (statement_of_declaration hvariable hfunction).symm.trans h⟩
    | none => cases (statement_of_neither hvariable hfunction).symm.trans h

theorem functionDeclaration_eq_ok {t : Text} {s : Statement} (h : functionDeclaration t = .ok s) :
    ∃ name parameter statements ret pos body, s = .function name parameter statements ret pos ∧
      get ["FunctionBody"] t = .ok body ∧ statementList body.text = .ok statements := by
  obtain ⟨name, -, h⟩ := exists_of_bind_eq_ok h
  obtain ⟨parameter, -, h⟩ := exists_of_bind_eq_ok h
  obtain ⟨body, hbody, h⟩ := exists_of_bind_eq_ok h
  obtain ⟨statements, hstatements, h⟩ := exists_of_bind_eq_ok h
  obtain ⟨ret, -, h⟩ := exists_of_bind_eq_ok h
  obtain ⟨pos, -, h⟩ := exists_of_bind_eq_ok h
  exact ⟨name, parameter, statements, ret, pos, body, (Except.ok.inj h).symm, explain_ok hbody,
    hstatements⟩

/-- A list that cannot be read fails the function that it is in. -/
theorem functionDeclaration_of_error {t name parameter : Text} {body : Item} {e : DecodeError}
    (hname : token "FunctionName" t = .ok name)
    (hparameter : token "FunctionParameter" t = .ok parameter)
    (hbody : get ["FunctionBody"] t = .ok body) (hlist : statementList body.text = .error e) :
    functionDeclaration t = .error e := by
  unfold functionDeclaration
  simp only [hname, hparameter, hbody, explain, hlist, bind, Except.bind]

end Wire

theorem Program.decode_eq (t : Text) :
    Program.decode t = do
      let file ← Wire.explain .noSourceFile (Wire.get ["SourceFile"] t)
      let statements ← Wire.statementList file.text
      let pos ← Wire.position ["pos"] file.text
      return { statements, pos } := by
  unfold Program.decode
  simp only [Wire.statementList_eq, bind_assoc]

theorem Program.decode_of_error {t : Text} {file : Wire.Item} {e : Wire.DecodeError}
    (hfile : Wire.get ["SourceFile"] t = .ok file)
    (hlist : Wire.statementList file.text = .error e) : Program.decode t = .error e := by
  rw [decode_eq]
  simp only [hfile, Wire.explain, hlist, bind, Except.bind]

/-! ## Nothing is missing -/

mutual

/-- The statement is what the text holds, and if it is a function, then its body has one statement
for each element of the list in the text, which is what that element holds, at every depth. -/
def Statement.IsReadFrom : Statement → Text → Prop
  | .define name value pos, t => Wire.statement t = .ok (.define name value pos)
  | .function name parameter body ret pos, t =>
    Wire.statement t = .ok (.function name parameter body ret pos) ∧
      ∃ v b texts, Wire.field "FunctionDeclaration" t = some v ∧
        Wire.get ["FunctionBody"] v = .ok b ∧
        Wire.elements "StatementList" b.text = .ok texts ∧ AreReadFrom body texts
  | .hole, _ => False

def Statement.AreReadFrom : List Statement → List Text → Prop
  | [], [] => True
  | s :: ss, t :: ts => s.IsReadFrom t ∧ AreReadFrom ss ts
  | _, _ => False

end

def Program.IsReadFrom (p : Program) (t : Text) : Prop :=
  ∃ file texts, Wire.get ["SourceFile"] t = .ok file ∧
    Wire.elements "StatementList" file.text = .ok texts ∧
    Statement.AreReadFrom p.statements texts

mutual

theorem Statement.isReadFrom_of_statement :
    ∀ (s : Statement) (t : Text), Wire.statement t = .ok s → s.IsReadFrom t
  | .define name value pos, t, h => by
    rw [IsReadFrom]
    exact h
  | .function name parameter body ret pos, t, h => by
    rcases Wire.statement_eq_ok h with ⟨v, hv⟩ | ⟨v, hfunction, hv⟩
    · obtain ⟨_, _, _, _, heq, -⟩ := Wire.definition_eq_ok hv
      cases heq
    · obtain ⟨_, _, _, _, _, b, heq, hb, hlist⟩ := Wire.functionDeclaration_eq_ok hv
      cases heq
      obtain ⟨texts, htexts⟩ := Wire.elements_of_statementList hlist
      rw [Wire.statementList_of_elements htexts] at hlist
      rw [IsReadFrom]
      exact ⟨h, v, b, texts, hfunction, hb, htexts,
        areReadFrom_of_forall₂ body texts (Wire.mapM_eq_ok_iff.mp hlist)⟩
  | .hole, t, h => by
    rcases Wire.statement_eq_ok h with ⟨v, hv⟩ | ⟨v, -, hv⟩
    · obtain ⟨_, _, _, _, heq, -⟩ := Wire.definition_eq_ok hv
      cases heq
    · obtain ⟨_, _, _, _, _, _, heq, -⟩ := Wire.functionDeclaration_eq_ok hv
      cases heq

theorem Statement.areReadFrom_of_forall₂ :
    ∀ (ss : List Statement) (ts : List Text),
      List.Forall₂ (fun t s => Wire.statement t = .ok s) ts ss → AreReadFrom ss ts
  | [], ts, h => by
    cases h
    rw [AreReadFrom]
    trivial
  | s :: ss, ts, h => by
    cases h with
    | cons hs hss =>
      rw [AreReadFrom]
      exact ⟨isReadFrom_of_statement s _ hs, areReadFrom_of_forall₂ ss _ hss⟩

end

theorem Program.isReadFrom_of_decode {p : Program} {t : Text} (h : Program.decode t = .ok p) :
    p.IsReadFrom t := by
  rw [decode_eq] at h
  obtain ⟨file, hfile, h⟩ := exists_of_bind_eq_ok h
  obtain ⟨statements, hlist, h⟩ := exists_of_bind_eq_ok h
  obtain ⟨pos, -, h⟩ := exists_of_bind_eq_ok h
  cases h
  obtain ⟨texts, htexts⟩ := Wire.elements_of_statementList hlist
  rw [Wire.statementList_of_elements htexts] at hlist
  exact ⟨file, texts, Wire.explain_ok hfile, htexts,
    Statement.areReadFrom_of_forall₂ statements texts (Wire.mapM_eq_ok_iff.mp hlist)⟩

/-! ## The law -/

open Wire Json

/-- Where a list is a JSON array, its elements are those of the array, whatever they are.  A list
can be read exactly if each of its elements can, and then gives their statements, in their order.
Otherwise it gives the error of the first one that cannot, and this is then the error of the
function or the program that the list is in.  From a program that was decoded no statement is
missing, at any depth. -/
theorem statementLists_all_or_nothing :
    (∀ t members blanks es, IsObject t members →
      Leads members "StatementList" (.array blanks es) →
      elements "StatementList" t = .ok (es.map (·.2.content))) ∧
    (∀ t texts, elements "StatementList" t = .ok texts →
      ((∃ ss, statementList t = .ok ss) ↔ ∀ text ∈ texts, ∃ s, statement text = .ok s) ∧
      (∀ ss, statementList t = .ok ss ↔
        List.Forall₂ (fun text s => statement text = .ok s) texts ss) ∧
      ∀ e, statementList t = .error e ↔ ∃ before text after, texts = before ++ text :: after ∧
        (∀ text' ∈ before, ∃ s, statement text' = .ok s) ∧ statement text = .error e) ∧
    (∀ t v name parameter body e, field "VariableDeclaration" t = none →
      field "FunctionDeclaration" t = some v → token "FunctionName" v = .ok name →
      token "FunctionParameter" v = .ok parameter → Wire.get ["FunctionBody"] v = .ok body →
      statementList body.text = .error e → statement t = .error e) ∧
    (∀ t file e, Wire.get ["SourceFile"] t = .ok file → statementList file.text = .error e →
      Program.decode t = .error e) ∧
    ∀ t p, Program.decode t = .ok p → p.IsReadFrom t := by
  refine ⟨fun t members blanks es ht h => elements_of_leads ht (by decide) h,
    fun t texts h => ?_, ?_, fun t file e hfile hlist => Program.decode_of_error hfile hlist,
    fun t p h => Program.isReadFrom_of_decode h⟩
  · rw [statementList_of_elements h]
    refine ⟨exists_mapM_eq_ok_iff, fun ss => mapM_eq_ok_iff, fun e => ?_⟩
    constructor
    · exact exists_of_mapM_eq_error
    · rintro ⟨before, text, after, rfl, hbefore, herror⟩
      exact mapM_append_of_error hbefore herror
  · intro t v name parameter body e hvariable hfunction hname hparameter hbody hlist
    rw [statement_of_declaration hvariable hfunction]
    exact functionDeclaration_of_error hname hparameter hbody hlist

namespace HalfRead

/-- A list of a statement and two values that are none. -/
def members : List (Heading × Json) :=
  plainMembers [("StatementList",
    .array .none (plainElements [Outlandish.definition, .word .true, .word .null]))]

def text : Text := (Json.object .none members).text

theorem statement_true : statement "true" = .error (.unknownStatement "true") := by
  have hbare : Bare "true" := bare_of_isTokenByte (Word.isTokenByte .true)
  have hnone : ∀ key : String, field key "true" = none := by
    intro key
    simp only [field, Wire.get, search_end hbare]
  exact statement_of_neither (hnone "VariableDeclaration") (hnone "FunctionDeclaration")

end HalfRead

/-- The first element that is no statement is named, and the one before it is not given.  A program
of two depths is read whole. -/
theorem halfRead_all_or_nothing :
    statementList HalfRead.text = .error (.unknownStatement "true") ∧
    outlandish.IsReadFrom Outlandish.document.text := by
  obtain ⟨helements, hlaw, -, -, hwhole⟩ := statementLists_all_or_nothing
  have hobject : IsObject HalfRead.text HalfRead.members := isObject_content .none _
  have hlist : Leads HalfRead.members "StatementList" (.array .none
      (plainElements [Outlandish.definition, .word .true, .word .null])) :=
    leads_plainMembers (by simp) (by simp)
  obtain ⟨-, -, herror⟩ := hlaw _ _ (helements _ _ _ _ hobject hlist)
  constructor
  · refine (herror _).mpr ⟨[Outlandish.definition.content], _, _, rfl, ?_, HalfRead.statement_true⟩
    intro text htext
    rw [List.mem_singleton.mp htext]
    exact ⟨_, statement_of_isFound _ _ (Statement.isFound_of_isLegible _ _
      Outlandish.definition_isFound Outlandish.definition_isLegible)⟩
  · have hdecode := Program.decode_of_isFound Outlandish.document_isFound .none .none
    have htext : Blanks.none.text ++ (Outlandish.document.text ++ Blanks.none.text) =
        Outlandish.document.text := List.append_nil _
    rw [htext] at hdecode
    exact hwhole _ _ hdecode

end Stepwise
