/-
The text of a program says everything but positions.

Nothing marks where a name ends, or the list of statements in a body, and the word `return` may as
well be a name.  But if no name and no lexeme contains a byte that the text puts between them, then
the text of a statement can be told from whatever follows it (`Statement.text?_append_inj`).  At the
end of a body this takes one look past the word `return`: in a statement of that name an equals sign
or a parenthesis comes next, and what is returned begins with a name (`noStatement_return`).

Positions are not shown, so a program is compared as `unplaced`.
-/
import Stepwise.Program.Printer
import Stepwise.Proofs.RoundTrip

namespace Stepwise

/-! ## Plain names -/

namespace Text

abbrev openParen : UInt8 := 0x28
abbrev closeParen : UInt8 := 0x29
abbrev semicolon : UInt8 := 0x3b

/-- The bytes that separate names from what is around them, where no sign is written out. -/
def isMark (b : UInt8) : Bool :=
  [blank, newline, openParen, closeParen, openBrace, closeBrace, semicolon, equals].contains b

/-- Not empty, and free of marks. -/
def Plain (t : Text) : Prop := (!t.isEmpty && t.all fun b => !isMark b) = true

instance (t : Text) : Decidable t.Plain := inferInstanceAs (Decidable (_ = true))

theorem Plain.isMark {t : Text} (h : t.Plain) : ∀ b ∈ t, isMark b = false := by
  intro b hb
  have hall := List.all_eq_true.mp ((Bool.and_eq_true _ _).mp h).2 b hb
  simpa using hall

theorem Plain.exists_cons {t : Text} (h : t.Plain) :
    ∃ b rest, t = b :: rest ∧ Text.isMark b = false := by
  cases t with
  | nil => cases h
  | cons b rest => exact ⟨b, rest, rfl, h.isMark b List.mem_cons_self⟩

/-- A plain text ends at the first mark. -/
theorem append_mark_inj {x y : Text} (hx : ∀ b ∈ x, isMark b = false)
    (hy : ∀ b ∈ y, isMark b = false) {a b : UInt8} (ha : isMark a = true) (hb : isMark b = true)
    {r r' : Text} (h : x ++ a :: r = y ++ b :: r') : x = y ∧ a = b ∧ r = r' := by
  induction x generalizing y with
  | nil =>
    cases y with
    | nil =>
      obtain ⟨rfl, rfl⟩ := List.cons.inj h
      exact ⟨rfl, rfl, rfl⟩
    | cons c y =>
      obtain ⟨rfl, -⟩ := List.cons.inj h
      rw [hy a List.mem_cons_self] at ha
      cases ha
  | cons c x ih =>
    cases y with
    | nil =>
      obtain ⟨rfl, -⟩ := List.cons.inj h
      rw [hx c List.mem_cons_self] at hb
      cases hb
    | cons c' y =>
      obtain ⟨rfl, htail⟩ := List.cons.inj h
      obtain ⟨rfl, hmark, hrest⟩ := ih (fun b hb => hx b (List.mem_cons_of_mem c hb))
        (fun b hb => hy b (List.mem_cons_of_mem c hb)) htail
      exact ⟨rfl, hmark, hrest⟩

theorem Plain.append_inj {x y : Text} (hx : x.Plain) (hy : y.Plain) {a b : UInt8}
    (ha : Text.isMark a = true) (hb : Text.isMark b = true) {r r' : Text}
    (h : x ++ a :: r = y ++ b :: r') : x = y ∧ a = b ∧ r = r' :=
  append_mark_inj hx.isMark hy.isMark ha hb h

theorem Plain.append_ne_cons {x : Text} (hx : x.Plain) {b : UInt8} (hb : Text.isMark b = true)
    {r r' : Text} : x ++ r ≠ b :: r' := by
  obtain ⟨c, rest, rfl, hc⟩ := hx.exists_cons
  intro h
  obtain ⟨rfl, -⟩ := List.cons.inj h
  rw [hc] at hb
  cases hb

end Text

open Text

/-! ## Programs without positions -/

mutual

/-- The statement, with all positions taken away. -/
def Statement.unplaced : Statement → Statement
  | .define name value _ => .define name value 0
  | .function name parameter body ret _ => .function name parameter (listUnplaced body) ret 0
  | .hole => .hole

def Statement.listUnplaced : List Statement → List Statement
  | [] => []
  | s :: ss => s.unplaced :: listUnplaced ss

end

def Program.unplaced (p : Program) : Program :=
  { statements := Statement.listUnplaced p.statements, pos := 0 }

mutual

theorem Statement.text?_unplaced : ∀ s : Statement, s.unplaced.text? = s.text?
  | .define _ _ _ => rfl
  | .function _ _ body _ _ => by
    simp only [unplaced, text?, Statement.texts?_listUnplaced body]
  | .hole => rfl

theorem Statement.texts?_listUnplaced : ∀ ss : List Statement, texts? (listUnplaced ss) = texts? ss
  | [] => rfl
  | s :: ss => by
    simp only [listUnplaced, texts?, Statement.text?_unplaced s, Statement.texts?_listUnplaced ss]

end

/-! ## What the text of a statement looks like -/

/-- The body of a function and what follows it, where `lines` are the texts of its statements and
`x` is that of what it returns. -/
def bodyText (lines : List Text) (x rest : Text) : Text :=
  if lines.isEmpty then x ++ semicolon :: rest
  else openBrace :: blank :: (lines.flatMap (fun line => line ++ [blank]) ++
    (ofString "return" ++
      blank :: (x ++ semicolon :: blank :: closeBrace :: semicolon :: rest)))

theorem join_blank {lines : List Text} (h : lines ≠ []) (rest : Text) :
    Text.join " " lines ++ blank :: rest = lines.flatMap (fun line => line ++ [blank]) ++ rest := by
  induction lines with
  | nil => exact absurd rfl h
  | cons line lines ih =>
    cases lines with
    | nil => simp [Text.join]
    | cons next lines =>
      have hjoin : Text.join " " (line :: next :: lines) =
          line ++ [blank] ++ Text.join " " (next :: lines) := rfl
      rw [hjoin, List.append_assoc, ih (List.cons_ne_nil _ _)]
      simp

theorem text?_define_append {name t : Text} {value : Initializer} {pos : Position}
    (h : (Statement.define name value pos).text? = some t) (rest : Text) :
    ∃ v, value.text? = some v ∧
      t ++ rest = name ++ blank :: equals :: blank :: (v ++ semicolon :: rest) := by
  obtain ⟨v, hv, h⟩ := Option.bind_eq_some_iff.mp h
  refine ⟨v, hv, ?_⟩
  obtain rfl := Option.some.inj h
  have hequals : ofString " = " = [blank, equals, blank] := rfl
  have hend : ofString ";" = [semicolon] := rfl
  simp [hequals, hend]

theorem text?_function_append {name parameter t : Text} {body : List Statement} {ret : ReturnExpr}
    {pos : Position} (h : (Statement.function name parameter body ret pos).text? = some t)
    (rest : Text) :
    ∃ x lines, ret.text? = some x ∧ Statement.texts? body = some lines ∧
      t ++ rest = name ++ openParen ::
        (parameter ++ closeParen :: blank :: equals :: blank :: bodyText lines x rest) := by
  rw [Statement.text?] at h
  obtain ⟨x, hx, h⟩ := Option.bind_eq_some_iff.mp h
  obtain ⟨lines, hlines, h⟩ := Option.bind_eq_some_iff.mp h
  refine ⟨x, lines, hx, hlines, ?_⟩
  have hopen : ofString "(" = [openParen] := rfl
  have hclose : ofString ") = " = [closeParen, blank, equals, blank] := rfl
  have hbegin : ofString "\x7b " = [openBrace, blank] := rfl
  have hreturn : ofString " return " = blank :: (ofString "return" ++ [blank]) := rfl
  have hend : ofString ";" = [semicolon] := rfl
  have hfinish : ofString "; \x7d;" = [semicolon, blank, closeBrace, semicolon] := rfl
  cases hempty : lines.isEmpty with
  | true =>
    rw [if_pos hempty] at h
    obtain rfl := Option.some.inj h
    simp [bodyText, hempty, hopen, hclose, hend]
  | false =>
    rw [if_neg (Bool.eq_false_iff.mp hempty)] at h
    obtain rfl := Option.some.inj h
    have hne : lines ≠ [] := List.isEmpty_eq_false_iff.mp hempty
    simp only [bodyText, hempty, hopen, hclose, hbegin, hreturn, hfinish, List.append_assoc,
      List.cons_append, List.nil_append, join_blank hne]
    rfl

theorem Initializer.call_append (callee argument rest : Text) :
    callee ++ ofString "(" ++ argument ++ ofString ")" ++ rest =
      callee ++ openParen :: (argument ++ closeParen :: rest) := by
  have hopen : ofString "(" = [openParen] := rfl
  have hclose : ofString ")" = [closeParen] := rfl
  simp [hopen, hclose]

theorem ReturnExpr.sum_append (left right rest : Text) :
    left ++ ofString " + " ++ right ++ rest =
      left ++ blank :: plus :: blank :: (right ++ rest) := by
  have hplus : ofString " + " = [blank, plus, blank] := rfl
  simp [hplus]

/-! ## Texts that end themselves -/

/-- All names and lexemes of a list are plain. -/
def ArePlain (texts : List Text) : Prop := ∀ t ∈ texts, t.Plain

namespace ArePlain

variable {t : Text} {texts texts' : List Text}

theorem head (h : ArePlain (t :: texts)) : t.Plain := h t List.mem_cons_self

theorem tail (h : ArePlain (t :: texts)) : ArePlain texts :=
  fun x hx => h x (List.mem_cons_of_mem t hx)

theorem left (h : ArePlain (texts ++ texts')) : ArePlain texts :=
  fun x hx => h x (List.mem_append_left _ hx)

theorem right (h : ArePlain (texts ++ texts')) : ArePlain texts' :=
  fun x hx => h x (List.mem_append_right _ hx)

end ArePlain

theorem Initializer.text?_append_inj {value value' : Initializer} {x x' r r' : Text}
    (hvalue : ArePlain value.texts) (hvalue' : ArePlain value'.texts) (hx : value.text? = some x)
    (hx' : value'.text? = some x') (h : x ++ semicolon :: r = x' ++ semicolon :: r') :
    value = value' ∧ r = r' := by
  cases value with
  | literal lexeme =>
    obtain rfl := Option.some.inj hx
    cases value' with
    | literal lexeme' =>
      obtain rfl := Option.some.inj hx'
      obtain ⟨rfl, -, rfl⟩ := hvalue.head.append_inj hvalue'.head rfl rfl h
      exact ⟨rfl, rfl⟩
    | call callee argument =>
      obtain rfl := Option.some.inj hx'
      rw [Initializer.call_append] at h
      obtain ⟨-, hmark, -⟩ := hvalue.head.append_inj hvalue'.head rfl rfl h
      cases hmark
    | hole => cases hx'
  | call callee argument =>
    obtain rfl := Option.some.inj hx
    rw [Initializer.call_append] at h
    cases value' with
    | literal lexeme' =>
      obtain rfl := Option.some.inj hx'
      obtain ⟨-, hmark, -⟩ := hvalue.head.append_inj hvalue'.head rfl rfl h
      cases hmark
    | call callee' argument' =>
      obtain rfl := Option.some.inj hx'
      rw [Initializer.call_append] at h
      obtain ⟨rfl, -, h⟩ := hvalue.head.append_inj hvalue'.head rfl rfl h
      obtain ⟨rfl, -, h⟩ := hvalue.tail.head.append_inj hvalue'.tail.head rfl rfl h
      exact ⟨rfl, (List.cons.inj h).2⟩
    | hole => cases hx'
  | hole => cases hx

theorem ReturnExpr.text?_append_inj {ret ret' : ReturnExpr} {x x' r r' : Text}
    (hret : ArePlain ret.texts) (hret' : ArePlain ret'.texts) (hx : ret.text? = some x)
    (hx' : ret'.text? = some x') (h : x ++ semicolon :: r = x' ++ semicolon :: r') :
    ret = ret' ∧ r = r' := by
  cases ret with
  | name y =>
    obtain rfl := Option.some.inj hx
    cases ret' with
    | name y' =>
      obtain rfl := Option.some.inj hx'
      obtain ⟨rfl, -, rfl⟩ := hret.head.append_inj hret'.head rfl rfl h
      exact ⟨rfl, rfl⟩
    | sum left right =>
      obtain rfl := Option.some.inj hx'
      rw [ReturnExpr.sum_append] at h
      obtain ⟨-, hmark, -⟩ := hret.head.append_inj hret'.head rfl rfl h
      cases hmark
    | hole => cases hx'
  | sum left right =>
    obtain rfl := Option.some.inj hx
    rw [ReturnExpr.sum_append] at h
    cases ret' with
    | name y' =>
      obtain rfl := Option.some.inj hx'
      obtain ⟨-, hmark, -⟩ := hret.head.append_inj hret'.head rfl rfl h
      cases hmark
    | sum left' right' =>
      obtain rfl := Option.some.inj hx'
      rw [ReturnExpr.sum_append] at h
      obtain ⟨rfl, -, h⟩ := hret.head.append_inj hret'.head rfl rfl h
      have h := (List.cons.inj (List.cons.inj h).2).2
      obtain ⟨rfl, -, rfl⟩ := hret.tail.head.append_inj hret'.tail.head rfl rfl h
      exact ⟨rfl, rfl⟩
    | hole => cases hx'
  | hole => cases hx

/-- What is returned begins with a name. -/
theorem ReturnExpr.text?_ne_cons {ret : ReturnExpr} {x : Text} (hret : ArePlain ret.texts)
    (hx : ret.text? = some x) {b : UInt8} (hb : isMark b = true) {r r' : Text} :
    x ++ r ≠ b :: r' := by
  cases ret with
  | name y =>
    obtain rfl := Option.some.inj hx
    exact hret.head.append_ne_cons hb
  | sum left right =>
    obtain rfl := Option.some.inj hx
    rw [ReturnExpr.sum_append]
    exact hret.head.append_ne_cons hb
  | hole => cases hx

/-- No statement can be read at the beginning of `rest`. -/
def NoStatement (rest : Text) : Prop :=
  ∀ (s : Statement) (t r : Text), ArePlain s.texts → s.text? = some t → t ++ r ≠ rest

theorem noStatement_nil : NoStatement [] := by
  intro s t r hs ht h
  obtain ⟨rfl, -⟩ := List.append_eq_nil_iff.mp h
  cases s with
  | define name value pos =>
    obtain ⟨_, _, happend⟩ := text?_define_append ht []
    exact List.append_ne_nil_of_right_ne_nil name (List.cons_ne_nil _ _) happend.symm
  | function name parameter body ret pos =>
    obtain ⟨_, _, _, _, happend⟩ := text?_function_append ht []
    exact List.append_ne_nil_of_right_ne_nil name (List.cons_ne_nil _ _) happend.symm
  | hole => cases ht

/-- A statement by the name `return` can be told from the returning of something. -/
theorem noStatement_return {ret : ReturnExpr} {x : Text} (hret : ArePlain ret.texts)
    (hx : ret.text? = some x) (rest : Text) :
    NoStatement (ofString "return" ++ blank :: (x ++ rest)) := by
  intro s t r hs ht h
  have hreturn : (ofString "return").Plain := by decide
  cases s with
  | define name value pos =>
    obtain ⟨_, _, happend⟩ := text?_define_append ht r
    rw [happend] at h
    obtain ⟨-, -, h⟩ := hs.head.append_inj hreturn rfl rfl h
    exact ReturnExpr.text?_ne_cons hret hx rfl h.symm
  | function name parameter body ret' pos =>
    obtain ⟨_, _, _, _, happend⟩ := text?_function_append ht r
    rw [happend] at h
    obtain ⟨-, hmark, -⟩ := hs.head.append_inj hreturn rfl rfl h
    cases hmark
  | hole => cases ht

/-- The texts of the statements determine them, up to positions, and where they end. -/
def Distinguishes (sep : UInt8) (ss ss' : List Statement) (lines lines' : List Text) : Prop :=
  ∀ {rest rest' : Text}, NoStatement rest → NoStatement rest' →
    lines.flatMap (fun line => line ++ [sep]) ++ rest =
      lines'.flatMap (fun line => line ++ [sep]) ++ rest' →
    Statement.listUnplaced ss = Statement.listUnplaced ss' ∧ rest = rest'

theorem Statement.texts?_cons {s : Statement} {ss : List Statement} {lines : List Text}
    (h : texts? (s :: ss) = some lines) :
    ∃ line rest, s.text? = some line ∧ texts? ss = some rest ∧ lines = line :: rest := by
  obtain ⟨line, hline, h⟩ := Option.bind_eq_some_iff.mp h
  obtain ⟨rest, hrest, h⟩ := Option.bind_eq_some_iff.mp h
  exact ⟨line, rest, hline, hrest, (Option.some.inj h).symm⟩

theorem Statement.eq_nil_of_texts? {ss : List Statement} (h : texts? ss = some []) : ss = [] := by
  cases ss with
  | nil => rfl
  | cons s ss =>
    obtain ⟨_, _, _, _, hlines⟩ := texts?_cons h
    cases hlines

/-- A function without statements has no braces, and what it returns does not begin with one. -/
theorem bodyText_inj {body body' : List Statement} {lines lines' : List Text}
    {ret ret' : ReturnExpr} {x x' r r' : Text}
    (hlines : Statement.texts? body = some lines) (hlines' : Statement.texts? body' = some lines')
    (hret : ArePlain ret.texts) (hret' : ArePlain ret'.texts) (hx : ret.text? = some x)
    (hx' : ret'.text? = some x') (hbody : Distinguishes blank body body' lines lines')
    (h : bodyText lines x r = bodyText lines' x' r') :
    Statement.listUnplaced body = Statement.listUnplaced body' ∧ ret = ret' ∧ r = r' := by
  cases lines with
  | nil =>
    cases lines' with
    | nil =>
      rw [Statement.eq_nil_of_texts? hlines, Statement.eq_nil_of_texts? hlines']
      exact ⟨rfl, ReturnExpr.text?_append_inj hret hret' hx hx' h⟩
    | cons line' lines' => exact absurd h (ReturnExpr.text?_ne_cons hret hx rfl)
  | cons line lines =>
    cases lines' with
    | nil => exact absurd h.symm (ReturnExpr.text?_ne_cons hret' hx' rfl)
    | cons line' lines' =>
      have h := (List.cons.inj (List.cons.inj h).2).2
      obtain ⟨hsame, h⟩ := hbody (noStatement_return hret hx _) (noStatement_return hret' hx' _) h
      have h := (List.cons.inj (List.append_cancel_left h)).2
      obtain ⟨rfl, h⟩ := ReturnExpr.text?_append_inj hret hret' hx hx' h
      exact ⟨hsame, rfl, (List.cons.inj (List.cons.inj (List.cons.inj h).2).2).2⟩

mutual

/-- The text of a statement determines it, up to positions, and where it ends. -/
theorem Statement.text?_append_inj : ∀ (s s' : Statement) {t t' r r' : Text}, ArePlain s.texts →
    ArePlain s'.texts → s.text? = some t → s'.text? = some t' → t ++ r = t' ++ r' →
      s.unplaced = s'.unplaced ∧ r = r'
  | .define _ _ _, .define _ _ _, _, _, r, r', hs, hs', ht, ht', h => by
    obtain ⟨_, hv, happend⟩ := text?_define_append ht r
    obtain ⟨_, hv', happend'⟩ := text?_define_append ht' r'
    rw [happend, happend'] at h
    obtain ⟨rfl, -, h⟩ := hs.head.append_inj hs'.head rfl rfl h
    have h := (List.cons.inj (List.cons.inj h).2).2
    obtain ⟨rfl, rfl⟩ := Initializer.text?_append_inj hs.tail hs'.tail hv hv' h
    exact ⟨rfl, rfl⟩
  | .define _ _ _, .function _ _ _ _ _, _, _, r, r', hs, hs', ht, ht', h => by
    obtain ⟨_, _, happend⟩ := text?_define_append ht r
    obtain ⟨_, _, _, _, happend'⟩ := text?_function_append ht' r'
    rw [happend, happend'] at h
    obtain ⟨-, hmark, -⟩ := hs.head.append_inj hs'.head rfl rfl h
    cases hmark
  | .function _ _ _ _ _, .define _ _ _, _, _, r, r', hs, hs', ht, ht', h => by
    obtain ⟨_, _, _, _, happend⟩ := text?_function_append ht r
    obtain ⟨_, _, happend'⟩ := text?_define_append ht' r'
    rw [happend, happend'] at h
    obtain ⟨-, hmark, -⟩ := hs.head.append_inj hs'.head rfl rfl h
    cases hmark
  | .function _ _ body ret _, .function _ _ body' ret' _, _, _, r, r', hs, hs', ht, ht', h => by
    obtain ⟨_, _, hx, hlines, happend⟩ := text?_function_append ht r
    obtain ⟨_, _, hx', hlines', happend'⟩ := text?_function_append ht' r'
    rw [happend, happend'] at h
    obtain ⟨rfl, -, h⟩ := hs.head.append_inj hs'.head rfl rfl h
    obtain ⟨rfl, -, h⟩ := hs.tail.head.append_inj hs'.tail.head rfl rfl h
    have h := (List.cons.inj (List.cons.inj (List.cons.inj h).2).2).2
    have hbody : Distinguishes blank body body' _ _ := Statement.texts?_append_inj body body'
      hs.tail.tail.left hs'.tail.tail.left hlines hlines'
    obtain ⟨hsame, rfl, hrest⟩ := bodyText_inj hlines hlines' hs.tail.tail.right
      hs'.tail.tail.right hx hx' hbody h
    simp only [unplaced, hsame]
    exact ⟨trivial, hrest⟩
  | .hole, _, _, _, _, _, _, _, ht, _, _ => by cases ht
  | .define _ _ _, .hole, _, _, _, _, _, _, _, ht', _ => by cases ht'
  | .function _ _ _ _ _, .hole, _, _, _, _, _, _, _, ht', _ => by cases ht'

theorem Statement.texts?_append_inj {sep : UInt8} : ∀ (ss ss' : List Statement)
    {lines lines' : List Text}, ArePlain (listTexts ss) → ArePlain (listTexts ss') →
    texts? ss = some lines → texts? ss' = some lines' → Distinguishes sep ss ss' lines lines'
  | [], [], _, _, _, _, hlines, hlines', _, _, _, _, h => by
    obtain rfl := Option.some.inj hlines
    obtain rfl := Option.some.inj hlines'
    exact ⟨rfl, h⟩
  | [], s' :: _, _, _, _, hss', hlines, hlines', _, _, hrest, _, h => by
    obtain rfl := Option.some.inj hlines
    obtain ⟨_, _, hline', _, rfl⟩ := texts?_cons hlines'
    rw [List.flatMap_cons, List.append_assoc, List.append_assoc] at h
    exact absurd h.symm (hrest s' _ _ hss'.left hline')
  | s :: _, [], _, _, hss, _, hlines, hlines', _, _, _, hrest', h => by
    obtain rfl := Option.some.inj hlines'
    obtain ⟨_, _, hline, _, rfl⟩ := texts?_cons hlines
    rw [List.flatMap_cons, List.append_assoc, List.append_assoc] at h
    exact absurd h (hrest' s _ _ hss.left hline)
  | s :: ss, s' :: ss', _, _, hss, hss', hlines, hlines', _, _, hrest, hrest', h => by
    obtain ⟨_, _, hline, htail, rfl⟩ := texts?_cons hlines
    obtain ⟨_, _, hline', htail', rfl⟩ := texts?_cons hlines'
    rw [List.flatMap_cons, List.flatMap_cons, List.append_assoc, List.append_assoc,
      List.append_assoc, List.append_assoc] at h
    obtain ⟨hsame, h⟩ := Statement.text?_append_inj s s' hss.left hss'.left hline hline' h
    obtain ⟨hsames, h⟩ := Statement.texts?_append_inj ss ss' hss.right hss'.right htail htail'
      hrest hrest' (List.cons.inj h).2
    simp only [listUnplaced, hsame, hsames]
    exact ⟨trivial, h⟩

end

/-! ## One line for each statement -/

theorem Text.Plain.newline_not_mem {t : Text} (h : t.Plain) : newline ∉ t := by
  intro hmem
  have hmark := h.isMark newline hmem
  cases hmark

theorem Initializer.exists_text? {value : Initializer} (hcomplete : value.isComplete = true)
    (hvalue : ArePlain value.texts) : ∃ x, value.text? = some x ∧ newline ∉ x := by
  cases value with
  | literal lexeme => exact ⟨_, rfl, hvalue.head.newline_not_mem⟩
  | call callee argument =>
    refine ⟨_, rfl, ?_⟩
    simp only [List.mem_append, not_or]
    exact ⟨⟨⟨hvalue.head.newline_not_mem, by decide⟩, hvalue.tail.head.newline_not_mem⟩,
      by decide⟩
  | hole => cases hcomplete

theorem ReturnExpr.exists_text? {ret : ReturnExpr} (hcomplete : ret.isComplete = true)
    (hret : ArePlain ret.texts) : ∃ x, ret.text? = some x ∧ newline ∉ x := by
  cases ret with
  | name y => exact ⟨_, rfl, hret.head.newline_not_mem⟩
  | sum left right =>
    refine ⟨_, rfl, ?_⟩
    simp only [List.mem_append, not_or]
    exact ⟨⟨hret.head.newline_not_mem, by decide⟩, hret.tail.head.newline_not_mem⟩
  | hole => cases hcomplete

theorem newline_not_mem_bodyText {lines : List Text} {x : Text} (hx : newline ∉ x)
    (hlines : ∀ line ∈ lines, newline ∉ line) : newline ∉ bodyText lines x [] := by
  have hsigns : newline ≠ blank ∧ newline ≠ semicolon ∧ newline ≠ openBrace ∧
      newline ≠ closeBrace := by decide
  have hreturn : newline ∉ ofString "return" := by decide
  have hbody : newline ∉ lines.flatMap fun line => line ++ [blank] := by
    intro hmem
    obtain ⟨line, hline, hmem⟩ := List.mem_flatMap.mp hmem
    simp [hlines line hline, hsigns] at hmem
  rw [bodyText]
  split
  · simp [hx, hsigns]
  · simp [hx, hsigns, hreturn, hbody]

mutual

theorem Statement.exists_text? : ∀ s : Statement, s.isComplete = true → ArePlain s.texts →
    ∃ t, s.text? = some t ∧ newline ∉ t
  | .define name value pos, hcomplete, hs => by
    obtain ⟨v, hv, hnewline⟩ := Initializer.exists_text? hcomplete hs.tail
    have ht : (define name value pos).text? = some (name ++ " = " ++ v ++ ";") := by
      simp only [text?, hv]
      rfl
    refine ⟨_, ht, ?_⟩
    simp only [List.mem_append, not_or]
    exact ⟨⟨⟨hs.head.newline_not_mem, by decide⟩, hnewline⟩, by decide⟩
  | .function name parameter body ret pos, hcomplete, hs => by
    obtain ⟨hbody, hret⟩ := (Bool.and_eq_true _ _).mp hcomplete
    obtain ⟨x, hx, hnewline⟩ := ReturnExpr.exists_text? hret hs.tail.tail.right
    obtain ⟨lines, hlines, -, hnewlines⟩ := Statement.exists_texts? body hbody hs.tail.tail.left
    obtain ⟨t, ht⟩ : ∃ t, (function name parameter body ret pos).text? = some t := by
      simp only [text?, hx, hlines]
      cases lines <;> exact ⟨_, rfl⟩
    refine ⟨t, ht, ?_⟩
    obtain ⟨x', lines', hx', hlines', happend⟩ := text?_function_append ht []
    rw [hx] at hx'
    rw [hlines] at hlines'
    obtain rfl := Option.some.inj hx'
    obtain rfl := Option.some.inj hlines'
    rw [List.append_nil] at happend
    rw [happend]
    simp only [List.mem_append, List.mem_cons, not_or]
    exact ⟨hs.head.newline_not_mem, by decide, hs.tail.head.newline_not_mem, by decide, by decide,
      by decide, by decide, newline_not_mem_bodyText hnewline hnewlines⟩
  | .hole, hcomplete, _ => by cases hcomplete

theorem Statement.exists_texts? : ∀ ss : List Statement, areComplete ss = true →
    ArePlain (listTexts ss) → ∃ lines, texts? ss = some lines ∧ lines.length = ss.length ∧
      ∀ line ∈ lines, newline ∉ line
  | [], _, _ => ⟨[], rfl, rfl, fun _ h => absurd h List.not_mem_nil⟩
  | s :: ss, hcomplete, hss => by
    obtain ⟨hs, hcomplete⟩ := (Bool.and_eq_true _ _).mp hcomplete
    obtain ⟨line, hline, hnewline⟩ := Statement.exists_text? s hs hss.left
    obtain ⟨lines, hlines, hlength, hnewlines⟩ := Statement.exists_texts? ss hcomplete hss.right
    refine ⟨line :: lines, ?_, congrArg Nat.succ hlength, List.forall_mem_cons.mpr
      ⟨hnewline, hnewlines⟩⟩
    simp only [texts?, hline, hlines]
    rfl

end

/-- Two programs have one text if and only if they differ in positions only, and that text has a
line for each statement of the top level. -/
theorem printing_loses_only_positions {p q : Program} (hp : p.isComplete = true)
    (hq : q.isComplete = true) (hplain : ArePlain p.texts) (hplain' : ArePlain q.texts) :
    (p.text? = q.text? ↔ p.unplaced = q.unplaced) ∧
      ∃ lines : List Text, p.text? = some (lines.flatMap fun line => line ++ [newline]) ∧
        lines.length = p.statements.length ∧ ∀ line ∈ lines, newline ∉ line := by
  obtain ⟨lines, hlines, hlength, hnewlines⟩ := Statement.exists_texts? p.statements hp hplain
  obtain ⟨lines', hlines', -, -⟩ := Statement.exists_texts? q.statements hq hplain'
  have htext : p.text? = some (lines.flatMap fun line => line ++ [newline]) := by
    simp only [Program.text?, hlines]
    rfl
  have htext' : q.text? = some (lines'.flatMap fun line => line ++ [newline]) := by
    simp only [Program.text?, hlines']
    rfl
  refine ⟨⟨?_, ?_⟩, lines, htext, hlength, hnewlines⟩
  · intro h
    rw [htext, htext', Option.some.injEq, ← List.append_nil (lines.flatMap _),
      ← List.append_nil (lines'.flatMap _)] at h
    obtain ⟨hsame, -⟩ := Statement.texts?_append_inj p.statements q.statements hplain hplain'
      hlines hlines' noStatement_nil noStatement_nil h
    simp only [Program.unplaced, hsame]
  · intro h
    have hstatements := congrArg Program.statements h
    simp only [Program.unplaced] at hstatements
    rw [Program.text?, Program.text?, ← Statement.texts?_listUnplaced p.statements, hstatements,
      Statement.texts?_listUnplaced]

/-- Functions in functions, where `return` is a name, with all statements at one position. -/
def returnNamed (pos : Position) : Program :=
  { statements := [
      .function "return" "x" [
        .define "return" (.call "return" "x") pos,
        .function "g" "return" [.define "y" (.literal "1") pos] (.sum "return" "y") pos,
        .function "return" "y" [] (.name "return") pos] (.sum "return" "g") pos,
      .define "z" (.call "return" "return") pos],
    pos }

theorem returnNamed_printed :
    (returnNamed 0).isComplete = true ∧ (returnNamed 7).isComplete = true ∧
    ArePlain (returnNamed 0).texts ∧ ArePlain (returnNamed 7).texts ∧
    ((returnNamed 0).text? = (returnNamed 7).text? ↔
      (returnNamed 0).unplaced = (returnNamed 7).unplaced) ∧
    ∃ lines : List Text,
      (returnNamed 0).text? = some (lines.flatMap fun line => line ++ [newline]) ∧
        lines.length = 2 ∧ ∀ line ∈ lines, newline ∉ line := by
  have hplain : ∀ pos, ArePlain (returnNamed pos).texts := by
    intro pos t ht
    have hall : (returnNamed pos).texts.all (fun t => decide t.Plain) = true := rfl
    exact of_decide_eq_true (List.all_eq_true.mp hall t ht)
  exact ⟨rfl, rfl, hplain 0, hplain 7,
    printing_loses_only_positions (p := returnNamed 0) (q := returnNamed 7) rfl rfl (hplain 0)
      (hplain 7)⟩

end Stepwise
