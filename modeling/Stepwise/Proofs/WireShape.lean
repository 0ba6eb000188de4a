/-
How programs are written as JSON, and how they are read from it.

`Program.IsFound` says which documents a program is found in.  Of each object it says only what
members are found there and what members are not, so members may stand in any order and among any
others.  Where there are alternatives, the one that is read first must be absent or null if it is
not taken.  A position that is 0 may be left out.

What it is to be found is a parameter.  A program is written as a document if all that it is made
of is there (`IsWrittenAs`), whatever the names of other members are.  It can also be found with
`Leads`, so that nothing stands behind a name that cannot be read: then the document is decoded to
it (`Program.decode_of_isFound`).
-/
import Stepwise.Proofs.Json.Lookup
import Stepwise.Wire.Decode

namespace Stepwise

open Json

/-! ## How programs are written -/

/-- How the value of a member is found by its name. -/
abbrev Finding := List (Heading × Json) → Text → Json → Prop

section

variable (found : Finding)

def Misses (members : List (Heading × Json)) (key : String) : Prop := ∀ j, ¬ found members key j

/-- The member `key` is a token: an object that holds the source of a name or numeral. -/
def FindsToken (members : List (Heading × Json)) (key : String) (name : Text) : Prop :=
  ∃ blanks fields s, found members key (.object blanks fields) ∧
    found fields "source" (.string s) ∧ Spells s name

/-- The member `key` is an alternative that was not taken. -/
def NotTaken (members : List (Heading × Json)) (key : String) : Prop :=
  Misses found members key ∨ found members key (.word .null)

/-- The position of what the members describe. -/
def FindsPosition (members : List (Heading × Json)) (pos : Position) : Prop :=
  (∃ n : Number, found members "pos" (.number n) ∧ n.int? = some pos.toInt) ∨
    Misses found members "pos" ∧ pos = 0

/-- The position of a declaration, which is in an object of its own.  There is one such object: if
it had no position, that of another one would be taken. -/
def FindsOffset (members : List (Heading × Json)) (pos : Position) : Prop :=
  (∃ blanks fields, found members "offset" (.object blanks fields) ∧
    Holds members "offset" (.object blanks fields) ∧ FindsPosition found fields pos) ∨
    Misses found members "offset" ∧ pos = 0

/-- The member `key` is taken for the literal: an object of two tokens. -/
def FindsPair (members : List (Heading × Json)) (key left right : String) (name name' : Text) :
    Prop :=
  NotTaken found members "Literal" ∧ ∃ blanks fields, found members key (.object blanks fields) ∧
    FindsToken found fields left name ∧ FindsToken found fields right name'

def FindsInitializer (members : List (Heading × Json)) : Initializer → Prop
  | .literal lexeme => FindsToken found members "Literal" lexeme
  | .call callee argument =>
    FindsPair found members "CallExpression" "FunctionName" "FunctionArgument" callee argument
  | .hole => False

def FindsReturn (members : List (Heading × Json)) : ReturnExpr → Prop
  | .name x => FindsToken found members "Literal" x
  | .sum left right => FindsPair found members "PlusExpression" "Left" "Right" left right
  | .hole => False

mutual

def Statement.IsFound : Statement → Json → Prop
  | .define name value pos, j =>
    ∃ b members b' fields b'' values, j = .object b members ∧
      found members "VariableDeclaration" (.object b' fields) ∧
      FindsToken found fields "VariableName" name ∧
      found fields "VariableValue" (.object b'' values) ∧ FindsInitializer found values value ∧
      FindsOffset found fields pos
  | .function name parameter body ret pos, j =>
    ∃ b members b' fields b'' inner a elements r returned v values, j = .object b members ∧
      NotTaken found members "VariableDeclaration" ∧
      found members "FunctionDeclaration" (.object b' fields) ∧
      FindsToken found fields "FunctionName" name ∧
      FindsToken found fields "FunctionParameter" parameter ∧
      found fields "FunctionBody" (.object b'' inner) ∧
      found inner "StatementList" (.array a elements) ∧
      AreFound body (elements.map Prod.snd) ∧
      found inner "ReturnStatement" (.object r returned) ∧
      found returned "ReturnValue" (.object v values) ∧ FindsReturn found values ret ∧
      FindsOffset found fields pos
  | .hole, _ => False

def Statement.AreFound : List Statement → List Json → Prop
  | [], [] => True
  | s :: ss, j :: js => s.IsFound j ∧ AreFound ss js
  | _, _ => False

end

def Program.IsFound (p : Program) (j : Json) : Prop :=
  ∃ b members b' fields a elements, j = .object b members ∧
    found members "SourceFile" (.object b' fields) ∧
    found fields "StatementList" (.array a elements) ∧
    Statement.AreFound found p.statements (elements.map Prod.snd) ∧
    FindsPosition found fields p.pos

end

/-- The document is one of those that the program may be written as. -/
abbrev Program.IsWrittenAs (p : Program) (j : Json) : Prop := p.IsFound Has j

/-! ## Reading it back -/

namespace Wire

section

variable {α : Type} (key left right : String) (why : ScanError → DecodeError) (ofLiteral : Text → α)
  (ofPair : Text → Text → α) (unknown : DecodeError)

/-- A literal, or else the two tokens in the object under a key. -/
def choice (t : Text) : Except DecodeError α :=
  match field "Literal" t with
  | some literal => explain why ((getString ["source"] literal).map ofLiteral)
  | none =>
    match field key t with
    | some pair => do
      let name ← token left pair
      let name' ← token right pair
      return ofPair name name'
    | none => throw unknown

end

theorem initializer_eq_choice (name t : Text) :
    initializer name t = choice "CallExpression" "FunctionName" "FunctionArgument"
      (.badLiteral name) .literal .call (.unknownValue name t) t :=
  rfl

theorem returnExpr_eq_choice (name t : Text) :
    returnExpr name t = (explain (.noReturn name) (get ["ReturnStatement", "ReturnValue"] t) >>=
      fun v => choice "PlusExpression" "Left" "Right" (.badReturn name) .name .sum
        (.unknownReturn name v.text) v.text) :=
  rfl

theorem position_of_notFound {path : List Text} {t : Text}
    (h : Wire.get path t = .error .keyNotFound) : position path t = .ok 0 := by
  unfold position getInt
  rw [h]
  rfl

section

variable {t : Text} {members : List (Heading × Json)} (ht : IsObject t members)
include ht

theorem token_of_finds {key : String} (hkey : isAscii key = true) {name : Text}
    (h : FindsToken Leads members key name) : token key t = .ok name := by
  obtain ⟨blanks, fields, s, hobject, hsource, hs⟩ := h
  obtain ⟨rest, hget⟩ := get_of_leads_leads ht hkey (by decide) hobject hsource
  unfold token
  rw [getString_of_get hs hget]
  rfl

theorem field_of_notTaken {key : String} (hkey : isAscii key = true)
    (h : NotTaken Leads members key) : field key t = none := by
  rcases h with h | h
  · exact field_of_unled ht hkey h
  · exact field_of_null ht hkey h

section

variable {α : Type} {key left right : String} {why : ScanError → DecodeError} {ofLiteral : Text → α}
  {ofPair : Text → Text → α} {unknown : DecodeError}

theorem choice_of_literal {name : Text} (h : FindsToken Leads members "Literal" name) :
    choice key left right why ofLiteral ofPair unknown t = .ok (ofLiteral name) := by
  obtain ⟨blanks, fields, s, hobject, hsource, hs⟩ := h
  obtain ⟨rest, hget⟩ := get_of_leads (isObject_content blanks fields) (by decide) hsource
  simp only [choice, field_of_leads ht (by decide) hobject, getString_of_get hs hget]
  rfl

theorem choice_of_pair (hkey : isAscii key = true) (hleft : isAscii left = true)
    (hright : isAscii right = true) {name name' : Text}
    (h : FindsPair Leads members key left right name name') :
    choice key left right why ofLiteral ofPair unknown t = .ok (ofPair name name') := by
  obtain ⟨hliteral, blanks, fields, hpair, hname, hname'⟩ := h
  have hobject := isObject_content blanks fields
  simp only [choice, field_of_notTaken ht (by decide) hliteral, field_of_leads ht hkey hpair,
    token_of_finds hobject hleft hname, token_of_finds hobject hright hname']
  rfl

end

theorem position_of_finds {pos : Position} (h : FindsPosition Leads members pos) :
    position ["pos"] t = .ok pos := by
  rcases h with ⟨n, hpos, hn⟩ | ⟨hpos, rfl⟩
  · obtain ⟨rest, hget⟩ := get_of_leads ht (by decide) hpos
    unfold position
    rw [getInt_of_get hn hget]
  · exact position_of_notFound (get_of_unled ht (by decide) hpos [])

theorem declarationPosition_of_finds {pos : Position} (h : FindsOffset Leads members pos) :
    declarationPosition t = .ok pos := by
  unfold declarationPosition
  rcases h with ⟨blanks, fields, hoffset, hsole, ⟨n, hpos, hn⟩ | ⟨hpos, rfl⟩⟩ | ⟨hoffset, rfl⟩
  · obtain ⟨rest, hget⟩ := get_of_leads_leads ht (by decide) (by decide) hoffset hpos
    unfold position
    rw [getInt_of_get hn hget]
  · exact position_of_notFound
      (get_of_leads_unled ht (by decide) (by decide) hoffset hsole hpos)
  · exact position_of_notFound (get_of_unled ht (by decide) hoffset ["pos"])

theorem initializer_of_finds (name : Text) {value : Initializer}
    (h : FindsInitializer Leads members value) : initializer name t = .ok value := by
  rw [initializer_eq_choice]
  cases value with
  | literal lexeme => exact choice_of_literal ht h
  | call callee argument => exact choice_of_pair ht (by decide) (by decide) (by decide) h
  | hole => exact h.elim

theorem definition_of_finds {name : Text} {value : Initializer} {pos : Position} {b : Blanks}
    {values : List (Heading × Json)} (hname : FindsToken Leads members "VariableName" name)
    (hvalues : Leads members "VariableValue" (.object b values))
    (hvalue : FindsInitializer Leads values value) (hpos : FindsOffset Leads members pos) :
    definition t = .ok (.define name value pos) := by
  obtain ⟨rest, hget⟩ := get_of_leads ht (by decide) hvalues
  have hinitializer := initializer_of_finds (isObject_content b values) name hvalue
  simp only [definition, token_of_finds ht (by decide) hname, hget, explain, bind, Except.bind,
    hinitializer, declarationPosition_of_finds ht hpos]
  rfl

theorem returnExpr_of_finds (name : Text) {ret : ReturnExpr} {r v : Blanks}
    {returned values : List (Heading × Json)}
    (hreturned : Leads members "ReturnStatement" (.object r returned))
    (hvalues : Leads returned "ReturnValue" (.object v values))
    (hret : FindsReturn Leads values ret) : returnExpr name t = .ok ret := by
  obtain ⟨rest, hget⟩ := get_of_leads_leads ht (by decide) (by decide) hreturned hvalues
  have hobject := isObject_content v values
  rw [returnExpr_eq_choice, hget]
  cases ret with
  | name x => exact choice_of_literal hobject hret
  | sum left right => exact choice_of_pair hobject (by decide) (by decide) (by decide) hret
  | hole => exact hret.elim

theorem outline_of_finds {name parameter : Text} {b a : Blanks} {inner : List (Heading × Json)}
    {elements : List (Padding × Json)} (hname : FindsToken Leads members "FunctionName" name)
    (hparameter : FindsToken Leads members "FunctionParameter" parameter)
    (hbody : Leads members "FunctionBody" (.object b inner))
    (hlist : Leads inner "StatementList" (.array a elements)) :
    outline t = .ok
      { name
        parameter
        body := (Json.object b inner).content
        statements := elements.map (·.2.content) } := by
  obtain ⟨rest, hget⟩ := get_of_leads ht (by decide) hbody
  have helements := elements_of_leads (isObject_content b inner) (by decide) hlist
  simp only [outline, statementTexts, token_of_finds ht (by decide) hname,
    token_of_finds ht (by decide) hparameter, hget, explain, bind, Except.bind, helements]
  rfl

end

/-- The statements of a body are read like any others. -/
theorem statement_of_outline {t v : Text} {o : Outline} {ret : ReturnExpr} {pos : Position}
    {body : List Statement} (hvariable : field "VariableDeclaration" t = none)
    (hfunction : field "FunctionDeclaration" t = some v) (houtline : outline v = .ok o)
    (hbody : o.statements.mapM statement = .ok body) (hret : returnExpr o.name o.body = .ok ret)
    (hpos : declarationPosition v = .ok pos) :
    statement t = .ok (.function o.name o.parameter body ret pos) := by
  rw [statement_of_function hvariable hfunction, houtline]
  simp only [bind, Except.bind, hbody, hret, hpos]
  rfl

mutual

theorem statement_of_isFound :
    ∀ (s : Statement) (j : Json), s.IsFound Leads j → statement j.content = .ok s
  | .define name value pos, j, h => by
    obtain ⟨b, members, b', fields, b'', values, rfl, hfields, hname, hvalues, hvalue, hpos⟩ := h
    rw [statement, field_of_leads (isObject_content b members) (by decide) hfields]
    exact definition_of_finds (isObject_content b' fields) hname hvalues hvalue hpos
  | .function name parameter body ret pos, j, h => by
    obtain ⟨b, members, b', fields, b'', inner, a, elements, r, returned, v, values, rfl, hvariable,
      hfields, hname, hparameter, hinner, hlist, hbody, hreturned, hvalues, hret, hpos⟩ := h
    have hobject := isObject_content b members
    have hobject' := isObject_content b' fields
    have hstatements := statements_of_areFound body (elements.map Prod.snd) hbody
    rw [List.map_map] at hstatements
    exact statement_of_outline (field_of_notTaken hobject (by decide) hvariable)
      (field_of_leads hobject (by decide) hfields)
      (outline_of_finds hobject' hname hparameter hinner hlist) hstatements
      (returnExpr_of_finds (isObject_content b'' inner) name hreturned hvalues hret)
      (declarationPosition_of_finds hobject' hpos)
  | .hole, _, h => h.elim

theorem statements_of_areFound :
    ∀ (ss : List Statement) (js : List Json), Statement.AreFound Leads ss js →
      (js.map content).mapM statement = .ok ss
  | [], [], _ => rfl
  | s :: ss, j :: js, h => by
    rw [List.map_cons, List.mapM_cons, statement_of_isFound s j h.1,
      statements_of_areFound ss js h.2]
    rfl
  | [], _ :: _, h => h.elim
  | _ :: _, [], h => h.elim

end

end Wire

theorem Program.decode_of_isFound {p : Program} {j : Json} (h : p.IsFound Leads j)
    (before after : Blanks) : Program.decode (before.text ++ (j.text ++ after.text)) = .ok p := by
  obtain ⟨b, members, b', fields, a, elements, rfl, hfields, hlist, hstatements, hpos⟩ := h
  have hobject : IsObject (before.text ++ ((Json.object b members).text ++ after.text)) members :=
    ⟨before, b, after, rfl⟩
  have hobject' := isObject_content b' fields
  obtain ⟨rest, hget⟩ := get_of_leads hobject (by decide) hfields
  have helements := elements_of_leads hobject' (by decide) hlist
  have hread := Wire.statements_of_areFound p.statements (elements.map Prod.snd) hstatements
  rw [List.map_map] at hread
  have hread : (elements.map (·.2.content)).mapM Wire.statement = .ok p.statements := hread
  unfold Program.decode Wire.statementTexts
  simp only [hget, Wire.explain, bind, Except.bind, helements, hread,
    Wire.position_of_finds hobject' hpos]
  rfl

end Stepwise
