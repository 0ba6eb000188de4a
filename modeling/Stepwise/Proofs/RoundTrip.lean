/-
A program that was written as JSON is read back, if all that it is made of can be come to.

The search for a member ends at a name that cannot be read, as if the member were not there.  A
document may have such names, since half of a surrogate pair is good JSON but no character.  So not
every document that a program is written as is decoded to it: what stands behind such a name is
missed.  If a position is missed, then 0 is taken for it without an error.

`written_is_decoded_iff` says that nothing else goes wrong: a document that a program is written as
is decoded to this program exactly if the program is found in it with `Leads`.  This is so if all
names can be read, and every program without holes whose names and lexemes are UTF-8 can be written
like that.
-/
import Stepwise.Proofs.Json.Writing
import Stepwise.Proofs.WireShape

namespace Stepwise

open Json

/-! ## What was read -/

namespace Wire

theorem choice_eq_ok {α : Type} {key left right : String} {why : ScanError → DecodeError}
    {ofLiteral : Text → α} {ofPair : Text → Text → α} {unknown : DecodeError} {t : Text} {a : α}
    (h : choice key left right why ofLiteral ofPair unknown t = .ok a) :
    (∃ v name, field "Literal" t = some v ∧ getString ["source"] v = .ok name ∧
      a = ofLiteral name) ∨
    ∃ v name name', field key t = some v ∧ token left v = .ok name ∧ token right v = .ok name' ∧
      a = ofPair name name' := by
  unfold choice at h
  cases hliteral : field "Literal" t with
  | some v =>
    rw [hliteral] at h
    have hsource := explain_ok h
    cases hname : getString ["source"] v with
    | error e =>
      rw [hname] at hsource
      cases hsource
    | ok name =>
      rw [hname] at hsource
      exact .inl ⟨v, name, rfl, hname, (Except.ok.inj hsource).symm⟩
  | none =>
    rw [hliteral] at h
    cases hpair : field key t with
    | none =>
      rw [hpair] at h
      cases h
    | some v =>
      rw [hpair] at h
      obtain ⟨name, hname, h⟩ := exists_of_bind_eq_ok h
      obtain ⟨name', hname', h⟩ := exists_of_bind_eq_ok h
      exact .inr ⟨v, name, name', rfl, hname, hname', (Except.ok.inj h).symm⟩

theorem definition_eq_ok {t : Text} {s : Statement} (h : definition t = .ok s) :
    ∃ name i value pos, s = .define name value pos ∧ token "VariableName" t = .ok name ∧
      get ["VariableValue"] t = .ok i ∧ initializer name i.text = .ok value ∧
      declarationPosition t = .ok pos := by
  obtain ⟨name, hname, h⟩ := exists_of_bind_eq_ok h
  obtain ⟨i, hi, h⟩ := exists_of_bind_eq_ok h
  obtain ⟨value, hvalue, h⟩ := exists_of_bind_eq_ok h
  obtain ⟨pos, hpos, h⟩ := exists_of_bind_eq_ok h
  exact ⟨name, i, value, pos, (Except.ok.inj h).symm, hname, explain_ok hi, hvalue, hpos⟩

theorem outline_eq_ok {t : Text} {o : Outline} (h : outline t = .ok o) :
    ∃ i, token "FunctionName" t = .ok o.name ∧ token "FunctionParameter" t = .ok o.parameter ∧
      get ["FunctionBody"] t = .ok i ∧ o.body = i.text ∧
      elements "StatementList" i.text = .ok o.statements := by
  obtain ⟨name, hname, h⟩ := exists_of_bind_eq_ok h
  obtain ⟨parameter, hparameter, h⟩ := exists_of_bind_eq_ok h
  obtain ⟨i, hi, h⟩ := exists_of_bind_eq_ok h
  obtain ⟨texts, htexts, h⟩ := exists_of_bind_eq_ok h
  cases h
  exact ⟨i, hname, hparameter, explain_ok hi, rfl, explain_ok htexts⟩

theorem function_eq_ok {t v : Text} {s : Statement}
    (hvariable : field "VariableDeclaration" t = none)
    (hfunction : field "FunctionDeclaration" t = some v) (h : statement t = .ok s) :
    ∃ o body ret pos, s = .function o.name o.parameter body ret pos ∧ outline v = .ok o ∧
      o.statements.mapM statement = .ok body ∧ returnExpr o.name o.body = .ok ret ∧
      declarationPosition v = .ok pos := by
  rw [statement_of_function hvariable hfunction] at h
  obtain ⟨o, ho, h⟩ := exists_of_bind_eq_ok h
  obtain ⟨body, hbody, h⟩ := exists_of_bind_eq_ok h
  obtain ⟨ret, hret, h⟩ := exists_of_bind_eq_ok h
  obtain ⟨pos, hpos, h⟩ := exists_of_bind_eq_ok h
  exact ⟨o, body, ret, pos, (Except.ok.inj h).symm, ho, hbody, hret, hpos⟩

end Wire

/-! ## What was read has been come to -/

section

variable {members : List (Heading × Json)} {key : String}

theorem Misses.leads (h : Misses Has members key) : Misses Leads members key :=
  fun j hj => h j hj.has

theorem NotTaken.leads (h : NotTaken Has members key) : NotTaken Leads members key := by
  rcases h with h | h
  · exact .inl h.leads
  · rcases h.leads_or with hleads | hunled
    · exact .inr hleads
    · exact .inl hunled

end

namespace Wire

section

variable {t : Text} {members : List (Heading × Json)} (ht : IsObject t members)
include ht

theorem findsToken_of_token {key : String} (hkey : isAscii key = true) {name name' : Text}
    (h : FindsToken Has members key name) (hread : token key t = .ok name') :
    FindsToken Leads members key name := by
  obtain ⟨blanks, fields, s, hobject, hsource, hs⟩ := h
  obtain ⟨i, hget, -⟩ := exists_of_bind_eq_ok (explain_ok hread)
  obtain ⟨hobject, hsource, -⟩ := found_of_get_get ht hkey (by decide) hobject hsource hget
  exact ⟨blanks, fields, s, hobject, hsource, hs⟩

theorem findsLiteral_of_field {name name' v : Text} (h : FindsToken Has members "Literal" name)
    (hfield : field "Literal" t = some v) (hread : getString ["source"] v = .ok name') :
    FindsToken Leads members "Literal" name := by
  obtain ⟨blanks, fields, s, hobject, hsource, hs⟩ := h
  obtain ⟨hobject, rfl⟩ := found_of_field ht (by decide) hobject hfield
  obtain ⟨i, hget, -⟩ := exists_of_bind_eq_ok hread
  have hsource := leads_of_get (isObject_content blanks fields) (by decide) hsource hget
  exact ⟨blanks, fields, s, hobject, hsource, hs⟩

theorem findsPair_of_field {key left right : String} (hkey : isAscii key = true)
    (hleft : isAscii left = true) (hright : isAscii right = true) {name name' n n' v : Text}
    (h : FindsPair Has members key left right name name') (hfield : field key t = some v)
    (hread : token left v = .ok n) (hread' : token right v = .ok n') :
    FindsPair Leads members key left right name name' := by
  obtain ⟨hliteral, blanks, fields, hpair, hname, hname'⟩ := h
  obtain ⟨hpair, rfl⟩ := found_of_field ht hkey hpair hfield
  have hobject := isObject_content blanks fields
  exact ⟨hliteral.leads, blanks, fields, hpair, findsToken_of_token hobject hleft hname hread,
    findsToken_of_token hobject hright hname' hread'⟩

theorem findsInitializer_of_initializer {name : Text} {value : Initializer}
    (h : FindsInitializer Has members value) (hread : initializer name t = .ok value) :
    FindsInitializer Leads members value := by
  rw [initializer_eq_choice] at hread
  rcases choice_eq_ok hread with ⟨v, x, hfield, hsource, rfl⟩ | ⟨v, x, y, hfield, hx, hy, rfl⟩
  · exact findsLiteral_of_field ht h hfield hsource
  · exact findsPair_of_field ht (by decide) (by decide) (by decide) h hfield hx hy

theorem findsReturn_of_returnExpr {name : Text} {ret : ReturnExpr} {r v : Blanks}
    {returned values : List (Heading × Json)}
    (hreturned : Has members "ReturnStatement" (.object r returned))
    (hvalues : Has returned "ReturnValue" (.object v values)) (h : FindsReturn Has values ret)
    (hread : returnExpr name t = .ok ret) :
    Leads members "ReturnStatement" (.object r returned) ∧
      Leads returned "ReturnValue" (.object v values) ∧ FindsReturn Leads values ret := by
  rw [returnExpr_eq_choice] at hread
  obtain ⟨i, hi, hread⟩ := exists_of_bind_eq_ok hread
  have hi := explain_ok hi
  obtain ⟨hreturned, hvalues, htext⟩ :=
    found_of_get_get ht (by decide) (by decide) hreturned hvalues hi
  rw [htext] at hread
  refine ⟨hreturned, hvalues, ?_⟩
  have hobject := isObject_content v values
  rcases choice_eq_ok hread with ⟨v, x, hfield, hsource, rfl⟩ | ⟨v, x, y, hfield, hx, hy, rfl⟩
  · exact findsLiteral_of_field hobject h hfield hsource
  · exact findsPair_of_field hobject (by decide) (by decide) (by decide) h hfield hx hy

/-- A position that is missed is taken to be 0. -/
theorem findsPosition_of_position {pos : Position} (h : FindsPosition Has members pos)
    (hread : position ["pos"] t = .ok pos) : FindsPosition Leads members pos := by
  rcases h with ⟨n, hpos, hn⟩ | ⟨hpos, hzero⟩
  · rcases hpos.leads_or with hleads | hunled
    · exact .inl ⟨n, hleads, hn⟩
    · have hzero := position_of_notFound (get_of_unled ht (by decide) hunled [])
      exact .inr ⟨hunled, Except.ok.inj (hread.symm.trans hzero)⟩
  · exact .inr ⟨hpos.leads, hzero⟩

theorem findsOffset_of_declarationPosition {pos : Position} (h : FindsOffset Has members pos)
    (hread : declarationPosition t = .ok pos) : FindsOffset Leads members pos := by
  have hmissed : Wire.get ["offset", "pos"] t = .error .keyNotFound → pos = 0 := fun hget =>
    Except.ok.inj (hread.symm.trans (position_of_notFound hget))
  rcases h with ⟨blanks, fields, hoffset, hsole, hpos⟩ | ⟨hoffset, hzero⟩
  · rcases hoffset.leads_or with hleads | hunled
    · refine .inl ⟨blanks, fields, hleads, hsole, ?_⟩
      rcases hpos with ⟨n, hpos, hn⟩ | ⟨hpos, hzero⟩
      · rcases hpos.leads_or with hleads' | hunled
        · exact .inl ⟨n, hleads', hn⟩
        · have hget := get_of_leads_unled ht (by decide) (by decide) hleads hsole hunled
          exact .inr ⟨hunled, hmissed hget⟩
      · exact .inr ⟨hpos.leads, hzero⟩
    · exact .inr ⟨hunled, hmissed (get_of_unled ht (by decide) hunled ["pos"])⟩
  · exact .inr ⟨hoffset.leads, hzero⟩

end

mutual

theorem isFound_of_statement : ∀ (s : Statement) (j : Json), s.IsFound Has j →
    statement j.content = .ok s → s.IsFound Leads j
  | .define name value pos, j, h, hread => by
    obtain ⟨b, members, b', fields, b'', values, rfl, hfields, hname, hvalues, hvalue, hpos⟩ := h
    have hobject := isObject_content b members
    have hobject' := isObject_content b' fields
    cases hvariable : field "VariableDeclaration" (Json.object b members).content with
    | none =>
      -- Nothing else that can be read is a definition.
      cases hfunction : field "FunctionDeclaration" (Json.object b members).content with
      | none => cases (statement_of_neither hvariable hfunction).symm.trans hread
      | some v =>
        obtain ⟨_, _, _, _, heq, -⟩ := function_eq_ok hvariable hfunction hread
        cases heq
    | some v =>
      obtain ⟨hfields, rfl⟩ := found_of_field hobject (by decide) hfields hvariable
      rw [statement_of_variable hvariable] at hread
      obtain ⟨_, i, _, _, heq, hname', hi, hvalue', hpos'⟩ := definition_eq_ok hread
      cases heq
      obtain ⟨hvalues, htext⟩ := found_of_get hobject' (by decide) hvalues hi
      rw [htext] at hvalue'
      exact ⟨b, members, b', fields, b'', values, rfl, hfields,
        findsToken_of_token hobject' (by decide) hname hname', hvalues,
        findsInitializer_of_initializer (isObject_content b'' values) hvalue hvalue',
        findsOffset_of_declarationPosition hobject' hpos hpos'⟩
  | .function name parameter body ret pos, j, h, hread => by
    obtain ⟨b, members, b', fields, b'', inner, a, elements, r, returned, v, values, rfl, hvariable,
      hfields, hname, hparameter, hinner, hlist, hbody, hreturned, hvalues, hret, hpos⟩ := h
    have hobject := isObject_content b members
    have hobject' := isObject_content b' fields
    have hobject'' := isObject_content b'' inner
    have hnone := field_of_notTaken hobject (by decide) hvariable.leads
    cases hfunction : field "FunctionDeclaration" (Json.object b members).content with
    | none => cases (statement_of_neither hnone hfunction).symm.trans hread
    | some t =>
      obtain ⟨hfields, rfl⟩ := found_of_field hobject (by decide) hfields hfunction
      obtain ⟨o, _, _, _, heq, ho, hbody', hret', hpos'⟩ := function_eq_ok hnone hfunction hread
      cases heq
      obtain ⟨i, hname', hparameter', hi, hi', hlist'⟩ := outline_eq_ok ho
      obtain ⟨hinner, htext⟩ := found_of_get hobject' (by decide) hinner hi
      rw [hi', htext] at hret'
      rw [htext] at hlist'
      obtain ⟨hlist, htexts⟩ := found_of_elements hobject'' (by decide) hlist hlist'
      rw [htexts] at hbody'
      obtain ⟨hreturned, hvalues, hret⟩ :=
        findsReturn_of_returnExpr hobject'' hreturned hvalues hret hret'
      have hbody := areFound_of_statements body (elements.map Prod.snd) hbody
        (by rw [List.map_map]; exact hbody')
      exact ⟨b, members, b', fields, b'', inner, a, elements, r, returned, v, values, rfl,
        hvariable.leads, hfields, findsToken_of_token hobject' (by decide) hname hname',
        findsToken_of_token hobject' (by decide) hparameter hparameter', hinner, hlist, hbody,
        hreturned, hvalues, hret, findsOffset_of_declarationPosition hobject' hpos hpos'⟩
  | .hole, _, h, _ => h.elim

theorem areFound_of_statements : ∀ (ss : List Statement) (js : List Json),
    Statement.AreFound Has ss js → (js.map content).mapM statement = .ok ss →
      Statement.AreFound Leads ss js
  | [], [], _, _ => trivial
  | s :: ss, j :: js, h, hread => by
    rw [List.map_cons, List.mapM_cons] at hread
    obtain ⟨s', hs', hread⟩ := exists_of_bind_eq_ok hread
    obtain ⟨ss', hss', hread⟩ := exists_of_bind_eq_ok hread
    cases hread
    exact ⟨isFound_of_statement s j h.1 hs', areFound_of_statements ss js h.2 hss'⟩
  | [], _ :: _, h, _ => h.elim
  | _ :: _, [], h, _ => h.elim

end

end Wire

theorem Program.isFound_of_decode {p : Program} {j : Json} (h : p.IsFound Has j)
    {before after : Blanks}
    (hread : Program.decode (before.text ++ (j.text ++ after.text)) = .ok p) :
    p.IsFound Leads j := by
  obtain ⟨b, members, b', fields, a, elements, rfl, hfields, hlist, hstatements, hpos⟩ := h
  have hobject : IsObject (before.text ++ ((Json.object b members).text ++ after.text)) members :=
    ⟨before, b, after, rfl⟩
  have hobject' := isObject_content b' fields
  obtain ⟨i, hi, hread⟩ := exists_of_bind_eq_ok hread
  obtain ⟨texts, htexts, hread⟩ := exists_of_bind_eq_ok hread
  obtain ⟨statements, hstatements', hread⟩ := exists_of_bind_eq_ok hread
  obtain ⟨pos, hpos', hread⟩ := exists_of_bind_eq_ok hread
  cases hread
  obtain ⟨hfields, htext⟩ := found_of_get hobject (by decide) hfields (Wire.explain_ok hi)
  rw [htext] at htexts hpos'
  obtain ⟨hlist, rfl⟩ := found_of_elements hobject' (by decide) hlist (Wire.explain_ok htexts)
  have hfound := Wire.areFound_of_statements statements (elements.map Prod.snd) hstatements
    (by rw [List.map_map]; exact hstatements')
  exact ⟨b, members, b', fields, a, elements, rfl, hfields, hlist, hfound,
    Wire.findsPosition_of_position hobject' hpos hpos'⟩

/-! ## If all names can be read -/

theorem FindsToken.of_legible {members : List (Heading × Json)} {key : String} {name : Text}
    (h : FindsToken Has members key name) (hlegible : NamesLegible members) :
    FindsToken Leads members key name := by
  obtain ⟨blanks, fields, s, hobject, hsource, hs⟩ := h
  obtain ⟨hobject, hfields⟩ := hobject.leads_of_legible hlegible
  exact ⟨blanks, fields, s, hobject, (hsource.leads_of_legible hfields).1, hs⟩

theorem FindsPair.of_legible {members : List (Heading × Json)} {key left right : String}
    {name name' : Text} (h : FindsPair Has members key left right name name')
    (hlegible : NamesLegible members) : FindsPair Leads members key left right name name' := by
  obtain ⟨hliteral, blanks, fields, hpair, hname, hname'⟩ := h
  obtain ⟨hpair, hfields⟩ := hpair.leads_of_legible hlegible
  exact ⟨hliteral.leads, blanks, fields, hpair, hname.of_legible hfields,
    hname'.of_legible hfields⟩

theorem FindsInitializer.of_legible {members : List (Heading × Json)} {value : Initializer}
    (h : FindsInitializer Has members value) (hlegible : NamesLegible members) :
    FindsInitializer Leads members value := by
  cases value with
  | literal lexeme => exact FindsToken.of_legible h hlegible
  | call callee argument => exact FindsPair.of_legible h hlegible
  | hole => exact h.elim

theorem FindsReturn.of_legible {members : List (Heading × Json)} {ret : ReturnExpr}
    (h : FindsReturn Has members ret) (hlegible : NamesLegible members) :
    FindsReturn Leads members ret := by
  cases ret with
  | name x => exact FindsToken.of_legible h hlegible
  | sum left right => exact FindsPair.of_legible h hlegible
  | hole => exact h.elim

theorem FindsPosition.of_legible {members : List (Heading × Json)} {pos : Position}
    (h : FindsPosition Has members pos) (hlegible : NamesLegible members) :
    FindsPosition Leads members pos := by
  rcases h with ⟨n, hpos, hn⟩ | ⟨hpos, hzero⟩
  · exact .inl ⟨n, (hpos.leads_of_legible hlegible).1, hn⟩
  · exact .inr ⟨hpos.leads, hzero⟩

theorem FindsOffset.of_legible {members : List (Heading × Json)} {pos : Position}
    (h : FindsOffset Has members pos) (hlegible : NamesLegible members) :
    FindsOffset Leads members pos := by
  rcases h with ⟨blanks, fields, hoffset, hsole, hpos⟩ | ⟨hoffset, hzero⟩
  · obtain ⟨hoffset, hfields⟩ := hoffset.leads_of_legible hlegible
    exact .inl ⟨blanks, fields, hoffset, hsole, hpos.of_legible hfields⟩
  · exact .inr ⟨hoffset.leads, hzero⟩

mutual

theorem Statement.isFound_of_isLegible : ∀ (s : Statement) (j : Json), s.IsFound Has j →
    j.IsLegible → s.IsFound Leads j
  | .define name value pos, j, h, hlegible => by
    obtain ⟨b, members, b', fields, b'', values, rfl, hfields, hname, hvalues, hvalue, hpos⟩ := h
    obtain ⟨hfields, hlegible⟩ := hfields.leads_of_legible hlegible
    obtain ⟨hvalues, hlegible'⟩ := hvalues.leads_of_legible hlegible
    exact ⟨b, members, b', fields, b'', values, rfl, hfields, hname.of_legible hlegible, hvalues,
      hvalue.of_legible hlegible', hpos.of_legible hlegible⟩
  | .function name parameter body ret pos, j, h, hlegible => by
    obtain ⟨b, members, b', fields, b'', inner, a, elements, r, returned, v, values, rfl, hvariable,
      hfields, hname, hparameter, hinner, hlist, hbody, hreturned, hvalues, hret, hpos⟩ := h
    obtain ⟨hfields, hlegible⟩ := hfields.leads_of_legible hlegible
    obtain ⟨hinner, hlegible'⟩ := hinner.leads_of_legible hlegible
    obtain ⟨hlist, helements⟩ := hlist.leads_of_legible hlegible'
    obtain ⟨hreturned, hreturned'⟩ := hreturned.leads_of_legible hlegible'
    obtain ⟨hvalues, hvalues'⟩ := hvalues.leads_of_legible hreturned'
    exact ⟨b, members, b', fields, b'', inner, a, elements, r, returned, v, values, rfl,
      hvariable.leads, hfields, hname.of_legible hlegible, hparameter.of_legible hlegible, hinner,
      hlist, areFound_of_areLegible body elements hbody helements, hreturned, hvalues,
      hret.of_legible hvalues', hpos.of_legible hlegible⟩
  | .hole, _, h, _ => h.elim

theorem Statement.areFound_of_areLegible : ∀ (ss : List Statement) (es : List (Padding × Json)),
    AreFound Has ss (es.map Prod.snd) → AreLegible es → AreFound Leads ss (es.map Prod.snd)
  | [], [], _, _ => trivial
  | s :: ss, (_, j) :: es, h, hlegible =>
    ⟨isFound_of_isLegible s j h.1 hlegible.1, areFound_of_areLegible ss es h.2 hlegible.2⟩
  | [], _ :: _, h, _ => h.elim
  | _ :: _, [], h, _ => h.elim

end

theorem Program.isFound_of_isLegible {p : Program} {j : Json} (h : p.IsFound Has j)
    (hlegible : j.IsLegible) : p.IsFound Leads j := by
  obtain ⟨b, members, b', fields, a, elements, rfl, hfields, hlist, hstatements, hpos⟩ := h
  obtain ⟨hfields, hlegible⟩ := hfields.leads_of_legible hlegible
  obtain ⟨hlist, helements⟩ := hlist.leads_of_legible hlegible
  exact ⟨b, members, b', fields, a, elements, rfl, hfields, hlist,
    Statement.areFound_of_areLegible p.statements elements hstatements helements,
    hpos.of_legible hlegible⟩

/-! ## Every complete program can be written -/

/-- The text is the UTF-8 form of a string of characters. -/
def Text.IsUtf8 (t : Text) : Prop := ∃ s : String, t = s

def Initializer.texts : Initializer → List Text
  | .literal lexeme => [lexeme]
  | .call callee argument => [callee, argument]
  | .hole => []

def ReturnExpr.texts : ReturnExpr → List Text
  | .name x => [x]
  | .sum left right => [left, right]
  | .hole => []

mutual

/-- All names and lexemes, at every depth. -/
def Statement.texts : Statement → List Text
  | .define name value _ => name :: value.texts
  | .function name parameter body ret _ => name :: parameter :: (listTexts body ++ ret.texts)
  | .hole => []

def Statement.listTexts : List Statement → List Text
  | [] => []
  | s :: ss => s.texts ++ listTexts ss

end

def Program.texts (p : Program) : List Text := Statement.listTexts p.statements

def plainToken (s : String) : Json :=
  .object .none (plainMembers [("source", .string (s.toList.map pieceOf))])

def plainPosition (n : Number) : Json := .object .none (plainMembers [("pos", .number n)])

@[simp]
theorem isLegible_plainToken (s : String) : (plainToken s).IsLegible := by
  simp [plainToken, IsLegible]

@[simp]
theorem isLegible_plainPosition (n : Number) : (plainPosition n).IsLegible := by
  simp [plainPosition, IsLegible]

section

variable {fields : List (String × Json)} (hnames : (fields.map Prod.fst).Nodup)
include hnames

theorem has_plainMembers {key : String} {j : Json} (h : (key, j) ∈ fields) :
    Has (plainMembers fields) key j :=
  (holds_plainMembers hnames h).has

theorem findsToken_plainMembers {key s : String} (h : (key, plainToken s) ∈ fields) :
    FindsToken Has (plainMembers fields) key s :=
  ⟨_, _, _, has_plainMembers hnames h, has_plainMembers (by simp) (by simp), spells_name s⟩

theorem findsOffset_plainMembers {n : Number} {pos : Position} (hn : n.int? = some pos.toInt)
    (h : ("offset", plainPosition n) ∈ fields) : FindsOffset Has (plainMembers fields) pos :=
  .inl ⟨_, _, has_plainMembers hnames h, holds_plainMembers hnames h,
    .inl ⟨n, has_plainMembers (by simp) (by simp), hn⟩⟩

end

theorem misses_plainMembers {fields : List (String × Json)} {key : String}
    (h : key ∉ fields.map Prod.fst) : Misses Has (plainMembers fields) key :=
  fun _ => (lacks_plainMembers h).not_has

theorem exists_findsPair (key : String) {left right : String} (hkey : key ≠ "Literal")
    (hne : left ≠ right) {name name' : Text} (hname : name.IsUtf8) (hname' : name'.IsUtf8) :
    ∃ members, FindsPair Has members key left right name name' ∧ NamesLegible members := by
  obtain ⟨s, rfl⟩ := hname
  obtain ⟨s', rfl⟩ := hname'
  let pair := plainMembers [(left, plainToken s), (right, plainToken s')]
  refine ⟨plainMembers [(key, .object .none pair)],
    ⟨.inl (misses_plainMembers ?_), .none, pair, ?_, ?_, ?_⟩, ?_⟩
  · simp [hkey.symm]
  · exact has_plainMembers (by simp) (by simp)
  · exact findsToken_plainMembers (by simp [hne]) (by simp)
  · exact findsToken_plainMembers (by simp [hne]) (by simp)
  · simp [pair, IsLegible]

theorem exists_findsLiteral {name : Text} (h : name.IsUtf8) :
    ∃ members, FindsToken Has members "Literal" name ∧ NamesLegible members := by
  obtain ⟨s, rfl⟩ := h
  exact ⟨plainMembers [("Literal", plainToken s)], findsToken_plainMembers (by simp) (by simp),
    by simp⟩

theorem Initializer.exists_finds {value : Initializer} (hcomplete : value.isComplete = true)
    (hutf8 : ∀ t ∈ value.texts, t.IsUtf8) :
    ∃ values, FindsInitializer Has values value ∧ NamesLegible values := by
  cases value with
  | literal lexeme => exact exists_findsLiteral (hutf8 lexeme (by simp [texts]))
  | call callee argument =>
    exact exists_findsPair "CallExpression" (by decide) (by decide)
      (hutf8 callee (by simp [texts])) (hutf8 argument (by simp [texts]))
  | hole => cases hcomplete

theorem ReturnExpr.exists_finds {ret : ReturnExpr} (hcomplete : ret.isComplete = true)
    (hutf8 : ∀ t ∈ ret.texts, t.IsUtf8) :
    ∃ values, FindsReturn Has values ret ∧ NamesLegible values := by
  cases ret with
  | name x => exact exists_findsLiteral (hutf8 x (by simp [texts]))
  | sum left right =>
    exact exists_findsPair "PlusExpression" (by decide) (by decide)
      (hutf8 left (by simp [texts])) (hutf8 right (by simp [texts]))
  | hole => cases hcomplete

mutual

theorem Statement.exists_isFound : ∀ s : Statement, s.isComplete = true →
    (∀ t ∈ s.texts, t.IsUtf8) → ∃ j, s.IsFound Has j ∧ j.IsLegible
  | .define name value pos, hcomplete, hutf8 => by
    rw [texts, List.forall_mem_cons] at hutf8
    obtain ⟨⟨s, rfl⟩, hvalue⟩ := hutf8
    obtain ⟨values, hvalues, hlegible⟩ := Initializer.exists_finds hcomplete hvalue
    obtain ⟨n, hn⟩ := exists_number pos.toInt
    let fields := plainMembers [("VariableName", plainToken s),
      ("VariableValue", .object .none values), ("offset", plainPosition n)]
    refine ⟨.object .none (plainMembers [("VariableDeclaration", .object .none fields)]),
      ⟨.none, _, .none, fields, .none, values, rfl, ?_, ?_, ?_, hvalues, ?_⟩, ?_⟩
    · exact has_plainMembers (by simp) (by simp)
    · exact findsToken_plainMembers (by simp) (by simp)
    · exact has_plainMembers (by simp) (by simp)
    · exact findsOffset_plainMembers (by simp) hn (by simp)
    · simp [fields, IsLegible, hlegible]
  | .function name parameter body ret pos, hcomplete, hutf8 => by
    rw [texts, List.forall_mem_cons, List.forall_mem_cons, List.forall_mem_append] at hutf8
    rw [isComplete, Bool.and_eq_true] at hcomplete
    obtain ⟨⟨s, rfl⟩, ⟨s', rfl⟩, hbody, hret⟩ := hutf8
    obtain ⟨js, hjs, hjs'⟩ := exists_areFound body hcomplete.1 hbody
    obtain ⟨values, hvalues, hlegible⟩ := ReturnExpr.exists_finds hcomplete.2 hret
    obtain ⟨n, hn⟩ := exists_number pos.toInt
    let returned := plainMembers [("ReturnValue", .object .none values)]
    let inner := plainMembers [("StatementList", .array .none (plainElements js)),
      ("ReturnStatement", .object .none returned)]
    let fields := plainMembers [("FunctionName", plainToken s),
      ("FunctionParameter", plainToken s'), ("FunctionBody", .object .none inner),
      ("offset", plainPosition n)]
    refine ⟨.object .none (plainMembers [("FunctionDeclaration", .object .none fields)]),
      ⟨.none, _, .none, fields, .none, inner, .none, plainElements js, .none, returned, .none,
        values, rfl, .inl (misses_plainMembers (by simp)), ?_, ?_, ?_, ?_, ?_, ?_, ?_, ?_, hvalues,
        ?_⟩, ?_⟩
    · exact has_plainMembers (by simp) (by simp)
    · exact findsToken_plainMembers (by simp) (by simp)
    · exact findsToken_plainMembers (by simp) (by simp)
    · exact has_plainMembers (by simp) (by simp)
    · exact has_plainMembers (by simp) (by simp)
    · rw [map_snd_plainElements]
      exact hjs
    · exact has_plainMembers (by simp) (by simp)
    · exact has_plainMembers (by simp) (by simp)
    · exact findsOffset_plainMembers (by simp) hn (by simp)
    · simpa [fields, inner, returned, IsLegible, hlegible] using hjs'
  | .hole, hcomplete, _ => nomatch hcomplete

theorem Statement.exists_areFound : ∀ ss : List Statement, areComplete ss = true →
    (∀ t ∈ listTexts ss, t.IsUtf8) → ∃ js, AreFound Has ss js ∧ ∀ j ∈ js, j.IsLegible
  | [], _, _ => ⟨[], trivial, nofun⟩
  | s :: ss, hcomplete, hutf8 => by
    rw [listTexts, List.forall_mem_append] at hutf8
    rw [areComplete, Bool.and_eq_true] at hcomplete
    obtain ⟨j, hj, hlegible⟩ := exists_isFound s hcomplete.1 hutf8.1
    obtain ⟨js, hjs, hlegible'⟩ := exists_areFound ss hcomplete.2 hutf8.2
    exact ⟨j :: js, ⟨hj, hjs⟩, List.forall_mem_cons.mpr ⟨hlegible, hlegible'⟩⟩

end

theorem Program.exists_isWrittenAs {p : Program} (hcomplete : p.isComplete = true)
    (hutf8 : ∀ t ∈ p.texts, t.IsUtf8) : ∃ j, p.IsWrittenAs j ∧ j.IsLegible := by
  obtain ⟨js, hjs, hlegible⟩ := Statement.exists_areFound p.statements hcomplete hutf8
  obtain ⟨n, hn⟩ := exists_number p.pos.toInt
  let fields := plainMembers [("StatementList", .array .none (plainElements js)),
    ("pos", .number n)]
  refine ⟨.object .none (plainMembers [("SourceFile", .object .none fields)]),
    ⟨.none, _, .none, fields, .none, plainElements js, rfl, ?_, ?_, ?_, .inl ⟨n, ?_, hn⟩⟩, ?_⟩
  · exact has_plainMembers (by simp) (by simp)
  · exact has_plainMembers (by simp) (by simp)
  · rw [map_snd_plainElements]
    exact hjs
  · exact has_plainMembers (by simp) (by simp)
  · simpa [fields, IsLegible] using hlegible

/-! ## The round trip -/

/-- A document that a program is written as, with any blanks around it, is decoded to the program
exactly if no part of the program stands behind a name that cannot be read.  In particular it is if
all names can be read, at every depth.  A program without holes whose names and lexemes are UTF-8
can be written so. -/
theorem written_is_decoded_iff (p : Program) :
    (∀ j, p.IsWrittenAs j → ∀ before after : Blanks,
      (Program.decode (before.text ++ (j.text ++ after.text)) = .ok p ↔ p.IsFound Leads j)) ∧
    (∀ j, p.IsWrittenAs j → j.IsLegible → ∀ before after : Blanks,
      Program.decode (before.text ++ (j.text ++ after.text)) = .ok p) ∧
    (p.isComplete = true → (∀ t ∈ p.texts, t.IsUtf8) → ∃ j, p.IsWrittenAs j ∧ j.IsLegible) := by
  refine ⟨fun j h before after => ⟨fun hread => ?_, fun hfound => ?_⟩, fun j h hlegible => ?_,
    Program.exists_isWrittenAs⟩
  · exact Program.isFound_of_decode h hread
  · exact Program.decode_of_isFound hfound before after
  · exact Program.decode_of_isFound (Program.isFound_of_isLegible h hlegible)

/-- A member whose name is half of a surrogate pair. -/
def unnamed : Heading × Json := (⟨.none, [byCode 0xd800], .none, .none, .none⟩, .word .null)

theorem unnamed_illegible : ¬ unnamed.1.IsLegible := by
  intro h
  obtain ⟨name, hname⟩ := legible_iff.mp h
  obtain ⟨s, rest, more, hescape, -⟩ := unescape?_backslash hname
  have hnone : Wire.takeEscape [0x75, 0x64, 0x38, 0x30, 0x30] = none := by decide
  cases hnone.symm.trans hescape

/-- A function with a call in its body.  Its name is a character above U+FFFF. -/
def outlandish : Program :=
  { statements := [.function "😀" "x" [.define "y" (.call "x" "x") 0] (.name "y") 0]
    pos := -9223372036854775808 }

namespace Outlandish

def blanks : Blanks := ⟨[Text.newline, Text.tab], by simp⟩

def number : Number :=
  ⟨true, ⟨9, [2, 2, 3, 3, 7, 2, 0, 3, 6, 8, 5, 4, 7, 7, 5, 8, 0, 8]⟩, none, none, by decide⟩

/-- A member that is not read: half of a surrogate pair, and the name that is looked for. -/
def note : Heading × Json :=
  (plainHeading "note", .array blanks (plainElements
    [.string [byCode 0xd83d], .object .none (plainMembers [("SourceFile", .word .null)])]))

/-- The definition in the body, without its position. -/
def definition : Json :=
  .object .none (plainMembers [("VariableDeclaration", .object blanks (plainMembers
    [("VariableValue", .object .none (plainMembers
      [("Literal", .word .null),
       ("CallExpression", .object .none (plainMembers
        [("FunctionArgument", plainToken "x"), ("FunctionName", plainToken "x")]))])),
     ("VariableName", plainToken "y")]))])

/-- The function, without its position. -/
def function : Json :=
  .object .none (plainMembers [("VariableDeclaration", .word .null),
    ("FunctionDeclaration", .object .none (plainMembers
      [("FunctionBody", .object .none (plainMembers
        [("ReturnStatement", .object .none (plainMembers
          [("ReturnValue", .object .none (plainMembers [("Literal", plainToken "y")]))])),
         ("StatementList", .array blanks (plainElements [definition]))])),
       ("FunctionName", .object .none (plainMembers
        [("source", .string [byCode 0xd83d, byCode 0xde00])])),
       ("FunctionParameter", plainToken "x")]))])

/-- The first letter of `SourceFile` is escaped. -/
def members : List (Heading × Json) :=
  [note, (⟨blanks, byCode 0x53 :: "ourceFile".toList.map pieceOf, blanks, .none, blanks⟩,
    .object .none (plainMembers
      [("pos", .number number), ("StatementList", .array .none (plainElements [function]))]))]

def document : Json := .object blanks members

/-- The same with a name that cannot be read, but is not come to. -/
def annotated : Json := .object blanks (members ++ [unnamed])

theorem definition_isFound :
    Statement.IsFound Has (.define "y" (.call "x" "x") 0) definition := by
  refine ⟨_, _, _, _, _, _, rfl, has_plainMembers (by simp) (.head _),
    findsToken_plainMembers (by simp) (.tail _ (.head _)), has_plainMembers (by simp) (.head _),
    ⟨.inr (has_plainMembers (by simp) (.head _)), _, _,
      has_plainMembers (by simp) (.tail _ (.head _)),
      findsToken_plainMembers (by simp) (.tail _ (.head _)),
      findsToken_plainMembers (by simp) (.head _)⟩,
    .inr ⟨misses_plainMembers (by simp), rfl⟩⟩

theorem name_spelled : Spells [byCode 0xd83d, byCode 0xde00] "😀" :=
  .pair (c := '😀') (by decide) (by decide) (by decide) (by decide) (by decide) .nil

theorem function_isFound :
    Statement.IsFound Has (.function "😀" "x" [.define "y" (.call "x" "x") 0] (.name "y") 0)
      function := by
  refine ⟨_, _, _, _, _, _, _, _, _, _, _, _, rfl, .inr (has_plainMembers (by simp) (.head _)),
    has_plainMembers (by simp) (.tail _ (.head _)),
    ⟨_, _, _, has_plainMembers (by simp) (.tail _ (.head _)),
      has_plainMembers (by simp) (.head _), name_spelled⟩,
    findsToken_plainMembers (by simp) (.tail _ (.tail _ (.head _))),
    has_plainMembers (by simp) (.head _), has_plainMembers (by simp) (.tail _ (.head _)),
    ⟨definition_isFound, trivial⟩, has_plainMembers (by simp) (.head _),
    has_plainMembers (by simp) (.head _), findsToken_plainMembers (by simp) (.head _),
    .inr ⟨misses_plainMembers (by simp), rfl⟩⟩

theorem key_spelled : Spells (byCode 0x53 :: "ourceFile".toList.map pieceOf) "SourceFile" :=
  .byCode (c := 'S') (by decide) (spells_name "ourceFile")

theorem document_isWritten : outlandish.IsWrittenAs document := by
  have hnote : Lacks [note] "SourceFile" := by
    intro m hm hspells
    cases List.mem_singleton.1 hm
    exact absurd ((spells_name "note").unique hspells) (by decide)
  exact ⟨_, _, _, _, _, _, rfl, ⟨[note], _, [], rfl, key_spelled, hnote⟩,
    has_plainMembers (by simp) (.tail _ (.head _)), ⟨function_isFound, trivial⟩,
    .inl ⟨number, has_plainMembers (by simp) (.head _), by decide⟩⟩

theorem definition_isLegible : definition.IsLegible := by
  simp [definition, IsLegible]

theorem document_isLegible : document.IsLegible := by
  refine ⟨(spells_name "note").legible, ?_, key_spelled.legible, ?_, trivial⟩
  · simp [IsLegible]
  · simp [function, IsLegible, definition_isLegible]

theorem document_isFound : outlandish.IsFound Leads document :=
  Program.isFound_of_isLegible document_isWritten document_isLegible

theorem annotated_isWritten : outlandish.IsWrittenAs annotated := by
  obtain ⟨_, _, b, fields, a, elements, heq, hfields, hrest⟩ := document_isWritten
  cases heq
  exact ⟨_, _, b, fields, a, elements, rfl, hfields.append _, hrest⟩

theorem annotated_isFound : outlandish.IsFound Leads annotated := by
  obtain ⟨_, _, b, fields, a, elements, heq, hfields, hrest⟩ := document_isFound
  cases heq
  exact ⟨_, _, b, fields, a, elements, rfl, hfields.append _, hrest⟩

end Outlandish

/-- The document is decoded to the program, with blanks around it.  So it is with a name that cannot
be read behind it. -/
theorem outlandish_is_decoded :
    outlandish.IsWrittenAs Outlandish.annotated ∧ outlandish.IsFound Leads Outlandish.annotated ∧
    Program.decode (Outlandish.blanks.text ++ (Outlandish.annotated.text ++
      Outlandish.blanks.text)) = .ok outlandish ∧
    outlandish.IsWrittenAs Outlandish.document ∧ Outlandish.document.IsLegible ∧
    Program.decode (Outlandish.blanks.text ++ (Outlandish.document.text ++
      Outlandish.blanks.text)) = .ok outlandish ∧
    outlandish.isComplete = true ∧ (∀ t ∈ outlandish.texts, t.IsUtf8) ∧
    ∃ j, outlandish.IsWrittenAs j ∧ j.IsLegible := by
  have hcomplete : outlandish.isComplete = true := by decide
  have htexts : outlandish.texts = ["😀", "x", "y", "x", "x", "y"].map Text.ofString := rfl
  have hutf8 : ∀ t ∈ outlandish.texts, t.IsUtf8 := by
    rw [htexts]
    intro t ht
    obtain ⟨s, -, rfl⟩ := List.mem_map.1 ht
    exact ⟨s, rfl⟩
  obtain ⟨hiff, hlegible, hexists⟩ := written_is_decoded_iff outlandish
  exact ⟨Outlandish.annotated_isWritten, Outlandish.annotated_isFound,
    (hiff _ Outlandish.annotated_isWritten _ _).mpr Outlandish.annotated_isFound,
    Outlandish.document_isWritten, Outlandish.document_isLegible,
    hlegible _ Outlandish.document_isWritten Outlandish.document_isLegible _ _,
    hcomplete, hutf8, hexists hcomplete hutf8⟩

/-- A program at position 7. -/
def misplaced : Program := { statements := [], pos := 7 }

namespace Misplaced

def number : Number := ⟨false, ⟨7, []⟩, none, none, by decide⟩

/-- The position stands behind a name that cannot be read. -/
def fields : List (Heading × Json) :=
  plainMembers [("StatementList", .array .none [])] ++
    unnamed :: plainMembers [("pos", .number number)]

def document : Json := .object .none (plainMembers [("SourceFile", .object .none fields)])

theorem unnamed_lacks (name : Text) : Lacks [unnamed] name := by
  intro m hm hspells
  cases List.mem_singleton.1 hm
  exact unnamed_illegible hspells.legible

theorem document_isWritten : misplaced.IsWrittenAs document := by
  have hlist : Lacks (plainMembers [("StatementList", .array .none [])]) "pos" :=
    lacks_plainMembers (by simp)
  have hbefore : Lacks (plainMembers [("StatementList", .array .none [])] ++ [unnamed]) "pos" :=
    List.forall_mem_append.mpr ⟨hlist, unnamed_lacks "pos"⟩
  have hpos : Has fields "pos" (.number number) :=
    ⟨_, plainHeading "pos", [], rfl, spells_name "pos", hbefore⟩
  exact ⟨.none, _, .none, fields, .none, [], rfl, has_plainMembers (by simp) (by simp),
    (has_plainMembers (by simp) (by simp)).append _, trivial, .inl ⟨number, hpos, by decide⟩⟩

theorem document_isFound : Program.IsFound Leads { statements := [], pos := 0 } document := by
  have hpos : Misses Leads fields "pos" :=
    fun j => not_leads_behind (lacks_plainMembers (by simp)) unnamed_illegible
  exact ⟨.none, _, .none, fields, .none, [], rfl, leads_plainMembers (by simp) (by simp),
    (leads_plainMembers (by simp) (by simp)).append _, trivial, .inr ⟨hpos, rfl⟩⟩

end Misplaced

/-- The program is written as a document that is decoded to another program, since the position
stands behind a name that cannot be read. -/
theorem misplaced_is_decoded_otherwise :
    misplaced.isComplete = true ∧ (∀ t ∈ misplaced.texts, t.IsUtf8) ∧
    misplaced.IsWrittenAs Misplaced.document ∧
    Misplaced.document.text =
      "\x7b\"SourceFile\":\x7b\"StatementList\":[],\"\\ud800\":null,\"pos\":7\x7d\x7d" ∧
    Program.decode Misplaced.document.text = .ok { statements := [], pos := 0 } ∧
    Program.decode Misplaced.document.text ≠ .ok misplaced := by
  have hdecode := Program.decode_of_isFound Misplaced.document_isFound .none .none
  have htext : Blanks.none.text ++ (Misplaced.document.text ++ Blanks.none.text) =
      Misplaced.document.text := List.append_nil _
  rw [htext] at hdecode
  refine ⟨by decide, fun t ht => absurd ht List.not_mem_nil, Misplaced.document_isWritten,
    by decide, hdecode, ?_⟩
  rw [hdecode]
  intro heq
  exact absurd (congrArg Program.pos (Except.ok.inj heq)) (by decide)

end Stepwise
