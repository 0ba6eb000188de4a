/-
What look-ups find in JSON.

A search goes through the members of an object and over their values; a member with another name
changes nothing (`search_other`), unless its name cannot be read, where the search ends
(`search_illegible`).  So a search comes to the member that it is for, or to the end of the object,
or to no end at all (`search_cases`).  `get` gives the value of the member that it comes to
(`get_of_leads`), whatever else there is, and a member of a member by a path of two names; and
conversely what `get` gives has been come to (`found_of_get`).
-/
import Stepwise.Proofs.Json.Spelling

namespace Stepwise
namespace Json

open Text Wire

/-! ## Searches -/

section

variable {path : List Text} {c : Cursor}

theorem search_bare {t : Text} (h : Bare t) (rest : Text) :
    search path c (t ++ rest) = search path c rest := by
  induction t with
  | nil => rfl
  | cons b t ih =>
    obtain ⟨hb, ht⟩ := List.forall_mem_cons.mp h
    simp only [List.mem_cons, List.not_mem_nil, or_false, not_or] at hb
    obtain ⟨hquote, hopen, hclose, hbracket, -, hcolon⟩ := hb
    rw [List.cons_append, search, if_neg hquote, if_neg hopen, if_neg hclose, if_neg hbracket,
      if_neg hcolon]
    exact ih ht

theorem search_end {t : Text} (h : Bare t) : search path c t = none := by
  have hend : search path c (t ++ []) = search path c [] := search_bare h []
  rw [List.append_nil] at hend
  rw [hend, search]

/-- An object that is searched. -/
theorem search_object (hc : c.matched = true) (blanks : Blanks) (members : List (Heading × Json))
    (t : Text) :
    search path c ((object blanks members).text ++ t) =
      search path c.openBrace (membersText members ++ closeBrace :: t) := by
  have htext : (object blanks members).text ++ t =
      openBrace :: (blanks.text ++ (membersText members ++ closeBrace :: t)) := by
    simp [text]
  rw [htext, search, if_neg (by decide), if_pos rfl, if_pos hc, search_bare blanks.bare]

theorem search_closeBrace (t : Text) :
    search path c (closeBrace :: t) = search path c.closeBrace t := by
  rw [search, if_neg (by decide), if_neg (by decide), if_pos rfl]

theorem search_block {opening closing : UInt8} {j : Json} (hpair : IsPair opening closing)
    (hj : IsBlock opening closing j) (hc : opening = openBrace → c.matched = false) (rest : Text) :
    search path c (j.text ++ rest) = search path c rest := by
  obtain ⟨t, ht, htext⟩ := hj
  have hblock := takeBlock_enclosed hpair ht rest
  rw [htext]
  rcases hpair with ⟨rfl, rfl⟩ | ⟨rfl, rfl⟩
  · rw [search, if_neg (by decide), if_pos rfl, hc rfl, if_neg (by decide)]
    split
    · rename_i hnone
      cases hblock.symm.trans hnone
    · rename_i s rest' hsome
      cases hblock.symm.trans hsome
      rfl
  · rw [search, if_neg (by decide), if_neg (by decide), if_neg (by decide), if_pos rfl]
    split
    · rename_i hnone
      cases hblock.symm.trans hnone
    · rename_i s rest' hsome
      cases hblock.symm.trans hsome
      rfl

theorem search_skipBlanks (t : Text) : search path c (skipBlanks t) = search path c t := by
  have hbare : Bare (t.takeWhile isBlank) := by
    intro b hb
    have hblank : isBlank b = true := List.all_eq_true.mp List.all_takeWhile b hb
    simp only [isBlank, Bool.or_eq_true, decide_eq_true_eq] at hblank
    rcases hblank with ((rfl | rfl) | rfl) | rfl <;> decide
  have hsplit : t = t.takeWhile isBlank ++ skipBlanks t := (List.takeWhile_append_dropWhile).symm
  conv => rhs; rw [hsplit]
  exact (search_bare hbare _).symm

/-- A string that is no name. -/
theorem search_string {s : List Piece} {rest : Text} (h : (skipBlanks rest).head? ≠ some colon) :
    search path c (quoted s ++ rest) = search path c rest := by
  have htext : quoted s ++ rest = quote :: (spelling s ++ quote :: rest) := by
    simp [quoted]
  have hstring := takeString_quoted s rest
  rw [htext, search, if_pos rfl]
  split
  · rename_i hnone
    cases hstring.symm.trans hnone
  · rename_i s' rest' hsome
    cases hstring.symm.trans hsome
    rw [← search_skipBlanks rest]
    split
    · rename_i hnil
      rw [hnil, search]
    · rename_i b t hcons
      have hb : b ≠ colon := by
        rintro rfl
        rw [hcons] at h
        exact h rfl
      rw [if_neg hb, hcons]

/-- The name of a member. -/
theorem search_name (s : List Piece) (blanks : Blanks) (t : Text) :
    search path c (quoted s ++ (blanks.text ++ colon :: t)) =
      ((keyOf (spelling s)).bind (c.readKey path)).bind fun c' =>
        if c.found < c'.found && c'.found = path.length then some t else search path c' t := by
  have htext : quoted s ++ (blanks.text ++ colon :: t) =
      quote :: (spelling s ++ quote :: (blanks.text ++ colon :: t)) := by
    simp [quoted]
  have hstring := takeString_quoted s (blanks.text ++ colon :: t)
  have hcolon : skipBlanks (blanks.text ++ colon :: t) = colon :: t := by
    rw [skipBlanks_blanks, skipBlanks_cons (by decide)]
  rw [htext, search, if_pos rfl]
  split
  · rename_i hnone
    cases hstring.symm.trans hnone
  · rename_i s' rest' hsome
    cases hstring.symm.trans hsome
    split
    · rename_i hnil
      cases hcolon.symm.trans hnil
    · rename_i b t' hcons
      cases hcolon.symm.trans hcons
      rw [if_pos rfl]
      cases (keyOf (spelling s)).bind (c.readKey path) <;> rfl

/-- The value of a member with another name is passed over. -/
theorem search_value (hc : c.matched = false) (j : Json) {rest : Text}
    (h : (skipBlanks rest).head? ≠ some colon) :
    search path c (j.text ++ rest) = search path c rest := by
  cases j with
  | word w => exact search_bare (bare_of_isTokenByte w.isTokenByte) rest
  | number n => exact search_bare (bare_of_isTokenByte n.isTokenByte) rest
  | string s => exact search_string h
  | array inner elements =>
    exact search_block (.inr ⟨rfl, rfl⟩) (isBlock_array inner elements) (fun _ => hc) rest
  | object inner members =>
    exact search_block (.inl ⟨rfl, rfl⟩) (isBlock_object inner members) (fun _ => hc) rest

/-- What follows the value of a member. -/
def afterValue (h : Heading) (rest : List (Heading × Json)) (t : Text) : Text :=
  h.after.text ++ (separator rest ++ (membersText rest ++ closeBrace :: t))

theorem membersText_cons (h : Heading) (j : Json) (rest : List (Heading × Json)) (t : Text) :
    membersText ((h, j) :: rest) ++ closeBrace :: t =
      h.before.text ++ (quoted h.name ++ (h.beforeColon.text ++ (colon :: (h.afterColon.text ++
        (j.text ++ afterValue h rest t))))) := by
  simp [membersText, afterValue]

/-- It begins, behind blanks, with a comma or with the brace that closes the object. -/
theorem afterValue_eq (h : Heading) (rest : List (Heading × Json)) (t : Text) :
    ∃ b t', (b = comma ∨ b = closeBrace) ∧ afterValue h rest t = h.after.text ++ b :: t' := by
  cases rest with
  | nil => exact ⟨closeBrace, t, .inr rfl, rfl⟩
  | cons m rest => exact ⟨comma, membersText (m :: rest) ++ closeBrace :: t, .inl rfl, rfl⟩

theorem endsValue_afterValue (h : Heading) (rest : List (Heading × Json)) (t : Text) :
    EndsValue (afterValue h rest t) := by
  obtain ⟨b, t', hb, heq⟩ := afterValue_eq h rest t
  rw [heq]
  refine h.after.endsValue (endsValue_cons ?_ t')
  rcases hb with rfl | rfl <;> decide

theorem head?_afterValue (h : Heading) (rest : List (Heading × Json)) (t : Text) :
    (skipBlanks (afterValue h rest t)).head? ≠ some colon := by
  obtain ⟨b, t', hb, heq⟩ := afterValue_eq h rest t
  rw [heq, skipBlanks_blanks]
  rcases hb with rfl | rfl
  · rw [skipBlanks_cons (by decide)]
    exact nofun
  · rw [skipBlanks_cons (by decide)]
    exact nofun

theorem search_afterValue (h : Heading) (rest : List (Heading × Json)) (t : Text) :
    search path c (afterValue h rest t) = search path c (membersText rest ++ closeBrace :: t) := by
  unfold afterValue
  rw [search_bare h.after.bare, search_bare (bare_separator rest)]

/-- A search that has found the first `depth` keys of its path, and is among the members of the
object in which the next one is to be found. -/
def among (depth : Nat) (matched : Bool) : Cursor :=
  { level := depth + 1, found := depth, matched }

/-- A search that has found one more, and is before the value. -/
def before (depth : Nat) : Cursor :=
  { level := depth + 1, found := depth + 1, matched := true }

/-- At a name that cannot be read the search ends. -/
theorem search_illegible {h : Heading} (hname : ¬ h.IsLegible) (j : Json)
    (rest : List (Heading × Json)) (t : Text) :
    search path c (membersText ((h, j) :: rest) ++ closeBrace :: t) = none := by
  rw [membersText_cons, search_bare h.before.bare, search_name, keyOf_of_illegible hname]
  rfl

theorem search_left (depth : Nat) (matched : Bool) (t : Text) :
    search path (among (depth + 1) matched) (closeBrace :: t) =
      search path (among depth matched) t := by
  have hclose : (among (depth + 1) matched).closeBrace = among depth matched := by
    simp [among, Cursor.closeBrace]
  rw [search_closeBrace, hclose]

variable {depth : Nat} {key : Text} (hkey : path[depth]? = some key)

section

include hkey

theorem readKey_among (matched : Bool) (name : Text) :
    (among depth matched).readKey path name =
      some (if name = key then before depth else among depth false) := by
  obtain ⟨hlt, -⟩ := List.getElem?_eq_some_iff.mp hkey
  have hlevel : ¬ (decide ((among depth matched).level < 1) ||
      decide ((path.length : Int) < (among depth matched).level)) = true := by
    rw [Bool.or_eq_true]
    rintro (h | h)
    · have h : (depth : Int) + 1 < 1 := of_decide_eq_true h
      omega
    · have h : (path.length : Int) < depth + 1 := of_decide_eq_true h
      omega
  have hindex : ((among depth matched).level - 1).toNat = depth := by
    simp only [among]
    omega
  unfold Cursor.readKey
  rw [if_neg hlevel, hindex, hkey]
  by_cases hname : name = key
  · rw [hname, if_pos rfl, if_pos rfl]
    simp [among, before]
  · rw [if_neg (fun h => hname (Option.some.inj h).symm), if_neg hname]
    simp [among]

/-- The name that the search is for. -/
theorem search_own {h : Heading} (hname : Spells h.name key) (j : Json) (matched : Bool)
    (rest : List (Heading × Json)) (t : Text) :
    search path (among depth matched) (membersText ((h, j) :: rest) ++ closeBrace :: t) =
      if depth + 1 = path.length then some (h.afterColon.text ++ (j.text ++ afterValue h rest t))
      else search path (before depth) (j.text ++ afterValue h rest t) := by
  have hread := readKey_among hkey matched key
  rw [if_pos rfl] at hread
  rw [membersText_cons, search_bare h.before.bare, search_name, keyOf_spelling hname,
    Option.bind_some, hread, Option.bind_some]
  by_cases hlast : depth + 1 = path.length
  · have hfound : (depth : Int) < depth + 1 := by omega
    have hall : (depth : Int) + 1 = path.length := by omega
    rw [if_pos hlast, if_pos]
    exact (Bool.and_eq_true _ _).mpr ⟨decide_eq_true hfound, decide_eq_true hall⟩
  · rw [if_neg hlast, if_neg, search_bare h.afterColon.bare]
    intro hboth
    have hall : (depth : Int) + 1 = path.length :=
      of_decide_eq_true ((Bool.and_eq_true _ _).mp hboth).2
    omega

end

variable (hascii : isAscii key = true)
include hkey hascii

/-- A member with another name changes nothing. -/
theorem search_other {h : Heading} (hlegible : h.IsLegible) (hname : ¬ Spells h.name key)
    (j : Json) (matched : Bool) (rest : List (Heading × Json)) (t : Text) :
    search path (among depth matched) (membersText ((h, j) :: rest) ++ closeBrace :: t) =
      search path (among depth false) (membersText rest ++ closeBrace :: t) := by
  obtain ⟨name, hread⟩ := keyOf_of_legible hlegible
  have hne : name ≠ key := by
    rintro rfl
    exact hname (spells_of_keyOf hascii hread)
  have hother := readKey_among hkey matched name
  rw [if_neg hne] at hother
  rw [membersText_cons, search_bare h.before.bare, search_name, hread, Option.bind_some, hother,
    Option.bind_some, if_neg (by simp [among]), search_bare h.afterColon.bare,
    search_value rfl j (head?_afterValue h rest t), search_afterValue]

theorem search_past {before : List (Heading × Json)} (hbefore : Lacks before key)
    (hlegible : ∀ m ∈ before, m.1.IsLegible) :
    ∀ matched, ∃ matched', ∀ after t,
      search path (among depth matched) (membersText (before ++ after) ++ closeBrace :: t) =
        search path (among depth matched') (membersText after ++ closeBrace :: t) := by
  induction before with
  | nil => exact fun matched => ⟨matched, fun _ _ => rfl⟩
  | cons m before ih =>
    intro matched
    obtain ⟨hname, hbefore⟩ := List.forall_mem_cons.mp hbefore
    obtain ⟨hlegible, hlegible'⟩ := List.forall_mem_cons.mp hlegible
    obtain ⟨matched', hpast⟩ := ih hbefore hlegible' false
    refine ⟨matched', fun after t => ?_⟩
    rw [List.cons_append, search_other hkey hascii hlegible hname, hpast]

/-- A search comes to the key, or to the end of an object that lacks it, or it ends at a name. -/
theorem search_cases (members : List (Heading × Json)) :
    (∃ j, Leads members key j) ∨
    (Lacks members key ∧ ∀ matched, ∃ matched', ∀ t,
      search path (among depth matched) (membersText members ++ closeBrace :: t) =
        search path (among depth matched') (closeBrace :: t)) ∨
    ∀ matched t,
      search path (among depth matched) (membersText members ++ closeBrace :: t) = none := by
  induction members with
  | nil => exact .inr (.inl ⟨nofun, fun matched => ⟨matched, fun _ => rfl⟩⟩)
  | cons m rest ih =>
    obtain ⟨h, j⟩ := m
    by_cases hname : Spells h.name key
    · exact .inl ⟨j, [], h, rest, rfl, hname, nofun, nofun⟩
    · by_cases hlegible : h.IsLegible
      · rcases ih with ⟨j', hleads⟩ | ⟨hlacks, hend⟩ | hnone
        · obtain ⟨before, h', after, rfl, hname', hbefore, hbefore'⟩ := hleads
          exact .inl ⟨j', (h, j) :: before, h', after, rfl, hname',
            List.forall_mem_cons.mpr ⟨hname, hbefore⟩,
            List.forall_mem_cons.mpr ⟨hlegible, hbefore'⟩⟩
        · refine .inr (.inl ⟨List.forall_mem_cons.mpr ⟨hname, hlacks⟩, fun matched => ?_⟩)
          obtain ⟨matched', hend⟩ := hend false
          refine ⟨matched', fun t => ?_⟩
          rw [search_other hkey hascii hlegible hname, hend]
        · refine .inr (.inr fun matched t => ?_)
          rw [search_other hkey hascii hlegible hname, hnone]
      · exact .inr (.inr fun matched t => search_illegible hlegible j rest t)

/-- Where the search does not come to the key, it comes to the end of the object or to none. -/
theorem search_unled {members : List (Heading × Json)} (h : ∀ j, ¬ Leads members key j)
    (matched : Bool) (t : Text) :
    search path (among depth matched) (membersText members ++ closeBrace :: t) = none ∨
    ∃ matched', search path (among depth matched) (membersText members ++ closeBrace :: t) =
      search path (among depth matched') (closeBrace :: t) := by
  rcases search_cases hkey hascii members with ⟨j, hj⟩ | ⟨-, hend⟩ | hnone
  · exact absurd hj (h j)
  · obtain ⟨matched', hend⟩ := hend matched
    exact .inr ⟨matched', hend t⟩
  · exact .inl (hnone matched t)

/-- A member that is there but is not come to. -/
theorem search_missed {members : List (Heading × Json)} {j : Json} (h : Has members key j)
    (hleads : ∀ j, ¬ Leads members key j) (matched : Bool) (t : Text) :
    search path (among depth matched) (membersText members ++ closeBrace :: t) = none := by
  rcases search_cases hkey hascii members with ⟨j', hj'⟩ | ⟨hlacks, -⟩ | hnone
  · exact absurd hj' (hleads j')
  · exact absurd h hlacks.not_has
  · exact hnone matched t

/-- The last key of a path is found where a member has it. -/
theorem search_found {members : List (Heading × Json)} {j : Json} (h : Leads members key j)
    (hlast : depth + 1 = path.length) (matched : Bool) (t : Text) :
    ∃ (blanks : Blanks) (rest : Text), EndsValue rest ∧
      search path (among depth matched) (membersText members ++ closeBrace :: t) =
        some (blanks.text ++ (j.text ++ rest)) := by
  obtain ⟨before, h, after, rfl, hname, hbefore, hlegible⟩ := h
  obtain ⟨matched', hpast⟩ := search_past hkey hascii hbefore hlegible matched
  refine ⟨h.afterColon, afterValue h after t, endsValue_afterValue h after t, ?_⟩
  rw [hpast, search_own hkey hname, if_pos hlast]

/-- Another key leads into the object that the member has for its value. -/
theorem search_entered {before after fields : List (Heading × Json)} {h : Heading}
    {blanks : Blanks} (hname : Spells h.name key) (hbefore : Lacks before key)
    (hlegible : ∀ m ∈ before, m.1.IsLegible) (hmore : depth + 1 < path.length) (matched : Bool)
    (t : Text) :
    search path (among depth matched)
        (membersText (before ++ (h, object blanks fields) :: after) ++ closeBrace :: t) =
      search path (among (depth + 1) true)
        (membersText fields ++ closeBrace :: afterValue h after t) := by
  obtain ⟨matched', hpast⟩ := search_past hkey hascii hbefore hlegible matched
  have hopen : (Json.before depth).openBrace = among (depth + 1) true := by
    simp [among, Json.before, Cursor.openBrace]
  rw [hpast, search_own hkey hname, if_neg (Nat.ne_of_lt hmore), search_object rfl, hopen]

end

/-! ## Elements -/

theorem text_eq_cons (j : Json) :
    ∃ b t, j.text = b :: t ∧ isBlank b = false ∧ b ≠ closeBracket := by
  cases j with
  | word w => cases w <;> exact ⟨_, _, rfl, by decide, by decide⟩
  | number n =>
    have hdigit : ∀ d : Fin 10, isBlank (digit d) = false ∧ digit d ≠ closeBracket := by decide
    unfold text Number.text Digits.text
    cases n.negative with
    | false => exact ⟨_, _, rfl, (hdigit _).1, (hdigit _).2⟩
    | true => exact ⟨_, _, rfl, by decide, by decide⟩
  | string s => exact ⟨quote, _, rfl, by decide, by decide⟩
  | array blanks elements => exact ⟨openBracket, _, rfl, by decide, by decide⟩
  | object blanks members => exact ⟨openBrace, _, rfl, by decide, by decide⟩

/-- What is skipped before the elements of an array are the blanks before the first one. -/
theorem skipBlanks_elementsText (p : Padding) (j : Json) (es : List (Padding × Json))
    (rest : Text) :
    ∃ b t, skipBlanks (elementsText ((p, j) :: es) ++ closeBracket :: rest) = b :: t ∧
      b ≠ closeBracket ∧ takeElements (b :: t) = .ok (((p, j) :: es).map (·.2.content)) := by
  obtain ⟨b, t, hj, hblank, hne⟩ := text_eq_cons j
  have hbefore : elementsText ((p, j) :: es) ++ closeBracket :: rest =
      p.before.text ++ (elementsText ((⟨.none, p.after⟩, j) :: es) ++ closeBracket :: rest) := by
    simp [elementsText, Blanks.none]
  have hcons : elementsText ((⟨.none, p.after⟩, j) :: es) ++ closeBracket :: rest =
      b :: (t ++ (p.after.text ++ (separator es ++ elementsText es)) ++ closeBracket :: rest) := by
    simp [elementsText, Blanks.none, hj]
  have helements := takeElements_text es rest (⟨.none, p.after⟩, j)
  rw [hcons] at helements
  refine ⟨b, _, ?_, hne, helements⟩
  rw [hbefore, skipBlanks_blanks, hcons, skipBlanks_cons hblank]

/-! ## Look-ups -/

/-- The text is that of an object, with blanks around it. -/
def IsObject (t : Text) (members : List (Heading × Json)) : Prop :=
  ∃ before blanks after : Blanks, t = before.text ++ ((object blanks members).text ++ after.text)

theorem isObject_content (blanks : Blanks) (members : List (Heading × Json)) :
    IsObject (object blanks members).content members :=
  ⟨.none, blanks, .none, (List.append_nil _).symm⟩

section

variable {t : Text} {members fields : List (Heading × Json)} (ht : IsObject t members)
  {blanks : Blanks} {key key' : Text} {j : Json}
include ht

theorem search_isObject (path : List Text) :
    ∃ t', Bare t' ∧
      search path {} t = search path (among 0 true) (membersText members ++ closeBrace :: t') := by
  obtain ⟨before, blanks, after, rfl⟩ := ht
  refine ⟨after.text, after.bare, ?_⟩
  rw [search_bare before.bare, search_object rfl]
  rfl

variable (hkey : isAscii key = true)
include hkey

theorem search_of_leads (h : Leads members key j) :
    ∃ (blanks : Blanks) (rest : Text), EndsValue rest ∧
      search [key] {} t = some (blanks.text ++ (j.text ++ rest)) := by
  have hfirst : [key][0]? = some key := rfl
  obtain ⟨t', -, hsearch⟩ := search_isObject ht [key]
  obtain ⟨blanks, rest, hends, hfound⟩ := search_found hfirst hkey h rfl true t'
  exact ⟨blanks, rest, hends, hsearch.trans hfound⟩

theorem get_of_leads (h : Leads members key j) :
    ∃ rest, Wire.get [key] t = .ok { shape := j.shape, text := j.content, rest } := by
  obtain ⟨blanks, rest, hends, hfound⟩ := search_of_leads ht hkey h
  refine ⟨rest, ?_⟩
  unfold Wire.get
  rw [hfound]
  exact takeItem_text j blanks hends

theorem search_of_unled (h : ∀ j, ¬ Leads members key j) (path : List Text) :
    search (key :: path) {} t = none := by
  have hfirst : (key :: path)[0]? = some key := rfl
  obtain ⟨t', hbare, hsearch⟩ := search_isObject ht (key :: path)
  rw [hsearch]
  rcases search_unled hfirst hkey h true t' with hnone | ⟨matched, hend⟩
  · exact hnone
  · rw [hend, search_closeBrace, search_end hbare]

/-- Where the search does not come to the first key of a path, nothing is found. -/
theorem get_of_unled (h : ∀ j, ¬ Leads members key j) (path : List Text) :
    Wire.get (key :: path) t = .error .keyNotFound := by
  unfold Wire.get
  rw [search_of_unled ht hkey h path]

/-- What is found has been come to. -/
theorem leads_of_get (h : Has members key j) {path : List Text} {i : Item}
    (hget : Wire.get (key :: path) t = .ok i) : Leads members key j := by
  rcases h.leads_or with hleads | hunled
  · exact hleads
  · cases (get_of_unled ht hkey hunled path).symm.trans hget

theorem found_of_get (h : Has members key j) {i : Item} (hget : Wire.get [key] t = .ok i) :
    Leads members key j ∧ i.text = j.content := by
  have hleads := leads_of_get ht hkey h hget
  obtain ⟨rest, hfound⟩ := get_of_leads ht hkey hleads
  cases hfound.symm.trans hget
  exact ⟨hleads, rfl⟩

theorem field_of_leads (h : Leads members key (object blanks fields)) :
    field key t = some (object blanks fields).content := by
  obtain ⟨rest, hget⟩ := get_of_leads ht hkey h
  simp only [field, hget]
  rfl

theorem field_of_unled (h : ∀ j, ¬ Leads members key j) : field key t = none := by
  simp only [field, get_of_unled ht hkey h []]

theorem field_of_null (h : Leads members key (word .null)) : field key t = none := by
  obtain ⟨rest, hget⟩ := get_of_leads ht hkey h
  simp only [field, hget]
  rfl

theorem found_of_field (h : Has members key (object blanks fields)) {v : Text}
    (hfield : field key t = some v) :
    Leads members key (object blanks fields) ∧ v = (object blanks fields).content := by
  rcases h.leads_or with hleads | hunled
  · exact ⟨hleads, Option.some.inj (hfield.symm.trans (field_of_leads ht hkey hleads))⟩
  · cases (field_of_unled ht hkey hunled).symm.trans hfield

/-- The texts of the elements of an array. -/
theorem elements_of_leads {es : List (Padding × Json)} (h : Leads members key (array blanks es)) :
    elements key t = .ok (es.map (·.2.content)) := by
  obtain ⟨blanks', rest, -, hfound⟩ := search_of_leads ht hkey h
  have hstart : ∃ t', skipBlanks t = openBrace :: t' := by
    obtain ⟨before, inner, after, rfl⟩ := ht
    exact ⟨_, (skipBlanks_blanks before _).trans (skipBlanks_cons (by decide) _)⟩
  obtain ⟨t', hstart⟩ := hstart
  have ht' : t.isEmpty = false := by
    cases t with
    | nil => cases hstart
    | cons b t => rfl
  have harray : skipBlanks (blanks'.text ++ ((array blanks es).text ++ rest)) =
      openBracket :: (blanks.text ++ (elementsText es ++ closeBracket :: rest)) := by
    have htext : (array blanks es).text ++ rest =
        openBracket :: (blanks.text ++ (elementsText es ++ closeBracket :: rest)) := by
      simp [text]
    rw [skipBlanks_blanks, htext, skipBlanks_cons (by decide)]
  unfold elements
  rw [ht', hstart, hfound]
  simp only [List.isEmpty_cons, Bool.false_eq_true, if_false, harray, if_true, skipBlanks_blanks]
  cases es with
  | nil =>
    have htext : elementsText [] ++ closeBracket :: rest = closeBracket :: rest := by
      simp [elementsText]
    rw [htext, skipBlanks_cons (by decide)]
    rfl
  | cons e es =>
    obtain ⟨b, s, hskip, hne, helements⟩ := skipBlanks_elementsText e.1 e.2 es rest
    rw [hskip]
    simp only [if_neg hne, helements]

theorem found_of_elements {es : List (Padding × Json)} (h : Has members key (array blanks es))
    {texts : List Text} (helements : elements key t = .ok texts) :
    Leads members key (array blanks es) ∧ texts = es.map (·.2.content) := by
  rcases h.leads_or with hleads | hunled
  · exact ⟨hleads, Except.ok.inj (helements.symm.trans (elements_of_leads ht hkey hleads))⟩
  · unfold elements at helements
    rw [search_of_unled ht hkey hunled] at helements
    split at helements
    · cases helements
    · split at helements
      · cases helements
      · cases helements

/-- The first of two keys leads into an object. -/
theorem search_of_leads_object (h : Leads members key (object blanks fields)) (key' : Text) :
    ∃ before h after t', Bare t' ∧ members = before ++ (h, object blanks fields) :: after ∧
      Spells h.name key ∧ Lacks before key ∧
      search [key, key'] {} t = search [key, key'] (among 1 true)
        (membersText fields ++ closeBrace :: afterValue h after t') := by
  have hfirst : [key, key'][0]? = some key := rfl
  obtain ⟨t', hbare, hsearch⟩ := search_isObject ht [key, key']
  obtain ⟨before, h, after, rfl, hname, hbefore, hlegible⟩ := h
  refine ⟨before, h, after, t', hbare, rfl, hname, hbefore, hsearch.trans ?_⟩
  exact search_entered hfirst hkey hname hbefore hlegible Nat.one_lt_two true t'

variable (hkey' : isAscii key' = true)
include hkey'

theorem get_of_leads_leads (h : Leads members key (object blanks fields))
    (h' : Leads fields key' j) :
    ∃ rest, Wire.get [key, key'] t = .ok { shape := j.shape, text := j.content, rest } := by
  have hsecond : [key, key'][1]? = some key' := rfl
  obtain ⟨-, m, after, t', -, -, -, -, hsearch⟩ := search_of_leads_object ht hkey h key'
  obtain ⟨blanks, rest, hends, hfound⟩ :=
    search_found hsecond hkey' h' rfl true (afterValue m after t')
  refine ⟨rest, ?_⟩
  unfold Wire.get
  rw [hsearch, hfound]
  exact takeItem_text j blanks hends

/-- If the search does not come to the second key, it goes on behind the object. -/
theorem get_of_leads_unled (h : Leads members key (object blanks fields))
    (hsole : Holds members key (object blanks fields)) (h' : ∀ j, ¬ Leads fields key' j) :
    Wire.get [key, key'] t = .error .keyNotFound := by
  have hfirst : [key, key'][0]? = some key := rfl
  have hsecond : [key, key'][1]? = some key' := rfl
  obtain ⟨before, m, after, t', hbare, rfl, hname, hbefore, hsearch⟩ :=
    search_of_leads_object ht hkey h key'
  have hafter : ∀ j, ¬ Leads after key j := by
    obtain ⟨before', m', after', heq, hname', hbefore', hafter'⟩ := hsole
    obtain ⟨-, rfl⟩ := first_unique heq hbefore hname hbefore' hname'
    exact fun j hj => hafter'.not_has hj.has
  unfold Wire.get
  rw [hsearch]
  rcases search_unled hsecond hkey' h' true (afterValue m after t') with hnone | ⟨matched, hend⟩
  · rw [hnone]
  · rw [hend, search_left, search_afterValue]
    rcases search_unled hfirst hkey hafter matched t' with hnone | ⟨matched', hend'⟩
    · rw [hnone]
    · rw [hend', search_closeBrace, search_end hbare]

theorem found_of_get_get (h : Has members key (object blanks fields)) (h' : Has fields key' j)
    {i : Item} (hget : Wire.get [key, key'] t = .ok i) :
    Leads members key (object blanks fields) ∧ Leads fields key' j ∧ i.text = j.content := by
  have hsecond : [key, key'][1]? = some key' := rfl
  have hleads := leads_of_get ht hkey h hget
  refine ⟨hleads, ?_⟩
  rcases h'.leads_or with hleads' | hunled
  · obtain ⟨rest, hfound⟩ := get_of_leads_leads ht hkey hkey' hleads hleads'
    cases hfound.symm.trans hget
    exact ⟨hleads', rfl⟩
  · obtain ⟨-, m, after, t', -, -, -, -, hsearch⟩ := search_of_leads_object ht hkey hleads key'
    have hmissed := search_missed hsecond hkey' h' hunled true (afterValue m after t')
    unfold Wire.get at hget
    rw [hsearch, hmissed] at hget
    cases hget

end

/-- The string behind a path. -/
theorem getString_of_get {path : List Text} {t name rest : Text} {s : List Piece}
    (hs : Spells s name)
    (h : Wire.get path t = .ok { shape := (string s).shape, text := (string s).content, rest }) :
    getString path t = .ok name := by
  unfold getString
  rw [h]
  simp only [content, bind, Except.bind, keyOf_spelling hs]
  rfl

theorem getInt_of_get {path : List Text} {t rest : Text} {n : Number} {i : Int64}
    (hn : n.int? = some i.toInt)
    (h : Wire.get path t = .ok { shape := (number n).shape, text := (number n).content, rest }) :
    getInt path t = .ok i := by
  unfold getInt
  rw [h]
  exact readInt_text hn

end Json
end Stepwise
