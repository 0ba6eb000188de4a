/-
What was written as a string is read as what it spells, and an integer as its value.

A string that spells nothing is read as something else or not at all.  Which strings can be read is
known exactly (`legible_iff`), and none of them is taken for a name in ASCII that it does not spell
(`spells_of_keyOf`).
-/
import Mathlib.Data.Nat.Digits.Defs
import Stepwise.Proofs.Json.Scanning

namespace Stepwise
namespace Json

open Text Wire

/-! ## Strings -/

theorem hexValue?_byte (d : HexDigit) : hexValue? d.byte = some d.value.val := by
  have hall : ∀ (v : Fin 16) (u : Bool), hexValue? (HexDigit.mk v u).byte = some v.val := by decide
  exact hall d.value d.upper

theorem takeHex_code (d₁ d₂ d₃ d₄ : HexDigit) (t : Text) :
    takeHex 4 0 (d₁.byte :: d₂.byte :: d₃.byte :: d₄.byte :: t) =
      some (codeUnit d₁ d₂ d₃ d₄, t) := by
  simp [takeHex, hexValue?_byte, codeUnit]

theorem ofCode_toNat (c : Char) : ofCode c.toNat = String.utf8EncodeChar c := by
  have hscalar : isScalar c.toNat = true := by
    have hvalid : c.toNat < 0xd800 ∨ 0xdfff < c.toNat ∧ c.toNat < 0x110000 := c.valid
    simp only [isScalar, Bool.or_eq_true, Bool.and_eq_true, decide_eq_true_eq]
    omega
  unfold ofCode
  rw [if_pos hscalar, Char.ofNat_toNat]

theorem takeEscape_letter (e : Escape) (t : Text) :
    takeEscape (e.letter :: t) = some ([e.value], t) := by
  cases e <;> rfl

section

variable {d₁ d₂ d₃ d₄ d₅ d₆ d₇ d₈ : HexDigit}

theorem takeEscape_unit (h : isHalf (codeUnit d₁ d₂ d₃ d₄) = false) (t : Text) :
    takeEscape (0x75 :: d₁.byte :: d₂.byte :: d₃.byte :: d₄.byte :: t) =
      some (ofCode (codeUnit d₁ d₂ d₃ d₄), t) := by
  simp only [takeEscape, if_true, takeHex_code]
  show (if isHalf (codeUnit d₁ d₂ d₃ d₄) = true then _ else _) = _
  rw [h, if_neg (by decide)]

theorem takeEscape_half (h : isHalf (codeUnit d₁ d₂ d₃ d₄) = true) (t : Text) :
    takeEscape (0x75 :: d₁.byte :: d₂.byte :: d₃.byte :: d₄.byte :: t) =
      takeLowHalf (codeUnit d₁ d₂ d₃ d₄) t := by
  simp only [takeEscape, if_true, takeHex_code]
  show (if isHalf (codeUnit d₁ d₂ d₃ d₄) = true then _ else _) = _
  rw [h, if_pos rfl]

theorem takeLowHalf_unit (high : Nat) (b b' : UInt8) (h : 0xdc00 ≤ codeUnit d₅ d₆ d₇ d₈)
    (t : Text) :
    takeLowHalf high (b :: b' :: d₅.byte :: d₆.byte :: d₇.byte :: d₈.byte :: t) =
      some (ofCode (0x10000 + (high - 0xd800) * 0x400 + (codeUnit d₅ d₆ d₇ d₈ - 0xdc00)), t) := by
  simp only [takeLowHalf, takeHex_code]
  show (if codeUnit d₅ d₆ d₇ d₈ < 0xdc00 then _ else _) = _
  rw [if_neg (by omega)]

theorem takeEscape_code {c : Char} (h : c.toNat = codeUnit d₁ d₂ d₃ d₄) (t : Text) :
    takeEscape (0x75 :: d₁.byte :: d₂.byte :: d₃.byte :: d₄.byte :: t) =
      some (String.utf8EncodeChar c, t) := by
  have hvalid : c.toNat < 0xd800 ∨ 0xdfff < c.toNat ∧ c.toNat < 0x110000 := c.valid
  have hhalf : isHalf (codeUnit d₁ d₂ d₃ d₄) = false := by
    simp only [isHalf, Bool.and_eq_false_iff, decide_eq_false_iff_not]
    omega
  rw [takeEscape_unit hhalf, ← h, ofCode_toNat]

theorem takeEscape_pair {c : Char} (h₁ : 0xd800 ≤ codeUnit d₁ d₂ d₃ d₄)
    (h₂ : codeUnit d₁ d₂ d₃ d₄ < 0xdc00) (h₃ : 0xdc00 ≤ codeUnit d₅ d₆ d₇ d₈)
    (hc : c.toNat = 0x10000 + (codeUnit d₁ d₂ d₃ d₄ - 0xd800) * 0x400 +
      (codeUnit d₅ d₆ d₇ d₈ - 0xdc00)) (t : Text) :
    takeEscape (0x75 :: d₁.byte :: d₂.byte :: d₃.byte :: d₄.byte :: backslash :: 0x75 ::
        d₅.byte :: d₆.byte :: d₇.byte :: d₈.byte :: t) = some (String.utf8EncodeChar c, t) := by
  have hhalf : isHalf (codeUnit d₁ d₂ d₃ d₄) = true := by
    simp only [isHalf, Bool.and_eq_true, decide_eq_true_eq]
    omega
  rw [takeEscape_half hhalf, takeLowHalf_unit _ _ _ h₃, ← hc, ofCode_toNat]

end

theorem unescape?_cons {b : UInt8} (h : b ≠ backslash) (t : Text) :
    unescape? (b :: t) = (unescape? t).map (b :: ·) := by
  rw [unescape?, if_neg h]

theorem unescape?_append {s : Text} (h : ∀ b ∈ s, b ≠ backslash) (t : Text) :
    unescape? (s ++ t) = (unescape? t).map (s ++ ·) := by
  induction s with
  | nil => simp
  | cons b s ih =>
    obtain ⟨hb, hs⟩ := List.forall_mem_cons.mp h
    rw [List.cons_append, unescape?_cons hb, ih hs, Option.map_map]
    rfl

theorem unescape?_escape {t s rest : Text} (h : takeEscape t = some (s, rest)) :
    unescape? (backslash :: t) = (unescape? rest).map (s ++ ·) := by
  rw [unescape?, if_pos rfl]
  split
  · rename_i s' rest' h'
    cases h.symm.trans h'
    rfl
  · rename_i h'
    cases h.symm.trans h'

theorem char_plain {c : Char} (hc : 0x20 ≤ c.toNat ∧ c.toNat ≠ 0x22 ∧ c.toNat ≠ 0x5c) :
    ∀ b ∈ String.utf8EncodeChar c, b ≠ backslash := by
  rintro b hb rfl
  rcases mem_utf8EncodeChar hb with h | h
  · exact hc.2.2 h.symm
  · exact absurd h (by decide)

/-- A string is read as what it spells. -/
theorem unescape?_spelling {s : List Piece} {t : Text} (h : Spells s t) :
    unescape? (spelling s) = some t := by
  induction h with
  | nil =>
    show unescape? [] = _
    rw [unescape?]
  | @char s t c hc _ ih =>
    show unescape? (String.utf8EncodeChar c ++ spelling s) = _
    rw [unescape?_append (char_plain hc), ih]
    rfl
  | @escape s t e _ ih =>
    show unescape? (backslash :: e.letter :: spelling s) = _
    rw [unescape?_escape (takeEscape_letter e _), ih]
    rfl
  | @code s t c d₁ d₂ d₃ d₄ hc _ ih =>
    show unescape? (backslash :: 0x75 :: d₁.byte :: d₂.byte :: d₃.byte :: d₄.byte :: spelling s) = _
    rw [unescape?_escape (takeEscape_code hc _), ih]
    rfl
  | @pair s t c d₁ d₂ d₃ d₄ d₅ d₆ d₇ d₈ h₁ h₂ h₃ _ hc _ ih =>
    show unescape? (backslash :: 0x75 :: d₁.byte :: d₂.byte :: d₃.byte :: d₄.byte ::
      backslash :: 0x75 :: d₅.byte :: d₆.byte :: d₇.byte :: d₈.byte :: spelling s) = _
    rw [unescape?_escape (takeEscape_pair h₁ h₂ h₃ hc _), ih]
    rfl

/-- A string without escapes need not be treated apart. -/
theorem keyOf_eq (t : Text) : keyOf t = unescape? t := by
  unfold keyOf
  split
  · rfl
  · rename_i hnone
    have hplain : ∀ b ∈ t, b ≠ backslash := by
      rintro b hb rfl
      exact hnone (List.contains_iff_mem.mpr hb)
    have hself := unescape?_append hplain []
    rw [List.append_nil, unescape?] at hself
    rw [hself]
    simp

/-- A string spells one text at most. -/
theorem Spells.unique {s : List Piece} {t t' : Text} (h : Spells s t) (h' : Spells s t') :
    t = t' :=
  Option.some.inj ((unescape?_spelling h).symm.trans (unescape?_spelling h'))

theorem keyOf_spelling {s : List Piece} {t : Text} (h : Spells s t) :
    keyOf (spelling s) = some t := by
  rw [keyOf_eq, unescape?_spelling h]

/-! ## Strings that can be read -/

theorem exists_hexDigit {b : UInt8} {n : Nat} (h : hexValue? b = some n) :
    ∃ d : HexDigit, b = d.byte ∧ n = d.value.val := by
  have hall : ∀ k : Fin 256, hexValue? (UInt8.ofNat k.val) = none ∨
      ∃ (v : Fin 16) (u : Bool), UInt8.ofNat k.val = (HexDigit.mk v u).byte := by
    decide +kernel
  have hb := hall ⟨b.toNat, b.toNat_lt⟩
  simp only [UInt8.ofNat_toNat] at hb
  rcases hb with hnone | ⟨v, u, rfl⟩
  · cases h.symm.trans hnone
  · exact ⟨⟨v, u⟩, rfl, Option.some.inj (h.symm.trans (hexValue?_byte ⟨v, u⟩))⟩

theorem exists_hexDigits {count code n : Nat} {t rest : Text}
    (h : takeHex count code t = some (n, rest)) :
    ∃ ds : List HexDigit, ds.length = count ∧ t = ds.map HexDigit.byte ++ rest ∧
      n = ds.foldl (fun code d => code * 16 + d.value.val) code := by
  induction count generalizing code t with
  | zero =>
    cases h
    exact ⟨[], rfl, rfl, rfl⟩
  | succ count ih =>
    cases t with
    | nil => cases h
    | cons b t =>
      obtain ⟨m, hm, h⟩ := Option.bind_eq_some_iff.mp h
      obtain ⟨d, rfl, rfl⟩ := exists_hexDigit hm
      obtain ⟨ds, hlength, rfl, hn⟩ := ih h
      exact ⟨d :: ds, congrArg Nat.succ hlength, rfl, hn⟩

theorem exists_unit {n : Nat} {t rest : Text} (h : takeHex 4 0 t = some (n, rest)) :
    ∃ d₁ d₂ d₃ d₄ : HexDigit, t = d₁.byte :: d₂.byte :: d₃.byte :: d₄.byte :: rest ∧
      n = codeUnit d₁ d₂ d₃ d₄ := by
  obtain ⟨ds, hlength, rfl, hn⟩ := exists_hexDigits h
  rcases ds with _ | ⟨d₁, _ | ⟨d₂, _ | ⟨d₃, _ | ⟨d₄, _ | ⟨d₅, ds⟩⟩⟩⟩⟩ <;> cases hlength
  refine ⟨d₁, d₂, d₃, d₄, rfl, ?_⟩
  simpa [codeUnit] using hn

theorem exists_escape {b c : UInt8} (h : Wire.letterEscape? b = some c) :
    ∃ e : Escape, b = e.letter := by
  simp only [Wire.letterEscape?, Bool.or_eq_true, decide_eq_true_eq] at h
  split at h
  · rename_i hb
    rcases hb with (rfl | rfl) | rfl
    · exact ⟨.quote, rfl⟩
    · exact ⟨.backslash, rfl⟩
    · exact ⟨.slash, rfl⟩
  · split at h
    · exact ⟨.backspace, ‹_›⟩
    · split at h
      · exact ⟨.formFeed, ‹_›⟩
      · split at h
        · exact ⟨.newline, ‹_›⟩
        · split at h
          · exact ⟨.carriageReturn, ‹_›⟩
          · split at h
            · exact ⟨.tab, ‹_›⟩
            · cases h

theorem exists_pair {high : Nat} {t s rest : Text} (h : takeLowHalf high t = some (s, rest)) :
    ∃ (b b' : UInt8) (d₅ d₆ d₇ d₈ : HexDigit),
      t = b :: b' :: d₅.byte :: d₆.byte :: d₇.byte :: d₈.byte :: rest ∧
      0xdc00 ≤ codeUnit d₅ d₆ d₇ d₈ ∧ ∃ n, 0x10000 ≤ n ∧ s = ofCode n := by
  rcases t with _ | ⟨b, _ | ⟨b', t⟩⟩
  · cases h
  · cases h
  · obtain ⟨⟨low, t'⟩, hlow, h⟩ := Option.bind_eq_some_iff.mp h
    obtain ⟨d₅, d₆, d₇, d₈, rfl, rfl⟩ := exists_unit hlow
    dsimp only at h
    split at h
    · cases h
    · rename_i hle
      obtain ⟨rfl, rfl⟩ := Prod.mk.inj (Option.some.inj h)
      refine ⟨b, b', d₅, d₆, d₇, d₈, rfl, Nat.le_of_not_lt hle, _, ?_, rfl⟩
      rw [Nat.add_assoc]
      exact Nat.le_add_right _ _

/-- An escape that is accepted, before what can be read. -/
theorem Legible.of_takeEscape {t s rest : Text} (h : takeEscape t = some (s, rest))
    (hrest : Legible rest) : Legible (backslash :: t) := by
  cases t with
  | nil => cases h
  | cons b t =>
    by_cases hb : b = 0x75
    · subst hb
      have h' := h
      simp only [takeEscape, if_true] at h'
      obtain ⟨⟨unit, t'⟩, hunit, -⟩ := Option.bind_eq_some_iff.mp h'
      obtain ⟨d₁, d₂, d₃, d₄, rfl, rfl⟩ := exists_unit hunit
      cases hhalf : isHalf (codeUnit d₁ d₂ d₃ d₄) with
      | false =>
        rw [takeEscape_unit hhalf] at h
        cases h
        exact .code hhalf hrest
      | true =>
        rw [takeEscape_half hhalf] at h
        obtain ⟨b, b', d₅, d₆, d₇, d₈, rfl, hlow, -⟩ := exists_pair h
        exact .pair hhalf hlow hrest
    · simp only [takeEscape, if_neg hb] at h
      obtain ⟨c, hc, heq⟩ := Option.map_eq_some_iff.mp h
      obtain ⟨e, rfl⟩ := exists_escape hc
      obtain ⟨-, rfl⟩ := Prod.mk.inj heq
      exact .escape e hrest

theorem unescape?_backslash {t name : Text} (h : unescape? (backslash :: t) = some name) :
    ∃ s rest more, takeEscape t = some (s, rest) ∧ unescape? rest = some more ∧
      name = s ++ more := by
  rw [unescape?, if_pos rfl] at h
  split at h
  · rename_i s rest hescape
    obtain ⟨more, hmore, rfl⟩ := Option.map_eq_some_iff.mp h
    exact ⟨s, rest, more, hescape, hmore, rfl⟩
  · cases h

theorem legible_iff {t : Text} : Legible t ↔ ∃ s, unescape? t = some s := by
  constructor
  · intro h
    induction h with
    | nil =>
      rw [unescape?]
      exact ⟨[], rfl⟩
    | byte hb _ ih =>
      obtain ⟨s, hs⟩ := ih
      rw [unescape?_cons hb, hs]
      exact ⟨_, rfl⟩
    | escape e _ ih =>
      obtain ⟨s, hs⟩ := ih
      rw [unescape?_escape (takeEscape_letter e _), hs]
      exact ⟨_, rfl⟩
    | code hhalf _ ih =>
      obtain ⟨s, hs⟩ := ih
      rw [unescape?_escape (takeEscape_unit hhalf _), hs]
      exact ⟨_, rfl⟩
    | @pair t b b' d₁ d₂ d₃ d₄ _ _ _ _ hhalf hlow _ ih =>
      obtain ⟨s, hs⟩ := ih
      have hlowHalf := takeLowHalf_unit (codeUnit d₁ d₂ d₃ d₄) b b' hlow t
      rw [unescape?_escape ((takeEscape_half hhalf _).trans hlowHalf), hs]
      exact ⟨_, rfl⟩
  · rintro ⟨s, hs⟩
    -- An escape takes several bytes at once.
    induction hn : t.length using Nat.strongRecOn generalizing t s with
    | _ n ih =>
      subst hn
      cases t with
      | nil => exact .nil
      | cons b t =>
        by_cases hb : b = backslash
        · subst hb
          obtain ⟨s', rest, more, hescape, hrest, -⟩ := unescape?_backslash hs
          have hlength := Nat.lt_succ_of_le (takeEscape_length hescape)
          exact .of_takeEscape hescape (ih rest.length hlength _ hrest rfl)
        · rw [unescape?_cons hb] at hs
          obtain ⟨s', hrest, -⟩ := Option.map_eq_some_iff.mp hs
          exact .byte hb (ih t.length (Nat.lt_succ_self _) _ hrest rfl)

theorem Spells.legible {s : List Piece} {t : Text} (h : Spells s t) : Legible (spelling s) :=
  legible_iff.mpr ⟨t, unescape?_spelling h⟩

/-- Nothing is come to behind a name that cannot be read. -/
theorem not_leads_behind {before after : List (Heading × Json)} {m : Heading × Json} {name : Text}
    {j : Json} (hbefore : Lacks before name) (hm : ¬ m.1.IsLegible) :
    ¬ Leads (before ++ m :: after) name j := by
  rintro ⟨before', h, after', heq, hname, -, hlegible⟩
  induction before generalizing before' with
  | nil =>
    cases before' with
    | nil =>
      obtain ⟨rfl, -⟩ := List.cons.inj heq
      exact hm hname.legible
    | cons k before' =>
      obtain ⟨rfl, -⟩ := List.cons.inj heq
      exact hm (hlegible m (.head _))
  | cons k before ih =>
    cases before' with
    | nil =>
      obtain ⟨rfl, -⟩ := List.cons.inj heq
      exact hbefore (h, j) (.head _) hname
    | cons k' before' =>
      obtain ⟨-, heq⟩ := List.cons.inj heq
      exact ih (fun m hm => hbefore m (.tail _ hm)) before' heq fun m hm => hlegible m (.tail _ hm)

theorem keyOf_of_legible {t : Text} (h : Legible t) : ∃ name, keyOf t = some name := by
  rw [keyOf_eq]
  exact legible_iff.mp h

theorem keyOf_of_illegible {t : Text} (h : ¬ Legible t) : keyOf t = none := by
  rw [keyOf_eq, Option.eq_none_iff_forall_ne_some]
  exact fun name hname => h (legible_iff.mpr ⟨name, hname⟩)

/-! ## Names in ASCII -/

def isAscii (t : Text) : Bool := t.all (· < 0x80)

theorem isAscii_append {s t : Text} (h : isAscii (s ++ t) = true) :
    isAscii s = true ∧ isAscii t = true := by
  rw [isAscii, List.all_append, Bool.and_eq_true] at h
  exact h

theorem toNat_ofNat {n : Nat} (h : isScalar n = true) : (Char.ofNat n).toNat = n := by
  have hvalid : n.isValidChar := by
    simp only [isScalar, Bool.or_eq_true, Bool.and_eq_true, decide_eq_true_eq] at h
    unfold Nat.isValidChar
    omega
  rw [Char.ofNat, dif_pos hvalid]
  rfl

theorem exists_char {d₁ d₂ d₃ d₄ : HexDigit} (h : isHalf (codeUnit d₁ d₂ d₃ d₄) = false) :
    ∃ c : Char, c.toNat = codeUnit d₁ d₂ d₃ d₄ := by
  refine ⟨Char.ofNat (codeUnit d₁ d₂ d₃ d₄), toNat_ofNat ?_⟩
  have hlt : codeUnit d₁ d₂ d₃ d₄ < 0x10000 := by
    unfold codeUnit
    omega
  simp only [isHalf, Bool.and_eq_false_iff, decide_eq_false_iff_not] at h
  simp only [isScalar, Bool.or_eq_true, Bool.and_eq_true, decide_eq_true_eq]
  omega

theorem isAscii_utf8EncodeChar {c : Char} (hc : 0x100 ≤ c.toNat) :
    isAscii (String.utf8EncodeChar c) = false := by
  obtain ⟨b, hb⟩ := List.exists_mem_of_ne_nil _ (String.utf8EncodeChar_ne_nil (c := c))
  have hb' : 0x80 ≤ b.toNat := by
    have hlt := b.toNat_lt
    rcases mem_utf8EncodeChar hb with h | h <;> omega
  rw [isAscii, List.all_eq_false]
  refine ⟨b, hb, ?_⟩
  rw [decide_eq_true_eq, UInt8.lt_iff_toNat_lt]
  exact Nat.not_lt_of_le hb'

/-- No pair of halves is read as ASCII, even if it is none. -/
theorem isAscii_ofCode {n : Nat} (h : 0x10000 ≤ n) : isAscii (ofCode n) = false := by
  unfold ofCode
  apply isAscii_utf8EncodeChar
  by_cases hscalar : isScalar n = true
  · rw [if_pos hscalar, toNat_ofNat hscalar]
    omega
  · rw [if_neg hscalar]
    decide

/-- What is read as a name in ASCII spells it. -/
theorem spells_of_keyOf {s : List Piece} {name : Text} (hname : isAscii name = true)
    (h : keyOf (spelling s) = some name) : Spells s name := by
  rw [keyOf_eq] at h
  induction s generalizing name with
  | nil =>
    have h : unescape? [] = some name := h
    rw [unescape?] at h
    cases h
    exact .nil
  | cons p s ih =>
    cases p with
    | char c hc =>
      have h : unescape? (String.utf8EncodeChar c ++ spelling s) = some name := h
      rw [unescape?_append (char_plain hc)] at h
      obtain ⟨rest, hrest, rfl⟩ := Option.map_eq_some_iff.mp h
      exact .char c hc (ih (isAscii_append hname).2 hrest)
    | escape e =>
      have h : unescape? (backslash :: e.letter :: spelling s) = some name := h
      rw [unescape?_escape (takeEscape_letter e _)] at h
      obtain ⟨rest, hrest, rfl⟩ := Option.map_eq_some_iff.mp h
      exact .escape e (ih (isAscii_append hname).2 hrest)
    | code d₁ d₂ d₃ d₄ =>
      have h : unescape? (backslash :: 0x75 :: d₁.byte :: d₂.byte :: d₃.byte :: d₄.byte ::
        spelling s) = some name := h
      cases hhalf : isHalf (codeUnit d₁ d₂ d₃ d₄) with
      | false =>
        rw [unescape?_escape (takeEscape_unit hhalf _)] at h
        obtain ⟨rest, hrest, rfl⟩ := Option.map_eq_some_iff.mp h
        obtain ⟨c, hc⟩ := exists_char hhalf
        rw [← hc, ofCode_toNat] at hname ⊢
        exact .code hc (ih (isAscii_append hname).2 hrest)
      | true =>
        obtain ⟨b, rest, more, hescape, -, rfl⟩ := unescape?_backslash h
        rw [takeEscape_half hhalf] at hescape
        obtain ⟨_, _, _, _, _, _, -, -, n, hn, rfl⟩ := exists_pair hescape
        cases (isAscii_ofCode hn).symm.trans (isAscii_append hname).1

/-! ## Integers -/

theorem digitValue?_digit (d : Fin 10) : digitValue? (digit d) = some d.val := by
  have hall : ∀ d : Fin 10, digitValue? (digit d) = some d.val := by decide
  exact hall d

theorem le_foldl_digits (ds : List (Fin 10)) (m : Nat) :
    m ≤ ds.foldl (fun n d => 10 * n + d.val) m := by
  induction ds generalizing m with
  | nil => exact Nat.le_refl m
  | cons d ds ih =>
    have hstep : m ≤ 10 * m + d.val := by omega
    exact Nat.le_trans hstep (ih (10 * m + d.val))

/-- Digits are read as the number that they are, if that fits into 63 bits. -/
theorem accumulate_digits (ds : List (Fin 10)) : ∀ {m : Nat},
    ds.foldl (fun n d => 10 * n + d.val) m < 2 ^ 63 →
      accumulate (Int64.ofNat m) (ds.map digit) =
        .ok (Int64.ofNat (ds.foldl (fun n d => 10 * n + d.val) m)) := by
  induction ds with
  | nil => exact fun _ => rfl
  | cons d ds ih =>
    intro m h
    have hstep : 10 * m + d.val < 2 ^ 63 := Nat.lt_of_le_of_lt (le_foldl_digits ds _) h
    have hnext : 10 * Int64.ofNat m + Int64.ofNat d.val = Int64.ofNat (10 * m + d.val) := by
      rw [Int64.ofNat_add, Int64.ofNat_mul]
      rfl
    have hmono : ¬ Int64.ofNat (10 * m + d.val) < Int64.ofNat m := by
      rw [Int64.lt_iff_toInt_lt, Int64.toInt_ofNat_of_lt hstep, Int64.toInt_ofNat_of_lt (by omega)]
      omega
    simp only [List.map_cons, accumulate, digitValue?_digit, hnext, if_neg hmono]
    exact ih h

theorem Digits.foldl_eq (d : Digits) :
    (d.first :: d.rest).foldl (fun n d => 10 * n + d.val) 0 = d.value := by
  show d.rest.foldl _ (10 * 0 + d.first.val) = _
  rw [Nat.mul_zero, Nat.zero_add]
  rfl

theorem accumulate_text (d : Digits) (h : d.value < 2 ^ 63) :
    accumulate 0 d.text = .ok (Int64.ofNat d.value) := by
  rw [← d.foldl_eq] at h ⊢
  exact accumulate_digits (d.first :: d.rest) h

/-- The magnitude of the least integer can be written in one way only. -/
theorem text_eq_leastDigits {d : Digits} (hvalid : d.first = 0 → d.rest = [])
    (hvalue : d.value = 2 ^ 63) : d.text = leastDigits := by
  have hfirst : d.first.val ≠ 0 := by
    intro h
    have hrest := hvalid (Fin.ext h)
    rw [Digits.value, hrest, h] at hvalue
    cases hvalue
  have hds : Nat.ofDigits 10 ((d.first :: d.rest).map Fin.val).reverse = 2 ^ 63 := by
    rw [Nat.ofDigits_eq_foldr, List.foldr_reverse, List.foldl_map, ← hvalue, ← d.foldl_eq]
    simp only [Nat.cast_id, Nat.add_comm]
  have hdigits : ((d.first :: d.rest).map Fin.val).reverse = Nat.digits 10 (2 ^ 63) := by
    rw [← hds, Nat.digits_ofDigits 10 (by decide)]
    · intro l hl
      obtain ⟨x, -, rfl⟩ := List.mem_map.mp (List.mem_reverse.mp hl)
      exact x.isLt
    · intro hne
      rw [List.getLast_reverse]
      exact hfirst
  have hmap : (d.first :: d.rest).map Fin.val = (Nat.digits 10 (2 ^ 63)).reverse := by
    rw [← hdigits, List.reverse_reverse]
  have htext : d.text = ((d.first :: d.rest).map Fin.val).map fun n => (0x30 + n).toUInt8 := by
    rw [List.map_map]
    rfl
  rw [htext, hmap]
  decide

/-- An integer that fits into 64 bits is read as its value. -/
theorem readInt_text {n : Number} {i : Int64} (h : n.int? = some i.toInt) :
    readInt n.text = .ok i := by
  obtain ⟨negative, whole, fraction, exponent, hvalid⟩ := n
  cases fraction with
  | some d => cases h
  | none =>
    cases exponent with
    | some e => cases h
    | none =>
      have hi : (if negative then -(whole.value : Int) else whole.value) = i.toInt :=
        Option.some.inj h
      have hlow := Int64.le_toInt i
      have hhigh := Int64.toInt_lt i
      have hofInt := Int64.ofInt_toInt i
      rw [← hi] at hofInt
      cases negative with
      | false =>
        have hi : (whole.value : Int) = i.toInt := hi
        have hofInt : Int64.ofInt whole.value = i := hofInt
        have hdigit : ∀ d : Fin 10, digit d ≠ hyphen := by decide
        have htext : Number.text ⟨false, whole, none, none, hvalid⟩ = whole.text := by
          simp [Number.text]
        rw [htext, ← hofInt, Int64.ofInt_eq_ofNat, ← accumulate_text whole (by omega)]
        unfold readInt
        split
        · rename_i t heq
          exact absurd (List.cons.inj heq).1 (hdigit whole.first)
        · rfl
      | true =>
        have hi : -(whole.value : Int) = i.toInt := hi
        have hofInt : Int64.ofInt (-whole.value) = i := hofInt
        have htext : Number.text ⟨true, whole, none, none, hvalid⟩ = hyphen :: whole.text := by
          simp [Number.text]
        rw [htext]
        show (if whole.text == leastDigits then _ else _) = _
        by_cases hleast : whole.value = 2 ^ 63
        · rw [text_eq_leastDigits hvalid hleast, if_pos (by decide), ← hofInt, hleast]
          decide
        · -- Of a smaller magnitude the digits differ, for those of the least integer overflow.
          have haccumulate := accumulate_text whole (by omega)
          have hne : whole.text ≠ leastDigits := by
            intro heq
            rw [heq] at haccumulate
            have hoverflow : accumulate 0 leastDigits = .error .overflow := by decide
            cases hoverflow.symm.trans haccumulate
          rw [if_neg (by simpa using hne), haccumulate, ← hofInt, Int64.ofInt_neg,
            Int64.ofInt_eq_ofNat]
          rfl

end Json
end Stepwise
