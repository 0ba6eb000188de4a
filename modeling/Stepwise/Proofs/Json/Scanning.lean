/-
What the scanners make of JSON.

The scanners look for the end of a string or of a block without understanding what is between.  On
the text of a document they find the right end: in a string every quote is escaped (`Inner`), and
in a value every brace and bracket outside the strings has its partner (`Passes`).  The second is by
recursion on the value; all else about values follows from it by cases.
-/
import Stepwise.Proofs.Json.Document
import Stepwise.Wire.Lookup

namespace Stepwise
namespace Json

open Text Wire

/-! ## Blanks -/

/-- Whether all bytes of a text are of a kind is decided along the text, not over all bytes. -/
theorem forall_mem_of_all {P : UInt8 → Prop} [DecidablePred P] {t : Text}
    (h : t.all (P ·) = true) : ∀ b ∈ t, P b :=
  fun b hb => of_decide_eq_true (List.all_eq_true.mp h b hb)

theorem Blanks.isBlank (s : Blanks) : ∀ b ∈ s.text, Wire.isBlank b = true := by
  have hall : [blank, tab, newline, carriageReturn].all Wire.isBlank = true := by decide
  exact fun b hb => List.all_eq_true.mp hall b (s.valid b hb)

theorem skipBlanks_blanks (s : Blanks) (t : Text) : skipBlanks (s.text ++ t) = skipBlanks t :=
  List.dropWhile_append_of_pos s.isBlank

theorem skipBlanks_cons {b : UInt8} (h : Wire.isBlank b = false) (t : Text) :
    skipBlanks (b :: t) = b :: t :=
  List.dropWhile_cons_of_neg (by simp [h])

/-! ## Strings -/

/-- What may stand between the quotes of a string. -/
inductive Inner : Text → Prop
  | nil : Inner []
  | plain {b : UInt8} {t : Text} : b ≠ quote → b ≠ backslash → Inner t → Inner (b :: t)
  | escaped {b : UInt8} {t : Text} : Inner t → Inner (backslash :: b :: t)

theorem Inner.append {s t : Text} (hs : Inner s) (ht : Inner t) : Inner (s ++ t) := by
  induction hs with
  | nil => exact ht
  | plain hq hb _ ih => exact .plain hq hb ih
  | escaped _ ih => exact .escaped ih

theorem Inner.of_plain {s : Text} (h : ∀ b ∈ s, b ≠ quote ∧ b ≠ backslash) : Inner s := by
  induction s with
  | nil => exact .nil
  | cons b s ih =>
    obtain ⟨⟨hq, hb⟩, hs⟩ := List.forall_mem_cons.mp h
    exact .plain hq hb (ih hs)

/-- The bytes of a character are the character itself or no ASCII at all. -/
theorem mem_utf8EncodeChar {c : Char} {b : UInt8} (h : b ∈ String.utf8EncodeChar c) :
    b.toNat = c.toNat ∨ 0x80 ≤ b.toNat := by
  have hofNat : ∀ n : Nat, n < 256 → (UInt8.ofNat n).toNat = n := fun n hn =>
    UInt8.toNat_ofNat_of_lt' hn
  unfold String.utf8EncodeChar at h
  have hc : c.toNat = c.val.toNat := rfl
  rw [hc]
  generalize c.val.toNat = v at h
  simp only at h
  split at h
  · rw [List.mem_singleton] at h
    rw [h, hofNat v (by omega)]
    exact .inl rfl
  · right
    split at h
    · simp only [List.mem_cons, List.not_mem_nil, or_false] at h
      rcases h with rfl | rfl <;> rw [hofNat _ (by omega)] <;> omega
    · split at h
      · simp only [List.mem_cons, List.not_mem_nil, or_false] at h
        rcases h with rfl | rfl | rfl <;> rw [hofNat _ (by omega)] <;> omega
      · simp only [List.mem_cons, List.not_mem_nil, or_false] at h
        rcases h with rfl | rfl | rfl | rfl <;> rw [hofNat _ (by omega)] <;> omega

theorem HexDigit.byte_plain (d : HexDigit) : d.byte ≠ quote ∧ d.byte ≠ backslash := by
  have hall : ∀ (v : Fin 16) (u : Bool), (HexDigit.mk v u).byte ≠ quote ∧
      (HexDigit.mk v u).byte ≠ backslash := by decide
  exact hall d.value d.upper

theorem Piece.inner (p : Piece) : Inner p.text := by
  cases p with
  | char c hc =>
    refine .of_plain fun b hb => ?_
    constructor
    · rintro rfl
      rcases mem_utf8EncodeChar hb with h | h
      · exact hc.2.1 h.symm
      · exact absurd h (by decide)
    · rintro rfl
      rcases mem_utf8EncodeChar hb with h | h
      · exact hc.2.2 h.symm
      · exact absurd h (by decide)
  | escape e => exact .escaped .nil
  | code d₁ d₂ d₃ d₄ =>
    refine .escaped (.of_plain fun b hb => ?_)
    simp only [List.mem_cons, List.not_mem_nil, or_false] at hb
    rcases hb with rfl | rfl | rfl | rfl
    · exact d₁.byte_plain
    · exact d₂.byte_plain
    · exact d₃.byte_plain
    · exact d₄.byte_plain

theorem inner_spelling (s : List Piece) : Inner (spelling s) := by
  induction s with
  | nil => exact .nil
  | cons p s ih => exact p.inner.append ih

theorem takeString_inner {s : Text} (h : Inner s) (rest : Text) :
    takeString false (s ++ quote :: rest) = some (s, rest) := by
  induction h with
  | nil => rfl
  | plain hq hb _ ih => simp [takeString, hq, hb, ih]
  | @escaped b t _ ih =>
    have hquote : backslash ≠ quote := by decide
    simp [takeString, hquote, ih]

theorem takeString_quoted (s : List Piece) (rest : Text) :
    takeString false (spelling s ++ quote :: rest) = some (spelling s, rest) :=
  takeString_inner (inner_spelling s) rest

/-! ## Blocks -/

/-- The scan for the end of a block goes over the text. -/
def Passes (opening closing : UInt8) (t : Text) : Prop :=
  ∀ level rest, takeBlock opening closing (level + 1) none (t ++ rest) =
    (takeBlock opening closing (level + 1) none rest).map fun x => (t ++ x.1, x.2)

/-- The bytes that begin and end blocks. -/
def IsPair (opening closing : UInt8) : Prop :=
  opening = openBrace ∧ closing = closeBrace ∨ opening = openBracket ∧ closing = closeBracket

theorem IsPair.ne {opening closing : UInt8} (h : IsPair opening closing) :
    opening ≠ quote ∧ closing ≠ quote ∧ closing ≠ opening := by
  rcases h with ⟨rfl, rfl⟩ | ⟨rfl, rfl⟩ <;> decide

theorem IsPair.same_or_apart {opening closing left right : UInt8} (h : IsPair opening closing)
    (h' : IsPair left right) :
    left = opening ∧ right = closing ∨
      left ≠ opening ∧ left ≠ closing ∧ right ≠ opening ∧ right ≠ closing := by
  rcases h with ⟨rfl, rfl⟩ | ⟨rfl, rfl⟩
  · rcases h' with ⟨rfl, rfl⟩ | ⟨rfl, rfl⟩
    · exact .inl ⟨rfl, rfl⟩
    · exact .inr (by decide)
  · rcases h' with ⟨rfl, rfl⟩ | ⟨rfl, rfl⟩
    · exact .inr (by decide)
    · exact .inl ⟨rfl, rfl⟩

/-- Bytes that mean nothing to any of the scanners. -/
def Bare (t : Text) : Prop :=
  ∀ b ∈ t, b ∉ [quote, openBrace, closeBrace, openBracket, closeBracket, colon]

section

variable {opening closing : UInt8}

theorem Passes.nil : Passes opening closing [] := by
  intro level rest
  rw [List.nil_append]
  cases takeBlock opening closing (level + 1) none rest <;> rfl

theorem Passes.append {s t : Text} (hs : Passes opening closing s) (ht : Passes opening closing t) :
    Passes opening closing (s ++ t) := by
  intro level rest
  rw [List.append_assoc, hs, ht, Option.map_map]
  congr 1
  funext x
  simp

theorem takeBlock_inner {s : Text} (h : Inner s) (level : Nat) (rest : Text) :
    takeBlock opening closing level (some false) (s ++ quote :: rest) =
      (takeBlock opening closing level none rest).map fun x => (s ++ quote :: x.1, x.2) := by
  induction h with
  | nil => simp [takeBlock]
  | plain hq hb _ ih => simp [takeBlock, hq, hb, ih, Function.comp_def]
  | escaped _ ih =>
    have hquote : backslash ≠ quote := by decide
    simp [takeBlock, hquote, ih, Function.comp_def]

theorem Passes.quoted (s : List Piece) : Passes opening closing (quoted s) := by
  intro level rest
  simp [Json.quoted, takeBlock, takeBlock_inner (inner_spelling s), Function.comp_def]

variable (h : IsPair opening closing)
include h

theorem Passes.bare {t : Text} (ht : Bare t) : Passes opening closing t := by
  induction t with
  | nil => exact .nil
  | cons b t ih =>
    obtain ⟨hb, ht⟩ := List.forall_mem_cons.mp ht
    simp only [List.mem_cons, List.not_mem_nil, or_false, not_or] at hb
    have hopening : b ≠ opening := by
      rcases h with ⟨rfl, -⟩ | ⟨rfl, -⟩
      · exact hb.2.1
      · exact hb.2.2.2.1
    have hclosing : b ≠ closing := by
      rcases h with ⟨-, rfl⟩ | ⟨-, rfl⟩
      · exact hb.2.2.1
      · exact hb.2.2.2.2.1
    intro level rest
    simp [takeBlock, hb.1, hopening, hclosing, ih ht level rest, Function.comp_def]

theorem Passes.colon : Passes opening closing [colon] := by
  have hne : Text.colon ≠ opening ∧ Text.colon ≠ closing := by
    rcases h with ⟨rfl, rfl⟩ | ⟨rfl, rfl⟩ <;> decide
  intro level rest
  have hquote : Text.colon ≠ quote := by decide
  simp [takeBlock, hquote, hne.1, hne.2]

/-- What passes for one kind of block passes when it is put between braces or brackets. -/
theorem Passes.enclosed {left right : UInt8} (hpair : IsPair left right) {t : Text}
    (ht : Passes opening closing t) : Passes opening closing (left :: (t ++ [right])) := by
  intro level rest
  obtain ⟨hquote, hquote', hne⟩ := hpair.ne
  rcases h.same_or_apart hpair with ⟨rfl, rfl⟩ | ⟨hleft, hleft', hright, hright'⟩
  · have hinner := ht (level + 1) (right :: rest)
    simp [takeBlock, hquote, hquote', hne, hinner, Function.comp_def]
  · have hinner := ht level (right :: rest)
    simp [takeBlock, hquote, hquote', hleft, hleft', hright, hright', hinner, Function.comp_def]

/-- A block whose inside passes ends where it should. -/
theorem takeBlock_enclosed {t : Text} (ht : Passes opening closing t) (rest : Text) :
    takeBlock opening closing 0 none (opening :: (t ++ closing :: rest)) =
      some (opening :: (t ++ [closing]), rest) := by
  obtain ⟨hquote, hquote', hne⟩ := h.ne
  have hinner := ht 0 (closing :: rest)
  simp [takeBlock, hquote, hquote', hne, hinner]

end

/-! ## Values -/

theorem Blanks.bare (s : Blanks) : Bare s.text := by
  have hall : ∀ b ∈ [blank, tab, newline, carriageReturn],
      b ∉ [quote, openBrace, closeBrace, openBracket, closeBracket, colon] :=
    forall_mem_of_all (by decide)
  exact fun b hb => hall b (s.valid b hb)

theorem bare_separator {α : Type} (l : List α) : Bare (separator l) := by
  cases l with
  | nil => exact nofun
  | cons a l =>
    intro b hb
    rw [List.mem_singleton.mp hb]
    decide

/-- A byte of a word or of a number, which no byte that ends a token is. -/
def IsTokenByte (b : UInt8) : Prop :=
  b ∉ [quote, openBrace, closeBrace, openBracket, closeBracket, colon] ∧ endsToken b = false

theorem isTokenByte_digit (d : Fin 10) : IsTokenByte (digit d) := by
  have hall : ∀ d : Fin 10, digit d ∉ [quote, openBrace, closeBrace, openBracket, closeBracket,
      colon] ∧ endsToken (digit d) = false := by decide
  exact hall d

theorem Word.isTokenByte (w : Word) : ∀ b ∈ w.text, IsTokenByte b := by
  unfold IsTokenByte
  cases w <;> exact forall_mem_of_all (by decide)

theorem Digits.isTokenByte (d : Digits) : ∀ b ∈ d.text, IsTokenByte b := by
  intro b hb
  have hb : b ∈ (d.first :: d.rest).map digit := hb
  obtain ⟨x, -, rfl⟩ := List.mem_map.mp hb
  exact isTokenByte_digit x

theorem Number.isTokenByte (n : Number) : ∀ b ∈ n.text, IsTokenByte b := by
  have hbyte : ∀ b ∈ [hyphen, plus, point, 0x65, 0x45],
      b ∉ [quote, openBrace, closeBrace, openBracket, closeBracket, colon] ∧
        endsToken b = false := forall_mem_of_all (by decide)
  intro b hb
  simp only [Number.text, List.mem_append] at hb
  rcases hb with ((hb | hb) | hb) | hb
  · cases hn : n.negative with
    | false => simp [hn] at hb
    | true =>
      have hb : b = hyphen := by simpa [hn] using hb
      exact hbyte b (by simp [hb])
  · exact n.whole.isTokenByte b hb
  · cases hf : n.fraction with
    | none => simp [hf] at hb
    | some d =>
      rw [hf] at hb
      rcases List.mem_cons.mp hb with rfl | hb
      · exact hbyte point (by decide)
      · exact d.isTokenByte b hb
  · cases he : n.exponent with
    | none => simp [he] at hb
    | some e =>
      rw [he] at hb
      obtain ⟨hmark, hsign⟩ := e.valid
      rcases List.mem_cons.mp hb with rfl | hb
      · exact hbyte e.mark (List.mem_cons_of_mem _ (List.mem_cons_of_mem _
          (List.mem_cons_of_mem _ hmark)))
      · rcases List.mem_append.mp hb with hb | hb
        · refine hbyte b ?_
          simp only [List.mem_cons, List.not_mem_nil, or_false] at hsign
          rcases hsign with hsign | hsign | hsign <;> simp_all
        · exact e.digits.isTokenByte b hb

theorem bare_of_isTokenByte {t : Text} (h : ∀ b ∈ t, IsTokenByte b) : Bare t :=
  fun b hb => (h b hb).1

mutual

theorem passes {opening closing : UInt8} (h : IsPair opening closing) :
    (j : Json) → Passes opening closing j.text
  | word w => .bare h (bare_of_isTokenByte w.isTokenByte)
  | number n => .bare h (bare_of_isTokenByte n.isTokenByte)
  | string s => .quoted s
  | array blanks elements => by
    have hinner := (Passes.bare h blanks.bare).append (passes_elements h elements)
    have henclosed := Passes.enclosed h (.inr ⟨rfl, rfl⟩) hinner
    rw [List.append_assoc] at henclosed
    exact henclosed
  | object blanks members => by
    have hinner := (Passes.bare h blanks.bare).append (passes_members h members)
    have henclosed := Passes.enclosed h (.inl ⟨rfl, rfl⟩) hinner
    rw [List.append_assoc] at henclosed
    exact henclosed

theorem passes_elements {opening closing : UInt8} (h : IsPair opening closing) :
    (elements : List (Padding × Json)) → Passes opening closing (elementsText elements)
  | [] => .nil
  | (p, j) :: rest =>
    (Passes.bare h p.before.bare).append <| (passes h j).append <|
      (Passes.bare h p.after.bare).append <| (Passes.bare h (bare_separator rest)).append <|
        passes_elements h rest

theorem passes_members {opening closing : UInt8} (h : IsPair opening closing) :
    (members : List (Heading × Json)) → Passes opening closing (membersText members)
  | [] => .nil
  | (heading, j) :: rest =>
    (Passes.bare h heading.before.bare).append <| (Passes.quoted heading.name).append <|
      (Passes.bare h heading.beforeColon.bare).append <| (Passes.colon h).append <|
      (Passes.bare h heading.afterColon.bare).append <| (passes h j).append <|
      (Passes.bare h heading.after.bare).append <| (Passes.bare h (bare_separator rest)).append <|
        passes_members h rest

end

/-- The value is a block, and its inside passes. -/
def IsBlock (opening closing : UInt8) (j : Json) : Prop :=
  ∃ t, Passes opening closing t ∧ ∀ rest, j.text ++ rest = opening :: (t ++ closing :: rest)

theorem isBlock_array (blanks : Blanks) (elements : List (Padding × Json)) :
    IsBlock openBracket closeBracket (array blanks elements) := by
  have hpair : IsPair openBracket closeBracket := .inr ⟨rfl, rfl⟩
  refine ⟨blanks.text ++ elementsText elements, ?_, fun rest => ?_⟩
  · exact (Passes.bare hpair blanks.bare).append (passes_elements hpair elements)
  · simp [text]

theorem isBlock_object (blanks : Blanks) (members : List (Heading × Json)) :
    IsBlock openBrace closeBrace (object blanks members) := by
  have hpair : IsPair openBrace closeBrace := .inl ⟨rfl, rfl⟩
  refine ⟨blanks.text ++ membersText members, ?_, fun rest => ?_⟩
  · exact (Passes.bare hpair blanks.bare).append (passes_members hpair members)
  · simp [text]

/-! ## Items -/

def shape : Json → Shape
  | word .null => .null
  | word _ => .boolean
  | number _ => .number
  | string _ => .string
  | array _ _ => .array
  | object _ _ => .object

/-- What an item shows of a value: of a string, only what is between the quotes. -/
def content : Json → Text
  | string s => spelling s
  | j => j.text

/-- Behind a value nothing is left, or a byte that ends a token. -/
def EndsValue (rest : Text) : Prop := ∀ b ∈ rest.head?, endsToken b = true

theorem endsValue_cons {b : UInt8} (h : endsToken b = true) (t : Text) : EndsValue (b :: t) := by
  intro b' hb'
  cases hb'
  exact h

theorem Blanks.endsValue (s : Blanks) {t : Text} (h : EndsValue t) : EndsValue (s.text ++ t) := by
  cases hs : s.text with
  | nil => exact h
  | cons b rest =>
    have hb : Wire.isBlank b = true := s.isBlank b (hs ▸ List.mem_cons_self)
    exact endsValue_cons (by simp [endsToken, hb]) _

theorem takeToken_append {t rest : Text} (ht : ∀ b ∈ t, IsTokenByte b) (hrest : EndsValue rest) :
    takeToken (t ++ rest) = (t, rest) := by
  have hall : ∀ b ∈ t, (!endsToken b) = true := fun b hb => by simp [(ht b hb).2]
  have htake : rest.takeWhile (!endsToken ·) = [] ∧ rest.dropWhile (!endsToken ·) = rest := by
    cases rest with
    | nil => exact ⟨rfl, rfl⟩
    | cons b rest =>
      have hb : endsToken b = true := hrest b rfl
      simp [hb]
  unfold takeToken
  rw [List.takeWhile_append_of_pos hall, List.dropWhile_append_of_pos hall, htake.1, htake.2,
    List.append_nil]

theorem takeItem_token {t rest : Text} {kind : Shape} (blanks : Blanks)
    (ht : ∀ b ∈ t, IsTokenByte b) (hkind : tokenShape? t = some kind) (hrest : EndsValue rest) :
    takeItem (blanks.text ++ (t ++ rest)) = .ok { shape := kind, text := t, rest } := by
  cases t with
  | nil => cases hkind
  | cons b t =>
    obtain ⟨hbare, hends⟩ := ht b List.mem_cons_self
    simp only [List.mem_cons, List.not_mem_nil, or_false, not_or] at hbare
    have hblank : Wire.isBlank b = false := by
      simp only [endsToken, Bool.or_eq_false_iff] at hends
      exact hends.1.1.1
    have htoken := takeToken_append ht hrest
    rw [List.cons_append] at htoken
    unfold takeItem
    rw [skipBlanks_blanks, List.cons_append, skipBlanks_cons hblank]
    simp only [hbare.1, hbare.2.1, hbare.2.2.2.1, if_false, htoken, hkind]

theorem tokenShape?_number (n : Number) : tokenShape? n.text = some .number := by
  have hdigit : ∀ (d : Fin 10) (t : Text), tokenShape? (digit d :: t) = some .number := by
    intro d t
    have hall : ∀ d : Fin 10, digit d ≠ 0x74 ∧ digit d ≠ 0x66 ∧ digit d ≠ 0x75 ∧ digit d ≠ 0x6e ∧
        isDigit (digit d) = true := by decide
    obtain ⟨h₁, h₂, h₃, h₄, h₅⟩ := hall d
    simp [tokenShape?, h₁, h₂, h₃, h₄, h₅]
  unfold Number.text Digits.text
  cases n.negative with
  | false => exact hdigit _ _
  | true => rfl

theorem takeItem_block {opening closing : UInt8} {j : Json} (hpair : IsPair opening closing)
    (hj : IsBlock opening closing j) (blanks : Blanks) (rest : Text) :
    takeItem (blanks.text ++ (j.text ++ rest)) =
      .ok { shape := if opening = openBrace then .object else .array, text := j.text, rest } := by
  obtain ⟨t, ht, htext⟩ := hj
  have hwhole : j.text = opening :: (t ++ [closing]) := by
    rw [← htext [], List.append_nil]
  have hblock := takeBlock_enclosed hpair ht rest
  rw [← hwhole] at hblock
  have hblank : Wire.isBlank opening = false := by
    rcases hpair with ⟨rfl, -⟩ | ⟨rfl, -⟩ <;> decide
  unfold takeItem
  rw [skipBlanks_blanks, htext, skipBlanks_cons hblank]
  simp only [if_neg hpair.ne.1]
  rcases hpair with ⟨rfl, rfl⟩ | ⟨rfl, rfl⟩
  · have hbracket : openBrace ≠ openBracket := by decide
    simp only [if_neg hbracket, if_true, hblock]
  · have hbrace : openBracket ≠ openBrace := by decide
    simp only [if_neg hbrace, if_true, hblock]

/-- The item at the head of a text that begins with a value. -/
theorem takeItem_text (j : Json) (blanks : Blanks) {rest : Text} (h : EndsValue rest) :
    takeItem (blanks.text ++ (j.text ++ rest)) =
      .ok { shape := j.shape, text := j.content, rest } := by
  cases j with
  | word w =>
    cases w with
    | null => exact takeItem_token blanks (Word.isTokenByte .null) (by decide) h
    | true => exact takeItem_token blanks (Word.isTokenByte .true) (by decide) h
    | false => exact takeItem_token blanks (Word.isTokenByte .false) (by decide) h
  | number n => exact takeItem_token blanks n.isTokenByte (tokenShape?_number n) h
  | string s =>
    have htext : (string s).text ++ rest = quote :: (spelling s ++ quote :: rest) := by
      simp [text, quoted]
    unfold takeItem
    rw [skipBlanks_blanks, htext, skipBlanks_cons (by decide)]
    simp only [if_true, takeString_quoted]
    rfl
  | array inner elements => exact takeItem_block (.inr ⟨rfl, rfl⟩) (isBlock_array _ _) blanks rest
  | object inner members => exact takeItem_block (.inl ⟨rfl, rfl⟩) (isBlock_object _ _) blanks rest

theorem takeElements_of_item {t t' : Text} {i : Item} {b : UInt8} (hitem : takeItem t = .ok i)
    (hb : skipBlanks i.rest = b :: t') :
    takeElements t =
      if b = closeBracket then .ok [i.text]
      else if b = comma then (takeElements t').map (i.text :: ·)
      else .error .openArray := by
  rw [takeElements]
  split
  · rename_i e he
    cases hitem.symm.trans he
  · rename_i i' hi'
    cases hitem.symm.trans hi'
    split
    · rename_i hnil
      cases hb.symm.trans hnil
    · rename_i b' rest hb'
      cases hb.symm.trans hb'
      rfl

/-- An element is the last one if the array is closed behind it. -/
theorem takeElements_item (p : Padding) (j : Json) {b : UInt8} (hb : b = closeBracket ∨ b = comma)
    (t : Text) :
    takeElements (p.before.text ++ (j.text ++ (p.after.text ++ b :: t))) =
      if b = closeBracket then .ok [j.content] else (takeElements t).map (j.content :: ·) := by
  have hends : endsToken b = true ∧ Wire.isBlank b = false := by
    rcases hb with rfl | rfl <;> decide
  have hrest : EndsValue (p.after.text ++ b :: t) := p.after.endsValue (endsValue_cons hends.1 t)
  have hnext : skipBlanks (p.after.text ++ b :: t) = b :: t := by
    rw [skipBlanks_blanks, skipBlanks_cons hends.2]
  rw [takeElements_of_item (takeItem_text j p.before hrest) hnext]
  rcases hb with rfl | rfl <;> rfl

/-- The elements of an array that has some. -/
theorem takeElements_text (elements : List (Padding × Json)) (rest : Text) :
    ∀ e, takeElements (elementsText (e :: elements) ++ closeBracket :: rest) =
      .ok ((e :: elements).map (·.2.content)) := by
  induction elements with
  | nil =>
    intro (p, j)
    have htext : elementsText [(p, j)] ++ closeBracket :: rest =
        p.before.text ++ (j.text ++ (p.after.text ++ closeBracket :: rest)) := by
      simp [elementsText, separator]
    rw [htext, takeElements_item p j (.inl rfl)]
    rfl
  | cons next elements ih =>
    intro (p, j)
    have htext : elementsText ((p, j) :: next :: elements) ++ closeBracket :: rest =
        p.before.text ++ (j.text ++ (p.after.text ++
          comma :: (elementsText (next :: elements) ++ closeBracket :: rest))) := by
      simp [elementsText, separator]
    rw [htext, takeElements_item p j (.inr rfl), ih next]
    rfl

end Json
end Stepwise
