/-
JSON documents as they are written.

A document is kept with all that its meaning does not depend on: the blanks between its parts, the
way each character of a string is spelled, the digits of its numbers, and the order of members.  So
`Json.text` only puts the parts together, and every JSON text is the text of a document.

What a string means is said by `Spells`, and what a number means by `Number.int?` for those that
are integers.  A string need not mean anything: one half of a surrogate pair by itself is good JSON.
Nor can every string be read, and which can is said by `Legible`.

Of the members of an object only the first of a name counts (`Has`).  A search comes to it if all
names before it can be read (`Leads`).
-/
import Stepwise.Text.Utf8

namespace Stepwise
namespace Json

open Text

structure Blanks where
  text : Text
  valid : ∀ b ∈ text, b ∈ [blank, tab, newline, carriageReturn]

def Blanks.none : Blanks := ⟨[], nofun⟩

/-! ## Strings -/

structure HexDigit where
  value : Fin 16
  upper : Bool

def HexDigit.byte (d : HexDigit) : UInt8 :=
  if d.value < 10 then (0x30 + d.value.val).toUInt8
  else if d.upper then (0x41 + (d.value.val - 10)).toUInt8
  else (0x61 + (d.value.val - 10)).toUInt8

/-- A character that can be escaped by one letter. -/
inductive Escape where
  | quote
  | backslash
  | slash
  | backspace
  | formFeed
  | newline
  | carriageReturn
  | tab

namespace Escape

def letter : Escape → UInt8
  | quote => Text.quote
  | backslash => Text.backslash
  | slash => Text.slash
  | backspace => 0x62
  | formFeed => 0x66
  | newline => 0x6e
  | carriageReturn => 0x72
  | tab => 0x74

def value : Escape → UInt8
  | quote => Text.quote
  | backslash => Text.backslash
  | slash => Text.slash
  | backspace => 0x08
  | formFeed => 0x0c
  | newline => Text.newline
  | carriageReturn => Text.carriageReturn
  | tab => Text.tab

end Escape

/-- A character of a string as it is written: as itself, or escaped by a letter, or by the four
digits of a code unit. -/
inductive Piece where
  | char (c : Char) (valid : 0x20 ≤ c.toNat ∧ c.toNat ≠ 0x22 ∧ c.toNat ≠ 0x5c)
  | escape (e : Escape)
  | code (d₁ d₂ d₃ d₄ : HexDigit)

def Piece.text : Piece → Text
  | char c _ => String.utf8EncodeChar c
  | escape e => [backslash, e.letter]
  | code d₁ d₂ d₃ d₄ => [backslash, 0x75, d₁.byte, d₂.byte, d₃.byte, d₄.byte]

/-- What stands between the quotes. -/
def spelling (s : List Piece) : Text := s.flatMap Piece.text

def quoted (s : List Piece) : Text := quote :: (spelling s ++ [quote])

/-- The code unit that four digits name. -/
def codeUnit (d₁ d₂ d₃ d₄ : HexDigit) : Nat :=
  ((d₁.value * 16 + d₂.value) * 16 + d₃.value) * 16 + d₄.value

/-- The pieces spell the characters of which the text is the UTF-8 form.  A character above U+FFFF
can be given by the two halves of its surrogate pair. -/
inductive Spells : List Piece → Text → Prop
  | nil : Spells [] []
  | char {s : List Piece} {t : Text} (c : Char)
      (valid : 0x20 ≤ c.toNat ∧ c.toNat ≠ 0x22 ∧ c.toNat ≠ 0x5c) :
      Spells s t → Spells (.char c valid :: s) (String.utf8EncodeChar c ++ t)
  | escape {s : List Piece} {t : Text} (e : Escape) :
      Spells s t → Spells (.escape e :: s) (e.value :: t)
  | code {s : List Piece} {t : Text} {c : Char} {d₁ d₂ d₃ d₄ : HexDigit} :
      c.toNat = codeUnit d₁ d₂ d₃ d₄ →
      Spells s t → Spells (.code d₁ d₂ d₃ d₄ :: s) (String.utf8EncodeChar c ++ t)
  | pair {s : List Piece} {t : Text} {c : Char} {d₁ d₂ d₃ d₄ d₅ d₆ d₇ d₈ : HexDigit} :
      0xd800 ≤ codeUnit d₁ d₂ d₃ d₄ → codeUnit d₁ d₂ d₃ d₄ < 0xdc00 →
      0xdc00 ≤ codeUnit d₅ d₆ d₇ d₈ → codeUnit d₅ d₆ d₇ d₈ < 0xe000 →
      c.toNat = 0x10000 + (codeUnit d₁ d₂ d₃ d₄ - 0xd800) * 0x400 +
        (codeUnit d₅ d₆ d₇ d₈ - 0xdc00) →
      Spells s t → Spells (.code d₁ d₂ d₃ d₄ :: .code d₅ d₆ d₇ d₈ :: s)
        (String.utf8EncodeChar c ++ t)

/-- Half of a surrogate pair, which is no character by itself. -/
def isHalf (unit : Nat) : Bool := 0xd800 ≤ unit && unit < 0xe000

/-- What stands between quotes can be read.  In JSON it can be unless there is half of a surrogate
pair in it; and even then if the digits of a unit from U+DC00 on stand behind that half, with two
bytes between them that may be any. -/
inductive Legible : Text → Prop
  | nil : Legible []
  | byte {b : UInt8} {t : Text} : b ≠ backslash → Legible t → Legible (b :: t)
  | escape {t : Text} (e : Escape) : Legible t → Legible (backslash :: e.letter :: t)
  | code {t : Text} {d₁ d₂ d₃ d₄ : HexDigit} :
      isHalf (codeUnit d₁ d₂ d₃ d₄) = false → Legible t →
      Legible (backslash :: 0x75 :: d₁.byte :: d₂.byte :: d₃.byte :: d₄.byte :: t)
  | pair {t : Text} {b b' : UInt8} {d₁ d₂ d₃ d₄ d₅ d₆ d₇ d₈ : HexDigit} :
      isHalf (codeUnit d₁ d₂ d₃ d₄) = true → 0xdc00 ≤ codeUnit d₅ d₆ d₇ d₈ → Legible t →
      Legible (backslash :: 0x75 :: d₁.byte :: d₂.byte :: d₃.byte :: d₄.byte :: b :: b' ::
        d₅.byte :: d₆.byte :: d₇.byte :: d₈.byte :: t)

/-! ## Numbers -/

/-- Decimal digits, at least one. -/
structure Digits where
  first : Fin 10
  rest : List (Fin 10)

def digit (d : Fin 10) : UInt8 := (0x30 + d.val).toUInt8

def Digits.text (d : Digits) : Text := digit d.first :: d.rest.map digit

def Digits.value (d : Digits) : Nat := d.rest.foldl (fun n d => 10 * n + d.val) d.first.val

structure Exponent where
  mark : UInt8
  sign : Text
  digits : Digits
  valid : mark ∈ [0x65, 0x45] ∧ sign ∈ [[], [plus], [hyphen]]

structure Number where
  negative : Bool
  whole : Digits
  fraction : Option Digits
  exponent : Option Exponent
  valid : whole.first = 0 → whole.rest = []

namespace Number

def text (n : Number) : Text :=
  (if n.negative then [hyphen] else []) ++ n.whole.text ++
    n.fraction.elim [] (fun d => point :: d.text) ++
    n.exponent.elim [] (fun e => e.mark :: (e.sign ++ e.digits.text))

/-- The integer that is written, if there is neither a fraction nor an exponent. -/
def int? (n : Number) : Option Int :=
  match n.fraction, n.exponent with
  | none, none => some (if n.negative then -n.whole.value else n.whole.value)
  | _, _ => none

end Number

/-! ## Values -/

inductive Word where
  | null
  | true
  | false

def Word.text : Word → Text
  | null => "null"
  | true => "true"
  | false => "false"

/-- The blanks around an element. -/
structure Padding where
  before : Blanks
  after : Blanks

/-- The name of a member, with all the blanks of the member. -/
structure Heading where
  before : Blanks
  name : List Piece
  beforeColon : Blanks
  afterColon : Blanks
  after : Blanks

end Json

/-- A JSON value as it is written. -/
inductive Json where
  | word (w : Json.Word)
  | number (n : Json.Number)
  | string (s : List Json.Piece)
  | array (blanks : Json.Blanks) (elements : List (Json.Padding × Json))
  | object (blanks : Json.Blanks) (members : List (Json.Heading × Json))

namespace Json

open Text

/-- A comma, if more is to come. -/
def separator {α : Type} : List α → Text
  | [] => []
  | _ :: _ => [comma]

mutual

def text : Json → Text
  | word w => w.text
  | number n => n.text
  | string s => quoted s
  | array blanks elements =>
    openBracket :: (blanks.text ++ (elementsText elements ++ [closeBracket]))
  | object blanks members =>
    openBrace :: (blanks.text ++ (membersText members ++ [closeBrace]))

def elementsText : List (Padding × Json) → Text
  | [] => []
  | (p, j) :: rest =>
    p.before.text ++ (j.text ++ (p.after.text ++ (separator rest ++ elementsText rest)))

def membersText : List (Heading × Json) → Text
  | [] => []
  | (h, j) :: rest =>
    h.before.text ++ (quoted h.name ++ (h.beforeColon.text ++ (colon :: (h.afterColon.text ++
      (j.text ++ (h.after.text ++ (separator rest ++ membersText rest)))))))

end

/-! ## Objects -/

def Heading.IsLegible (h : Heading) : Prop := Legible (spelling h.name)

/-- No member has the name. -/
def Lacks (members : List (Heading × Json)) (name : Text) : Prop :=
  ∀ m ∈ members, ¬ Spells m.1.name name

/-- This is the value of the first member that has the name. -/
def Has (members : List (Heading × Json)) (name : Text) (j : Json) : Prop :=
  ∃ before h after, members = before ++ (h, j) :: after ∧ Spells h.name name ∧ Lacks before name

/-- One member has the name, and this is its value. -/
def Holds (members : List (Heading × Json)) (name : Text) (j : Json) : Prop :=
  ∃ before h after, members = before ++ (h, j) :: after ∧ Spells h.name name ∧
    Lacks before name ∧ Lacks after name

/-- This is the value of the first member that has the name, and all names before it can be read. -/
def Leads (members : List (Heading × Json)) (name : Text) (j : Json) : Prop :=
  ∃ before h after, members = before ++ (h, j) :: after ∧ Spells h.name name ∧
    Lacks before name ∧ ∀ m ∈ before, m.1.IsLegible

mutual

/-- The name of every member can be read, at every depth. -/
def IsLegible : Json → Prop
  | array _ elements => AreLegible elements
  | object _ members => NamesLegible members
  | _ => True

def AreLegible : List (Padding × Json) → Prop
  | [] => True
  | (_, j) :: rest => j.IsLegible ∧ AreLegible rest

def NamesLegible : List (Heading × Json) → Prop
  | [] => True
  | (h, j) :: rest => h.IsLegible ∧ j.IsLegible ∧ NamesLegible rest

end

/-! ## The first member of a name -/

/-- There is one first member of a name. -/
theorem first_unique {name : Text} {before after before' after' : List (Heading × Json)}
    {m m' : Heading × Json} (heq : before ++ m :: after = before' ++ m' :: after')
    (hbefore : Lacks before name) (hm : Spells m.1.name name) (hbefore' : Lacks before' name)
    (hm' : Spells m'.1.name name) : m = m' ∧ after = after' := by
  induction before generalizing before' with
  | nil =>
    cases before' with
    | nil => exact List.cons.inj heq
    | cons k before' =>
      obtain ⟨rfl, -⟩ := List.cons.inj heq
      exact absurd hm (hbefore' m (.head _))
  | cons k before ih =>
    cases before' with
    | nil =>
      obtain ⟨rfl, -⟩ := List.cons.inj heq
      exact absurd hm' (hbefore k (.head _))
    | cons k' before' =>
      obtain ⟨-, heq⟩ := List.cons.inj heq
      exact ih heq (fun m hm => hbefore m (.tail _ hm)) fun m hm => hbefore' m (.tail _ hm)

section

variable {members : List (Heading × Json)} {name : Text} {j : Json}

theorem Holds.has (h : Holds members name j) : Has members name j := by
  obtain ⟨before, heading, after, hmembers, hname, hbefore, -⟩ := h
  exact ⟨before, heading, after, hmembers, hname, hbefore⟩

theorem Leads.has (h : Leads members name j) : Has members name j := by
  obtain ⟨before, heading, after, hmembers, hname, hbefore, -⟩ := h
  exact ⟨before, heading, after, hmembers, hname, hbefore⟩

/-- What stands behind the first member of a name makes no difference. -/
theorem Has.append (h : Has members name j) (rest : List (Heading × Json)) :
    Has (members ++ rest) name j := by
  obtain ⟨before, heading, after, rfl, hname, hbefore⟩ := h
  exact ⟨before, heading, after ++ rest, by simp, hname, hbefore⟩

theorem Leads.append (h : Leads members name j) (rest : List (Heading × Json)) :
    Leads (members ++ rest) name j := by
  obtain ⟨before, heading, after, rfl, hname, hbefore, hlegible⟩ := h
  exact ⟨before, heading, after ++ rest, by simp, hname, hbefore, hlegible⟩

theorem Lacks.not_has (h : Lacks members name) : ¬ Has members name j := by
  rintro ⟨before, heading, after, rfl, hname, -⟩
  exact h (heading, j) (by simp) hname

theorem Has.unique {j' : Json} (h : Has members name j) (h' : Has members name j') : j = j' := by
  obtain ⟨before, heading, after, rfl, hname, hbefore⟩ := h
  obtain ⟨before', heading', after', heq, hname', hbefore'⟩ := h'
  obtain ⟨hm, -⟩ := first_unique heq hbefore hname hbefore' hname'
  exact congrArg Prod.snd hm

theorem NamesLegible.of_mem (h : NamesLegible members) :
    ∀ m ∈ members, m.1.IsLegible ∧ m.2.IsLegible := by
  induction members with
  | nil => exact nofun
  | cons m members ih =>
    obtain ⟨hname, hvalue, hmembers⟩ := h
    exact List.forall_mem_cons.mpr ⟨⟨hname, hvalue⟩, ih hmembers⟩

theorem Has.leads_of_legible (h : Has members name j) (hlegible : NamesLegible members) :
    Leads members name j ∧ j.IsLegible := by
  obtain ⟨before, heading, after, rfl, hname, hbefore⟩ := h
  have hall := hlegible.of_mem
  refine ⟨⟨before, heading, after, rfl, hname, hbefore, fun m hm => ?_⟩, ?_⟩
  · exact (hall m (List.mem_append_left _ hm)).1
  · exact (hall (heading, j) (by simp)).2

/-- The search comes to the member that counts, or to none. -/
theorem Has.leads_or (h : Has members name j) :
    Leads members name j ∨ ∀ j', ¬ Leads members name j' := by
  by_cases hleads : Leads members name j
  · exact .inl hleads
  · refine .inr fun j' h' => hleads ?_
    rw [h.unique h'.has]
    exact h'

end

end Json
end Stepwise
