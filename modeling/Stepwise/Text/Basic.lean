/-
Byte strings.  Names, numerals and messages need not be valid UTF-8, and names
are ordered byte by byte, so a text is the list of its bytes.
-/

namespace Stepwise

/-- A string of bytes. -/
abbrev Text := List UInt8

namespace Text

def ofString (s : String) : Text := s.toByteArray.data.toList

instance : Coe String Text := ⟨ofString⟩

/-! ## The bytes that the formats give a meaning -/

@[match_pattern] abbrev tab : UInt8 := 0x09
@[match_pattern] abbrev newline : UInt8 := 0x0a
@[match_pattern] abbrev carriageReturn : UInt8 := 0x0d
@[match_pattern] abbrev blank : UInt8 := 0x20
@[match_pattern] abbrev quote : UInt8 := 0x22
@[match_pattern] abbrev plus : UInt8 := 0x2b
@[match_pattern] abbrev comma : UInt8 := 0x2c
@[match_pattern] abbrev hyphen : UInt8 := 0x2d
@[match_pattern] abbrev point : UInt8 := 0x2e
@[match_pattern] abbrev slash : UInt8 := 0x2f
@[match_pattern] abbrev zero : UInt8 := 0x30
@[match_pattern] abbrev colon : UInt8 := 0x3a
@[match_pattern] abbrev equals : UInt8 := 0x3d
@[match_pattern] abbrev openBracket : UInt8 := 0x5b
@[match_pattern] abbrev backslash : UInt8 := 0x5c
@[match_pattern] abbrev closeBracket : UInt8 := 0x5d
@[match_pattern] abbrev underscore : UInt8 := 0x5f
@[match_pattern] abbrev openBrace : UInt8 := 0x7b
@[match_pattern] abbrev closeBrace : UInt8 := 0x7d

/-! ## Letters and digits -/

def isDigit (b : UInt8) : Bool := 0x30 ≤ b && b ≤ 0x39

/-- The byte with the case bit of ASCII letters set. -/
def lower (b : UInt8) : UInt8 := b ||| 0x20

def digitValue? (b : UInt8) : Option Nat :=
  if isDigit b then some (b.toNat - 0x30) else none

/-- The value of a hexadecimal digit of either case. -/
def hexValue? (b : UInt8) : Option Nat :=
  if isDigit b then some (b.toNat - 0x30)
  else if 0x61 ≤ lower b && lower b ≤ 0x66 then some (lower b - 0x61 + 10).toNat
  else none

/-- The byte of a hexadecimal digit in lower case. -/
def hexDigit (n : Nat) : UInt8 :=
  if n < 10 then (0x30 + n).toUInt8 else (0x61 + (n - 10)).toUInt8

/-- The last `width` hexadecimal digits of `n`. -/
def hex : (width : Nat) → (n : Nat) → Text
  | 0, _ => []
  | width + 1, n => hex width (n / 16) ++ [hexDigit (n % 16)]

/-! ## Numbers in decimal -/

def ofNat (n : Nat) : Text := (Nat.toDigits 10 n).map fun c => c.toNat.toUInt8

def ofInt : Int → Text
  | .ofNat n => ofNat n
  | .negSucc n => hyphen :: ofNat (n + 1)

/-- `n` in decimal, with blanks in front up to `width` bytes. -/
def padded (width n : Nat) : Text :=
  List.replicate (width - (ofNat n).length) blank ++ ofNat n

theorem toNat_digit {n : Nat} {c : Char} (h : c ∈ Nat.toDigits 10 n) :
    c.toNat.toUInt8.toNat = c.toNat ∧ 0x30 ≤ c.toNat ∧ c.toNat ≤ 0x39 := by
  have hdigit : c.isDigit = true := Nat.isDigit_of_mem_toDigits (by decide) (by decide) h
  simp only [Char.isDigit, Bool.and_eq_true, decide_eq_true_eq] at hdigit
  have hrange : 0x30 ≤ c.toNat ∧ c.toNat ≤ 0x39 := hdigit
  exact ⟨UInt8.toNat_ofNat_of_lt' (Nat.lt_of_le_of_lt hrange.2 (by decide)), hrange⟩

theorem isDigit_of_mem_ofNat {n : Nat} {b : UInt8} (h : b ∈ ofNat n) : isDigit b = true := by
  obtain ⟨c, hc, rfl⟩ := List.mem_map.mp h
  obtain ⟨htoNat, hlow, hhigh⟩ := toNat_digit hc
  rw [← htoNat] at hlow hhigh
  exact (Bool.and_eq_true _ _).mpr ⟨decide_eq_true hlow, decide_eq_true hhigh⟩

theorem foldl_map_toUInt8 {cs : List Char} (hcs : ∀ c ∈ cs, c.toNat.toUInt8.toNat = c.toNat)
    (m : Nat) :
    (cs.map fun c => c.toNat.toUInt8).foldl (fun m b => 10 * m + (b.toNat - 0x30)) m =
      Nat.ofDigitChars 10 cs m := by
  induction cs generalizing m with
  | nil => rfl
  | cons c cs ih =>
    obtain ⟨hc, hcs⟩ := List.forall_mem_cons.mp hcs
    rw [List.map_cons, List.foldl_cons, hc, ih hcs, Nat.ofDigitChars_cons]
    rfl

/-- The digits are those of the number. -/
theorem foldl_ofNat (n : Nat) : (ofNat n).foldl (fun m b => 10 * m + (b.toNat - 0x30)) 0 = n := by
  rw [ofNat, foldl_map_toUInt8 fun c hc => (toNat_digit hc).1]
  exact Nat.ofDigitChars_ten_toDigits

/-- Blanks before the digits of the number, so many that there are `width` bytes, or none if there
are as many digits. -/
theorem padded_eq (width n : Nat) :
    ∃ (blanks : Nat) (digits : Text), padded width n = List.replicate blanks blank ++ digits ∧
      (∀ b ∈ digits, isDigit b = true) ∧
      digits.foldl (fun m b => 10 * m + (b.toNat - 0x30)) 0 = n ∧
      blanks + digits.length = max width digits.length := by
  refine ⟨width - (ofNat n).length, ofNat n, rfl, fun _ => isDigit_of_mem_ofNat, foldl_ofNat n, ?_⟩
  omega

/-! ## Joining -/

/-- The texts one after another with `gap` between neighbours. -/
def join (gap : Text) : List Text → Text
  | [] => []
  | [t] => t
  | t :: ts => t ++ gap ++ join gap ts

end Text
end Stepwise
