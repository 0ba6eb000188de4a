/-
Numerals: the lexemes that denote binary64 numbers.  After an optional sign comes
a decimal or a hexadecimal mantissa with an exponent, or the name of an infinity;
`nan` takes no sign.  A numeral denotes the number nearest to its exact value,
ties going to the even mantissa; one whose nearest number is infinite is refused.
-/
import Stepwise.Text.Quoted

namespace Stepwise
namespace Numeral

open Text

/-- Why a lexeme denotes no number. -/
inductive Error where
  | malformed (lexeme : Text)
  | outOfRange (lexeme : Text)
deriving DecidableEq

def Error.message : Error → Text
  | malformed lexeme => "strconv.ParseFloat: parsing " ++ quoted lexeme ++ ": invalid syntax"
  | outOfRange lexeme => "strconv.ParseFloat: parsing " ++ quoted lexeme ++ ": value out of range"

/-- The two bases of a mantissa.  The exponent counts tens or twos. -/
inductive Base where
  | decimal
  | hexadecimal
deriving DecidableEq

namespace Base

def radix : Base → Nat
  | decimal => 10
  | hexadecimal => 16

def digit? : Base → UInt8 → Option Nat
  | decimal => digitValue?
  | hexadecimal => hexValue?

/-- The letter, in lower case, that starts the exponent. -/
def exponentMark : Base → UInt8
  | decimal => 0x65
  | hexadecimal => 0x70

end Base

/-! ## The parts of a numeral -/

def takeSign : Text → Bool × Text
  | plus :: t => (false, t)
  | hyphen :: t => (true, t)
  | t => (false, t)

/-- The base, told by a leading `0x` that something follows. -/
def takeBase : Text → Base × Text
  | zero :: x :: b :: t =>
    if lower x = 0x78 then (.hexadecimal, b :: t) else (.decimal, zero :: x :: b :: t)
  | t => (.decimal, t)

/-- Digits read so far: their value, how many stand behind the point, whether the
point was read, and whether there was any digit. -/
structure Mantissa where
  value : Nat := 0
  places : Nat := 0
  pointed : Bool := false
  any : Bool := false
deriving DecidableEq

namespace Mantissa

def push (base : Base) (m : Mantissa) (digit : Nat) : Mantissa :=
  { m with
    value := m.value * base.radix + digit
    places := if m.pointed then m.places + 1 else m.places
    any := true }

/-- Reads digits, underscores and at most one point. -/
def take (base : Base) (m : Mantissa) : Text → Mantissa × Text
  | [] => (m, [])
  | b :: t =>
    if b = underscore then take base m t
    else if b = point then
      if m.pointed then (m, b :: t) else take base { m with pointed := true } t
    else
      match base.digit? b with
      | some d => take base (m.push base d) t
      | none => (m, b :: t)

end Mantissa

/-- Exponents stop growing once they are past every number's reach. -/
def exponentReach : Nat := 10000

def takeExponentDigits (e : Nat) : Text → Nat × Text
  | [] => (e, [])
  | b :: t =>
    if b = underscore then takeExponentDigits e t
    else
      match digitValue? b with
      | some d => takeExponentDigits (if e < exponentReach then e * 10 + d else e) t
      | none => (e, b :: t)

/-- Reads the exponent, which a hexadecimal numeral must have.  Its first byte after
the sign is a digit. -/
def takeExponent (base : Base) : Text → Option (Int × Text)
  | b :: t =>
    if lower b = base.exponentMark then
      let (negative, digits) := takeSign t
      match digits with
      | d :: _ =>
        if isDigit d then
          let (e, rest) := takeExponentDigits 0 digits
          some (if negative then -(e : Int) else e, rest)
        else none
      | [] => none
    else absent (b :: t)
  | [] => absent []
where
  absent (t : Text) : Option (Int × Text) :=
    match base with
    | .decimal => some (0, t)
    | .hexadecimal => none

/-! ## Underscores -/

/-- What stands in front of a byte, for the rule on underscores. -/
inductive Before where
  | digit
  | underscore
  | other
deriving DecidableEq

/-- Each underscore follows a digit and is followed by one. -/
def separates (base : Base) : Before → Text → Bool
  | before, [] => before != .underscore
  | before, b :: t =>
    if (base.digit? b).isSome then separates base .digit t
    else if b = underscore then before == .digit && separates base .underscore t
    else before != .underscore && separates base .other t

/-- The rule for what follows the sign.  The `0x` counts as a digit. -/
def underscoresSeparate (t : Text) : Bool :=
  match takeBase t with
  | (.decimal, t) => separates .decimal .other t
  | (.hexadecimal, t) => separates .hexadecimal .digit t

/-! ## Values -/

def infinity : Float := 1.0 / 0.0

def nan : Float := 0.0 / 0.0

/-- The number nearest to `m * 10 ^ e`. -/
def nearestDecimal (m : Nat) (e : Int) : Float :=
  let size := (Nat.toDigits 10 m).length
  if m = 0 then 0.0
  else if 310 < size + e then infinity
  else if size + e < -330 then 0.0
  else Float.ofScientific m (decide (e < 0)) e.natAbs

/-- The number nearest to `m * 2 ^ e`.  A negative power of two is a decimal
fraction, so the decimal case serves both signs. -/
def nearestBinary (m : Nat) (e : Int) : Float :=
  let size := m.log2 + 1
  if m = 0 then 0.0
  else if 1030 < size + e then infinity
  else if size + e < -1100 then 0.0
  else if e < 0 then Float.ofScientific (m * Nat.pow 5 e.natAbs) true e.natAbs
  else Float.ofScientific (m * Nat.pow 2 e.natAbs) false 0

def nearest : Base → Mantissa → Int → Float
  | .decimal, m, e => nearestDecimal m.value (e - m.places)
  | .hexadecimal, m, e => nearestBinary m.value (e - 4 * m.places)

/-- The unsigned number of digits and exponent that `t` spells out, if it does. -/
def magnitude? (t : Text) : Option Float :=
  let (base, digits) := takeBase t
  let (m, rest) := Mantissa.take base {} digits
  if m.any then
    match takeExponent base rest with
    | some (e, []) => if underscoresSeparate t then some (nearest base m e) else none
    | _ => none
  else none

def isInfinityName (t : Text) : Bool :=
  let name := t.map lower
  name == "inf" || name == "infinity"

def read (lexeme : Text) : Except Error Float :=
  let (negative, t) := takeSign lexeme
  let signed (x : Float) := if negative then -x else x
  if isInfinityName t then .ok (signed infinity)
  else if lexeme.map lower = "nan" then .ok nan
  else
    match magnitude? t with
    | none => .error (.malformed lexeme)
    | some x => if x == infinity then .error (.outOfRange lexeme) else .ok (signed x)

end Numeral
end Stepwise
