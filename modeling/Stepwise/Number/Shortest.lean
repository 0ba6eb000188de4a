/-
The text of a binary64 number: the fewest decimal digits that read back as the
same number, in positional notation, however large or small the number is.

A finite number is `m * 2 ^ q`.  The decimals that read back as it fill the
interval up to half way to its two neighbours, ends included when `m` is even.
Everything is scaled to whole numbers, so the search is exact.
-/
import Stepwise.Text.Basic

namespace Stepwise
namespace Shortest

open Text

/-- A decimal `digits * 10 ^ exponent`. -/
structure Decimal where
  digits : Nat
  exponent : Int
deriving DecidableEq

/-- The interval of reals that round to a positive number: the number itself, the
ends, and whether the ends belong, all over one denominator. -/
structure Interval where
  low : Nat
  value : Nat
  high : Nat
  denominator : Nat
  closed : Bool

/-- The interval of `m * 2 ^ q`.  Below a power of two the neighbour is half as far
away, except below the least normal number. -/
def Interval.of (m : Nat) (q : Int) (narrow : Bool) : Interval :=
  let up := Nat.pow 2 (q - 2).toNat
  { low := (4 * m - if narrow then 1 else 2) * up
    value := 4 * m * up
    high := (4 * m + 2) * up
    denominator := Nat.pow 2 (2 - q).toNat
    closed := m % 2 == 0 }

def digitCount (n : Nat) : Nat := (Nat.toDigits 10 n).length

/-- The exponent `e` with `10 ^ (e - 1) ≤ value < 10 ^ e`.  Below one it is found from
the inverse, which needs one digit less when it is a power of ten. -/
def Interval.magnitude (i : Interval) : Int :=
  if i.denominator ≤ i.value then digitCount (i.value / i.denominator)
  else
    let count := digitCount (i.denominator / i.value)
    if i.denominator = i.value * Nat.pow 10 (count - 1) then 2 - count else 1 - count

/-- Whether `digits * 10 ^ exponent` lies in the interval. -/
def Interval.holds (i : Interval) (d : Decimal) : Bool :=
  let x := d.digits * Nat.pow 10 d.exponent.toNat * i.denominator
  let scale := Nat.pow 10 (-d.exponent).toNat
  if i.closed then i.low * scale ≤ x && x ≤ i.high * scale
  else i.low * scale < x && x < i.high * scale

/-- The decimals of `count` digits next to the value, from below and from above,
that lie in the interval; of two the nearer, and half way the even one. -/
def Interval.nearest? (i : Interval) (count : Nat) : Option Decimal :=
  let exponent := i.magnitude - count
  let unit := Nat.pow 10 exponent.toNat * i.denominator
  let value := i.value * Nat.pow 10 (-exponent).toNat
  let below : Decimal := { digits := value / unit, exponent }
  let above : Decimal := { digits := value / unit + 1, exponent }
  match i.holds below, i.holds above with
  | false, false => none
  | true, false => some below
  | false, true => some above
  | true, true =>
    let rest := 2 * (value % unit)
    if rest < unit then some below
    else if unit < rest then some above
    else if below.digits % 2 = 0 then some below else some above

/-- Seventeen digits always suffice. -/
def maxDigits : Nat := 17

def Interval.shortest (i : Interval) : Decimal :=
  ((List.range maxDigits).findSome? fun n => i.nearest? (n + 1)).getD { digits := 0, exponent := 0 }

/-! ## Positional notation -/

/-- Drops zeros at the end. -/
def trimZeros (t : Text) : Text := (t.reverse.dropWhile (· = zero)).reverse

/-- The decimal written out, without needless zeros behind the point. -/
def Decimal.positional (d : Decimal) : Text :=
  let digits := ofNat d.digits
  match d.exponent with
  | .ofNat n => digits ++ List.replicate n zero
  | .negSucc n =>
    let count := n + 1
    let whole := digits.take (digits.length - count)
    let fraction := trimZeros
      (List.replicate (count - digits.length) zero ++ digits.drop (digits.length - count))
    (if whole.isEmpty then [zero] else whole) ++
      (if fraction.isEmpty then [] else point :: fraction)

/-! ## Binary64 -/

def mantissaBits : Nat := 52

/-- The text of the number with these bits. -/
def ofBits (bits : UInt64) : Text :=
  let sign : Text := if bits >>> 63 = 0 then [] else [hyphen]
  let exponent := ((bits >>> 52) &&& 0x7ff).toNat
  let fraction := (bits &&& 0xfffffffffffff).toNat
  if exponent = 0x7ff then
    if fraction ≠ 0 then "NaN" else if bits >>> 63 = 0 then "+Inf" else "-Inf"
  else if exponent = 0 then
    if fraction = 0 then sign ++ [zero]
    else sign ++ (Interval.of fraction (-1074) false).shortest.positional
  else
    let m := fraction + Nat.pow 2 mantissaBits
    let narrow := fraction == 0 && exponent != 1
    sign ++ (Interval.of m (exponent - 1075) narrow).shortest.positional

end Shortest

/-- The shortest text that reads back as `x`. -/
def numberText (x : Float) : Text := Shortest.ofBits x.toBits

end Stepwise
