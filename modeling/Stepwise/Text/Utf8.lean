/-
Reading and writing single code points in UTF-8.  Overlong forms, surrogates and
values past U+10FFFF are not read.
-/
import Stepwise.Text.Basic

namespace Stepwise
namespace Text

/-- A code point that UTF-8 can carry. -/
def isScalar (code : Nat) : Bool :=
  code < 0xd800 || (0xe000 ≤ code && code < 0x110000)

/-- Takes `count` continuation bytes, six bits each, below the bits read so far. -/
def takeContinuation : (count : Nat) → (bits : Nat) → Text → Option (Nat × Text)
  | 0, bits, t => some (bits, t)
  | _ + 1, _, [] => none
  | count + 1, bits, b :: t =>
    if b &&& 0xc0 = 0x80 then takeContinuation count (bits * 64 + (b &&& 0x3f).toNat) t else none

/-- A form of `count` continuation bytes, which is for code points from `least` on. -/
def takeForm (count least : Nat) (lead : UInt8) (t : Text) : Option (Nat × Text) :=
  (takeContinuation count lead.toNat t).filter fun (code, _) => least ≤ code && isScalar code

/-- The code point whose form stands first in the text, and what follows it. -/
def front? : Text → Option (Nat × Text)
  | [] => none
  | b :: t =>
    if b < 0x80 then some (b.toNat, t)
    else if b &&& 0xe0 = 0xc0 then takeForm 1 0x80 (b &&& 0x1f) t
    else if b &&& 0xf0 = 0xe0 then takeForm 2 0x800 (b &&& 0x0f) t
    else if b &&& 0xf8 = 0xf0 then takeForm 3 0x10000 (b &&& 0x07) t
    else none

theorem takeContinuation_length {count bits code : Nat} {t r : Text}
    (h : takeContinuation count bits t = some (code, r)) : r.length ≤ t.length := by
  induction count generalizing bits t with
  | zero => simp_all [takeContinuation]
  | succ count ih =>
    cases t with
    | nil => simp [takeContinuation] at h
    | cons b t =>
      simp only [takeContinuation] at h
      split at h
      · have := ih h
        simp only [List.length_cons]
        omega
      · simp at h

theorem takeForm_length {count least code : Nat} {lead : UInt8} {t r : Text}
    (h : takeForm count least lead t = some (code, r)) : r.length ≤ t.length :=
  takeContinuation_length (Option.filter_eq_some_iff.1 h).1

theorem front?_length {t r : Text} {code : Nat} (h : front? t = some (code, r)) :
    r.length < t.length := by
  cases t with
  | nil => simp [front?] at h
  | cons b t =>
    simp only [front?] at h
    simp only [List.length_cons, Nat.lt_add_one_iff]
    split at h
    · simp_all
    · split at h
      · exact takeForm_length h
      · split at h
        · exact takeForm_length h
        · split at h
          · exact takeForm_length h
          · simp at h

/-- The bytes of a code point; one that UTF-8 cannot carry becomes U+FFFD. -/
def ofCode (code : Nat) : Text :=
  String.utf8EncodeChar (Char.ofNat (if isScalar code then code else 0xfffd))

end Text
end Stepwise
