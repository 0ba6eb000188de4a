/-
Scanning JSON without checking it.  The scanners below find where a string, a block
in brackets or braces, or a bare token ends, and look at nothing else inside.  Text
that is no JSON at all is scanned by the same rules, so these rules are the format.
-/
import Stepwise.Text.Utf8

namespace Stepwise
namespace Wire

open Text

def isBlank (b : UInt8) : Bool :=
  b = blank || b = newline || b = carriageReturn || b = tab

def skipBlanks (t : Text) : Text := t.dropWhile isBlank

/-- Splits behind the quote that ends a string.  `odd` tells that an odd number of
backslashes stands just before; a quote there belongs to the string. -/
def takeString (odd : Bool) : Text → Option (Text × Text)
  | [] => none
  | b :: t =>
    if b = quote && !odd then some ([], t)
    else (takeString (b = backslash && !odd) t).map fun (s, rest) => (b :: s, rest)

/-- Splits behind the `closing` that brings the level back to zero.  Only the two
given bytes count, and none inside a string; `inside` is the parity of backslashes
while in one. -/
def takeBlock (opening closing : UInt8) :
    (level : Nat) → (inside : Option Bool) → Text → Option (Text × Text)
  | _, _, [] => none
  | level, some odd, b :: t =>
    let inside := if b = quote && !odd then none else some (b = backslash && !odd)
    (takeBlock opening closing level inside t).map fun (s, rest) => (b :: s, rest)
  | level, none, b :: t =>
    if b = quote then
      (takeBlock opening closing level (some false) t).map fun (s, rest) => (b :: s, rest)
    else if b = opening then
      (takeBlock opening closing (level + 1) none t).map fun (s, rest) => (b :: s, rest)
    else if b = closing then
      if level ≤ 1 then some ([b], t)
      else (takeBlock opening closing (level - 1) none t).map fun (s, rest) => (b :: s, rest)
    else (takeBlock opening closing level none t).map fun (s, rest) => (b :: s, rest)

/-- A bare token ends at a blank, a comma, a closing bracket or brace, or the end. -/
def endsToken (b : UInt8) : Bool :=
  isBlank b || b = comma || b = closeBrace || b = closeBracket

def takeToken (t : Text) : Text × Text :=
  (t.takeWhile (!endsToken ·), t.dropWhile (!endsToken ·))

/-! ## Nothing is lost -/

theorem takeString_append {odd : Bool} {t s rest : Text}
    (h : takeString odd t = some (s, rest)) : t = s ++ quote :: rest := by
  induction t generalizing odd s with
  | nil => simp [takeString] at h
  | cons b t ih =>
    simp only [takeString] at h
    split at h
    · simp_all
    · obtain ⟨⟨s', rest'⟩, h', heq⟩ := Option.map_eq_some_iff.1 h
      obtain ⟨rfl, rfl⟩ := Prod.mk.inj heq
      simp [ih h']

theorem takeBlock_append {opening closing : UInt8} {level : Nat} {inside : Option Bool}
    {t s rest : Text} (h : takeBlock opening closing level inside t = some (s, rest)) :
    t = s ++ rest := by
  induction t generalizing level inside s with
  | nil => simp [takeBlock] at h
  | cons b t ih =>
    have step {level inside} (h : (takeBlock opening closing level inside t).map
        (fun x => (b :: x.1, x.2)) = some (s, rest)) : b :: t = s ++ rest := by
      obtain ⟨⟨s', rest'⟩, h', heq⟩ := Option.map_eq_some_iff.1 h
      obtain ⟨rfl, rfl⟩ := Prod.mk.inj heq
      simp [ih h']
    cases inside with
    | some odd => exact step h
    | none =>
      simp only [takeBlock] at h
      split at h
      · exact step h
      · split at h
        · exact step h
        · split at h
          · split at h
            · obtain ⟨rfl, rfl⟩ := Prod.mk.inj (Option.some.inj h)
              rfl
            · exact step h
          · exact step h

theorem takeBlock_ne_nil {opening closing : UInt8} {level : Nat} {inside : Option Bool}
    {t s rest : Text} (h : takeBlock opening closing level inside t = some (s, rest)) :
    s ≠ [] := by
  cases t with
  | nil => simp [takeBlock] at h
  | cons b t =>
    rintro rfl
    cases inside with
    | some odd => simp [takeBlock] at h
    | none =>
      simp only [takeBlock] at h
      split at h
      · simp at h
      · split at h
        · simp at h
        · split at h
          · split at h <;> simp at h
          · simp at h

theorem skipBlanks_length (t : Text) : (skipBlanks t).length ≤ t.length :=
  (List.dropWhile_sublist _).length_le

theorem takeString_length {odd : Bool} {t s rest : Text}
    (h : takeString odd t = some (s, rest)) : s.length + rest.length < t.length := by
  rw [takeString_append h]
  simp

theorem takeBlock_length {opening closing : UInt8} {level : Nat} {inside : Option Bool}
    {t s rest : Text} (h : takeBlock opening closing level inside t = some (s, rest)) :
    rest.length < t.length := by
  have := List.length_pos_iff.2 (takeBlock_ne_nil h)
  rw [takeBlock_append h, List.length_append]
  omega

end Wire
end Stepwise
