/-
Escapes in strings.  A `\u` names a code point below U+10000; one for a surrogate takes
a second such escape with it, and the two name a code point from U+10000 on.
-/
import Stepwise.Text.Utf8

namespace Stepwise
namespace Wire

open Text

/-- Reads `count` hexadecimal digits below those read so far. -/
def takeHex : (count : Nat) → (code : Nat) → Text → Option (Nat × Text)
  | 0, code, t => some (code, t)
  | _ + 1, _, [] => none
  | count + 1, code, b :: t => do
    let d ← hexValue? b
    takeHex count (code * 16 + d) t

def letterEscape? (b : UInt8) : Option UInt8 :=
  if b = quote || b = backslash || b = slash then some b
  else if b = 0x62 then some 0x08
  else if b = 0x66 then some 0x0c
  else if b = 0x6e then some newline
  else if b = 0x72 then some carriageReturn
  else if b = 0x74 then some tab
  else none

/-- The second half of a pair, whose first two bytes are passed over unread.  Any
code from U+DC00 on will do; the pair may then name no code point at all, and stands
for U+FFFD. -/
def takeLowHalf (high : Nat) : Text → Option (Text × Text)
  | _ :: _ :: t => do
    let (low, rest) ← takeHex 4 0 t
    if low < 0xdc00 then none
    else some (ofCode (0x10000 + (high - 0xd800) * 0x400 + (low - 0xdc00)), rest)
  | _ => none

/-- What an escape stands for, from the byte after its backslash. -/
def takeEscape : Text → Option (Text × Text)
  | [] => none
  | b :: t =>
    if b = 0x75 then do
      let (code, rest) ← takeHex 4 0 t
      if 0xd800 ≤ code && code < 0xe000 then takeLowHalf code rest
      else some (ofCode code, rest)
    else (letterEscape? b).map fun c => ([c], t)

theorem takeHex_length {count code n : Nat} {t rest : Text}
    (h : takeHex count code t = some (n, rest)) : rest.length ≤ t.length := by
  induction count generalizing code t with
  | zero => simp_all [takeHex]
  | succ count ih =>
    cases t with
    | nil => simp [takeHex] at h
    | cons b t =>
      obtain ⟨d, -, h⟩ := Option.bind_eq_some_iff.1 h
      have := ih h
      simp only [List.length_cons]
      omega

theorem takeLowHalf_length {high : Nat} {t s rest : Text}
    (h : takeLowHalf high t = some (s, rest)) : rest.length ≤ t.length := by
  match t with
  | [] => simp [takeLowHalf] at h
  | [_] => simp [takeLowHalf] at h
  | _ :: _ :: t =>
    obtain ⟨⟨low, rest'⟩, h', h⟩ := Option.bind_eq_some_iff.1 h
    have := takeHex_length h'
    dsimp only at h
    split at h
    · simp at h
    · obtain ⟨-, rfl⟩ := Prod.mk.inj (Option.some.inj h)
      simp only [List.length_cons]
      omega

theorem takeEscape_length {t s rest : Text} (h : takeEscape t = some (s, rest)) :
    rest.length ≤ t.length := by
  cases t with
  | nil => simp [takeEscape] at h
  | cons b t =>
    simp only [takeEscape] at h
    simp only [List.length_cons]
    split at h
    · obtain ⟨⟨code, rest'⟩, h', h⟩ := Option.bind_eq_some_iff.1 h
      have := takeHex_length h'
      dsimp only at h
      split at h
      · have := takeLowHalf_length h
        omega
      · obtain ⟨-, rfl⟩ := Prod.mk.inj (Option.some.inj h)
        omega
    · obtain ⟨c, -, heq⟩ := Option.map_eq_some_iff.1 h
      simp_all

/-- The text that an escaped string stands for, if every escape in it is one. -/
def unescape? : Text → Option Text
  | [] => some []
  | b :: t =>
    if b = backslash then
      match _h : takeEscape t with
      | some (s, rest) => (unescape? rest).map (s ++ ·)
      | none => none
    else (unescape? t).map (b :: ·)
termination_by t => t.length
decreasing_by
  · have := takeEscape_length _h
    simp only [List.length_cons]
    omega
  · simp

end Wire
end Stepwise
