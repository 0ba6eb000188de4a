/-
Looking up parts of a scanned text: the value behind a path of keys, the elements of
an array, strings and integers.  The text of a part is a part of the text searched,
so a string is searched in turn like an object.
-/
import Stepwise.Wire.Escape
import Stepwise.Wire.Scan

namespace Stepwise
namespace Wire

open Text

/-- Why a part of the text cannot be had. -/
inductive ScanError where
  | keyNotFound
  | malformed
  | openString
  | openArray
  | openObject
  | unknownValue
  | badValue
  | overflow
  | notString (value : Text)
  | notNumber (value : Text)
deriving DecidableEq

def ScanError.message : ScanError → Text
  | keyNotFound => "Key path not found"
  | malformed => "Malformed JSON error"
  | openString => "Value is string, but can't find closing '\"' symbol"
  | openArray => "Value is array, but can't find closing ']' symbol"
  | openObject => "Value looks like object, but can't find closing '\x7d' symbol"
  | unknownValue => "Unknown value type"
  | badValue =>
    "Value looks like Number/Boolean/None, but can't find its end: ',' or '\x7d' symbol"
  | overflow => "Value is number, but overflowed while parsing"
  | notString value => "Value is not a string: " ++ value
  | notNumber value => "Value is not a number: " ++ value

/-! ## Keys -/

/-- How far a search for a path of keys has come. -/
structure Cursor where
  /-- Open braces, less closing ones. -/
  level : Int := 0
  /-- Keys of the path found so far. -/
  found : Int := 0
  /-- Whether the last key read is the one the path has at its level. -/
  matched : Bool := true
deriving DecidableEq

namespace Cursor

def openBrace (c : Cursor) : Cursor := { c with level := c.level + 1 }

/-- Leaving the object that held the last key found forgets that key. -/
def closeBrace (c : Cursor) : Cursor :=
  let level := c.level - 1
  { c with level, found := if level = c.found then c.found - 1 else c.found }

/-- A key at this level, which must be one that the path reaches. -/
def readKey (path : List Text) (c : Cursor) (key : Text) : Option Cursor :=
  if c.level < 1 || (path.length : Int) < c.level then none
  else if path[(c.level - 1).toNat]? = some key then
    some { c with matched := true, found := if c.found = c.level - 1 then c.level else c.found }
  else some { c with matched := false }

end Cursor

/-- The key that a string spells out. -/
def keyOf (s : Text) : Option Text := if s.contains backslash then unescape? s else some s

/-- What stands behind the colon of the last key of the path.  Objects under other
keys and all arrays are passed over; a colon out of place ends the search. -/
def search (path : List Text) (c : Cursor) : Text → Option Text
  | [] => none
  | b :: t =>
    if b = quote then
      match _hs : takeString false t with
      | none => none
      | some (s, rest) =>
        match _hb : skipBlanks rest with
        | [] => none
        | b' :: t' =>
          if b' = colon then
            match (keyOf s).bind (c.readKey path) with
            | none => none
            | some c' =>
              if c.found < c'.found && c'.found = path.length then some t'
              else search path c' t'
          else search path c (b' :: t')
    else if b = openBrace then
      if c.matched then search path c.openBrace t
      else
        match _hk : takeBlock openBrace closeBrace 0 none (b :: t) with
        | none => none
        | some (_, rest) => search path c rest
    else if b = closeBrace then search path c.closeBrace t
    else if b = openBracket then
      match _hk : takeBlock openBracket closeBracket 0 none (b :: t) with
      | none => none
      | some (_, rest) => search path c rest
    else if b = colon then none
    else search path c t
termination_by t => t.length
decreasing_by
  · have h₁ := takeString_length _hs
    have h₂ := skipBlanks_length rest
    rw [_hb] at h₂
    simp only [List.length_cons] at h₂ ⊢
    omega
  · have h₁ := takeString_length _hs
    have h₂ := skipBlanks_length rest
    rw [_hb] at h₂
    simp only [List.length_cons] at h₂ ⊢
    omega
  · simp
  · exact takeBlock_length _hk
  · simp
  · exact takeBlock_length _hk
  · simp

theorem search_length {path : List Text} {c : Cursor} {t rest : Text}
    (h : search path c t = some rest) : rest.length < t.length := by
  induction hn : t.length using Nat.strongRecOn generalizing t c with
  | _ n ih =>
    subst hn
    cases t with
    | nil => simp [search] at h
    | cons b t =>
      have shorter {c' : Cursor} {t' : Text} (ht : t'.length < (b :: t).length)
          (h : search path c' t' = some rest) : rest.length < (b :: t).length :=
        Nat.lt_trans (ih _ ht h rfl) ht
      rw [search] at h
      split at h
      · split at h
        · simp at h
        · rename_i s r hs
          have h₁ := takeString_length hs
          have h₂ := skipBlanks_length r
          split at h
          · simp at h
          · rename_i b' t' hb
            rw [hb] at h₂
            simp only [List.length_cons] at h₂
            split at h
            · split at h
              · simp at h
              · split at h
                · simp only [Option.some.injEq] at h
                  subst h
                  simp only [List.length_cons]
                  omega
                · exact shorter (by simp only [List.length_cons]; omega) h
            · exact shorter (by simp only [List.length_cons]; omega) h
      · split at h
        · split at h
          · exact shorter (by simp) h
          · split at h
            · simp at h
            · rename_i hk
              exact shorter (takeBlock_length hk) h
        · split at h
          · exact shorter (by simp) h
          · split at h
            · split at h
              · simp at h
              · rename_i hk
                exact shorter (takeBlock_length hk) h
            · split at h
              · simp at h
              · exact shorter (by simp) h

/-! ## Values -/

inductive Shape where
  | string
  | number
  | boolean
  | null
  | array
  | object
deriving DecidableEq

/-- A value found in a text.  The text of a string is what stands between the quotes,
with its escapes; other values keep their brackets or braces. -/
structure Item where
  shape : Shape
  text : Text
  rest : Text

def tokenShape? (token : Text) : Option Shape :=
  match token with
  | [] => none
  | b :: _ =>
    if b = 0x74 || b = 0x66 then
      if token == "true" || token == "false" then some .boolean else none
    else if b = 0x75 || b = 0x6e then
      if token == "null" then some .null else none
    else if isDigit b || b = hyphen then some .number
    else none

/-- The value that stands first, behind blanks. -/
def takeItem (t : Text) : Except ScanError Item :=
  match skipBlanks t with
  | [] => .error .malformed
  | b :: t =>
    if b = quote then
      match takeString false t with
      | some (s, rest) => .ok { shape := .string, text := s, rest }
      | none => .error .openString
    else if b = openBracket then
      match takeBlock openBracket closeBracket 0 none (b :: t) with
      | some (s, rest) => .ok { shape := .array, text := s, rest }
      | none => .error .openArray
    else if b = openBrace then
      match takeBlock openBrace closeBrace 0 none (b :: t) with
      | some (s, rest) => .ok { shape := .object, text := s, rest }
      | none => .error .openObject
    else
      let (token, rest) := takeToken (b :: t)
      match tokenShape? token with
      | some shape => .ok { shape, text := token, rest }
      | none => .error .unknownValue

theorem takeItem_length {t : Text} {i : Item} (h : takeItem t = .ok i) :
    i.text.length + i.rest.length ≤ t.length := by
  have hb := skipBlanks_length t
  simp only [takeItem] at h
  split at h
  · simp at h
  · rename_i b t' ht
    rw [ht] at hb
    simp only [List.length_cons] at hb
    split at h
    · split at h
      · rename_i hs
        cases h
        have := takeString_length hs
        simp only
        omega
      · simp at h
    · split at h
      · split at h
        · rename_i hk
          cases h
          have := congrArg List.length (takeBlock_append hk)
          simp only [List.length_cons, List.length_append] at this ⊢
          omega
        · simp at h
      · split at h
        · split at h
          · rename_i hk
            cases h
            have := congrArg List.length (takeBlock_append hk)
            simp only [List.length_cons, List.length_append] at this ⊢
            omega
          · simp at h
        · split at h
          · cases h
            have := congrArg List.length (List.takeWhile_append_dropWhile
              (p := (!endsToken ·)) (l := b :: t'))
            simp only [takeToken, List.length_append, List.length_cons] at this ⊢
            omega
          · simp at h

/-- The value behind a path of keys. -/
def get (path : List Text) (t : Text) : Except ScanError Item :=
  match search path {} t with
  | none => .error .keyNotFound
  | some rest => takeItem rest

theorem get_length {path : List Text} {t : Text} {i : Item} (h : get path t = .ok i) :
    i.text.length < t.length := by
  simp only [get] at h
  split at h
  · simp at h
  · rename_i hs
    have := search_length hs
    have := takeItem_length h
    omega

/-- The value behind a key, if there is one and it is not null. -/
def field (key : Text) (t : Text) : Option Text :=
  match get [key] t with
  | .ok i => if i.shape = .null then none else some i.text
  | .error _ => none

theorem field_length {key t v : Text} (h : field key t = some v) : v.length < t.length := by
  simp only [field] at h
  split at h
  · rename_i hg
    split at h
    · simp at h
    · cases h
      exact get_length hg
  · simp at h

/-! ## Arrays -/

/-- The elements up to the closing bracket, from the first one on. -/
def takeElements (t : Text) : Except ScanError (List Text) :=
  match _h : takeItem t with
  | .error e => .error e
  | .ok i =>
    match _hb : skipBlanks i.rest with
    | [] => .error .openArray
    | b :: t' =>
      if b = closeBracket then .ok [i.text]
      else if b = comma then (takeElements t').map (i.text :: ·)
      else .error .openArray
termination_by t.length
decreasing_by
  have h₁ := takeItem_length _h
  have h₂ := skipBlanks_length i.rest
  rw [_hb] at h₂
  simp only [List.length_cons] at h₂
  omega

theorem takeElements_length {t : Text} {es : List Text} (h : takeElements t = .ok es) :
    ∀ e ∈ es, e.length ≤ t.length := by
  induction hn : t.length using Nat.strongRecOn generalizing t es with
  | _ n ih =>
    subst hn
    rw [takeElements] at h
    split at h
    · simp at h
    · rename_i i hi
      have h₁ := takeItem_length hi
      have h₂ := skipBlanks_length i.rest
      split at h
      · simp at h
      · rename_i b t' hb
        rw [hb] at h₂
        simp only [List.length_cons] at h₂
        split at h
        · cases h
          intro e he
          simp only [List.mem_singleton] at he
          subst he
          omega
        · split at h
          · cases hr : takeElements t' with
            | error e => simp [hr, Except.map] at h
            | ok rest =>
              simp only [hr, Except.map, Except.ok.injEq] at h
              subst h
              intro e he
              rcases List.mem_cons.1 he with rfl | he
              · omega
              · have := ih t'.length (by omega) hr rfl e he
                omega
          · simp at h

/-- The elements of the array behind a key. -/
def elements (key : Text) (t : Text) : Except ScanError (List Text) :=
  if t.isEmpty then .error .openObject
  else if (skipBlanks t).isEmpty then .error .malformed
  else
    match search [key] {} t with
    | none => .error .keyNotFound
    | some rest =>
      match skipBlanks rest with
      | [] => .error .malformed
      | b :: t' =>
        if b = openBracket then
          match skipBlanks t' with
          | [] => .error .malformed
          | b' :: t'' => if b' = closeBracket then .ok [] else takeElements (b' :: t'')
        else .error .openArray

theorem elements_length {key t : Text} {es : List Text} (h : elements key t = .ok es) :
    ∀ e ∈ es, e.length < t.length := by
  simp only [elements] at h
  split at h
  · simp at h
  · split at h
    · simp at h
    · split at h
      · simp at h
      · rename_i rest hs
        have h₁ := search_length hs
        have h₂ := skipBlanks_length rest
        split at h
        · simp at h
        · rename_i b t' hb
          rw [hb] at h₂
          have h₃ := skipBlanks_length t'
          split at h
          · split at h
            · simp at h
            · rename_i b' t'' hb'
              rw [hb'] at h₃
              split at h
              · cases h
                simp
              · intro e he
                have := takeElements_length h e he
                simp only [List.length_cons] at h₂ h₃ this
                omega
          · simp at h

/-! ## Strings and integers -/

def getString (path : List Text) (t : Text) : Except ScanError Text := do
  let i ← get path t
  if i.shape ≠ .string then throw (.notString i.text)
  match keyOf i.text with
  | some s => return s
  | none => throw .badValue

/-- The digits of the least 64-bit integer, the only one whose magnitude overflows. -/
def leastDigits : Text := "9223372036854775808"

/-- Accumulates digits in wrapping arithmetic.  A number that comes out smaller for a
further digit has overflowed; one that wraps around to a larger number passes. -/
def accumulate (n : Int64) : Text → Except ScanError Int64
  | [] => .ok n
  | b :: t =>
    match digitValue? b with
    | none => .error .badValue
    | some d =>
      let next := 10 * n + Int64.ofNat d
      if next < n then .error .overflow else accumulate next t

def readInt : Text → Except ScanError Int64
  | hyphen :: t =>
    if t == leastDigits then .ok Int64.minValue
    else (accumulate 0 t).map (- ·)
  | t => accumulate 0 t

def getInt (path : List Text) (t : Text) : Except ScanError Int64 := do
  let i ← get path t
  if i.shape ≠ .number then throw (.notNumber i.text)
  readInt i.text

end Wire
end Stepwise
