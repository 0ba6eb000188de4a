/-
Texts in double quotes, as messages show a lexeme: printable characters stand for
themselves, everything else is escaped, and bytes that are no UTF-8 appear as
hexadecimal bytes.
-/
import Stepwise.Text.Printable
import Stepwise.Text.Utf8

namespace Stepwise
namespace Text

/-- Escapes of one letter. -/
def letterEscape? : Nat → Option Char
  | 0x07 => some 'a'
  | 0x08 => some 'b'
  | 0x09 => some 't'
  | 0x0a => some 'n'
  | 0x0b => some 'v'
  | 0x0c => some 'f'
  | 0x0d => some 'r'
  | 0x22 => some '"'
  | 0x5c => some '\\'
  | _ => none

/-- A code point inside quotes. -/
def quotedCode (code : Nat) : Text :=
  match letterEscape? code with
  | some c => [backslash, c.toNat.toUInt8]
  | none =>
    if isPrintable code then ofCode code
    else if code < 0x80 then "\\x" ++ hex 2 code
    else if code < 0x10000 then "\\u" ++ hex 4 code
    else "\\U" ++ hex 8 code

def quotedBody : Text → Text
  | [] => []
  | b :: t =>
    match _h : front? (b :: t) with
    | some (code, rest) => quotedCode code ++ quotedBody rest
    | none => "\\x" ++ hex 2 b.toNat ++ quotedBody t
termination_by t => t.length
decreasing_by
  · exact front?_length _h
  · simp

def quoted (t : Text) : Text := quote :: quotedBody t ++ [quote]

end Text
end Stepwise
