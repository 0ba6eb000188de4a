/-
Log entries as lines of JSON.
-/
import Stepwise.CommandLine.Run

namespace Stepwise
namespace CommandLine

open Text

/-- A code point inside a JSON string. -/
def jsonCode (code : Nat) : Text :=
  if code = 0x22 || code = 0x5c then [backslash, code.toUInt8]
  else if code = 0x0a then "\\n"
  else if code = 0x0d then "\\r"
  else if code = 0x09 then "\\t"
  else if code < 0x20 then "\\u" ++ hex 4 code
  else ofCode code

/-- A text inside a JSON string; a byte that is no UTF-8 becomes U+FFFD. -/
def jsonBody : Text → Text
  | [] => []
  | b :: t =>
    match _h : front? (b :: t) with
    | some (code, rest) => jsonCode code ++ jsonBody rest
    | none => "\\ufffd" ++ jsonBody t
termination_by t => t.length
decreasing_by
  · exact front?_length _h
  · simp

def jsonString (t : Text) : Text := quote :: jsonBody t ++ [quote]

def jsonMember (key value : Text) : Text := jsonString key ++ ":" ++ jsonString value

/-- The line that a notice is shown as. -/
def Notice.line : Notice → Text
  | usage => CommandLine.usage
  | error message => "error: " ++ message
  | panic message => "panic: " ++ message
  | log level message fields =>
    let members := jsonMember "level" level.name :: jsonMember "msg" message ::
      fields.map fun (key, value) => jsonMember key value
    "\x7b" ++ join "," members ++ "\x7d"

end CommandLine
end Stepwise
