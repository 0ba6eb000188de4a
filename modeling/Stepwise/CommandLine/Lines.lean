/-
Lines of input.  Text behind the last newline is a line too unless it is empty.  A line
that is too long ends the input.
-/
import Stepwise.Text.Basic

namespace Stepwise
namespace CommandLine

/-- The length, without its newline, from which on a line is too long. -/
def lineLimit : Nat := 65536

/-- The number of lines in the input, of which `lines` were counted and `length` bytes
of the next one read. -/
def countLines (lines length : Nat) : Text → Nat
  | [] => if length = 0 then lines else lines + 1
  | b :: t =>
    if b = Text.newline then countLines (lines + 1) 0 t
    else if length + 1 = lineLimit then lines
    else countLines lines (length + 1) t

end CommandLine
end Stepwise
