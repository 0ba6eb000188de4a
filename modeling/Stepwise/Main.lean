/-
The command `dslstep`: what it does is said in `CommandLine.invoke`; here it meets the
file system, the environment and the terminal.
-/
import Stepwise.CommandLine.LogLine

namespace Stepwise
namespace CommandLine

/-- The text as a string, for names of files. -/
def nameOf (t : Text) : String := (String.fromUTF8? ⟨t.toArray⟩).getD ""

def writeText (out : IO.FS.Stream) (t : Text) : IO Unit := do
  out.write ⟨t.toArray⟩
  out.flush

/-- Reads a file.  The error of a file that cannot be opened names it; a directory can be
opened, but not read. -/
def readFile (path : Text) : IO (Except ReadError Text) := do
  try
    return .ok (← IO.FS.readBinFile (nameOf path)).data.toList
  catch
    | .inappropriateType (some _) _ _ => return .error .notDirectory
    | .inappropriateType none _ _ => return .error .isDirectory
    | .invalidArgument .. =>
      return .error (if path.contains 0 then .invalidName else .nameTooLong)
    | _ => return .error .notFound

/-- The variables that set options, with their values. -/
def readEnvironment : IO (List (Text × Text)) :=
  optionVariables.filterMapM fun (name, _) => do
    return (← IO.getEnv (nameOf name)).map fun value => (name, Text.ofString value)

/-- Walks to the end, writing each record and then waiting for a line. -/
partial def walkWithInput (input output : IO.FS.Stream) (w : Walk) : IO Outcome := do
  match w.next with
  | (none, w) => return ended w #[]
  | (some ev, w) =>
    writeText output (record w ev)
    let line := Text.ofString (← input.getLine)
    if countLines 0 0 line = 0 then return abandoned w .inputClosed #[]
    else walkWithInput input output w

/-- Carries out options that ask to wait for input. -/
def carryOutWithInput (o : Options) (s : Setting) : IO Report := do
  match o.check, s.read o.file with
  | .ok (), .ok text =>
    match Program.decode text with
    | .ok p =>
      let s := s.traced o
      let walk := Walk.start p s.signal s.context s.journal
      return conclude o (← walkWithInput (← IO.getStdin) (← IO.getStdout) walk)
    | .error _ => return carryOut o s
  | _, _ => return carryOut o s

end CommandLine
end Stepwise

open Stepwise CommandLine in
def main (arguments : List String) : IO UInt32 := do
  let env ← readEnvironment
  let request := readCommand (fun name => env.lookup name) (arguments.map Text.ofString)
  let report ←
    match reply request with
    | .error report => pure report
    | .ok o =>
      let contents ← readFile o.file
      let s : Setting := { read := fun _ => contents, input := [] }
      if o.interactive then carryOutWithInput o s else pure (carryOut o s)
  writeText (← IO.getStdout) report.out
  for notice in report.notices do
    writeText (← IO.getStderr) (notice.line ++ [Text.newline])
  return report.exitCode.toUInt32
