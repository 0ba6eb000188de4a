/-
What the command does: it reads a file, decodes the program in it, and either executes
it in a single run or walks through it, writing a record for each event.  When it is used
interactively each record waits for a line of input.
-/
import Stepwise.CommandLine.Files
import Stepwise.CommandLine.Lines
import Stepwise.CommandLine.Options
import Stepwise.Execution
import Stepwise.Walk

namespace Stepwise
namespace CommandLine

inductive RunError where
  | unreadable (file : Text) (why : ReadError)
  | failed (why : Execution.Failure)
  | stopped (why : Stop Interrupt)
  | inputClosed
  | unfinished

def RunError.message : RunError → Text
  | unreadable file why => "could not read " ++ file ++ ": " ++ why.message file
  | failed why => why.message
  | stopped why => why.message Interrupt.message
  | inputClosed => "input closed before evaluation finished"
  | unfinished => "step limit reached"

/-- How a run came out, and what it wrote. -/
structure Outcome where
  result : Except RunError Value
  records : Array Text := #[]
  log : Array LogEntry := #[]
  journal : Journal

/-- The record of the event delivered last. -/
def record (w : Walk) (ev : Event) : Text :=
  Text.padded 3 w.steps ++ " " ++ ev.text w.memory.store ++ "\n"

/-- The outcome of a walk that has been ended by one's own choice. -/
def abandoned (w : Walk) (why : RunError) (records : Array Text) : Outcome :=
  let w := w.close
  { result := .error why, records, log := w.memory.log, journal := w.journal }

/-- The outcome of a walk that has come to its end. -/
def ended (w : Walk) (records : Array Text) : Outcome :=
  { result :=
      match w.phase with
      | .over outcome => outcome.mapError .stopped
      | _ => .error .unfinished
    records
    log := w.memory.log
    journal := w.journal }

/-- Walks to the end, through at most `limit` events, with so many lines of input left;
`none` if it waits for none. -/
def stepThrough : (limit : Nat) → (lines : Option Nat) → Walk → Array Text → Outcome
  | 0, _, w, records => abandoned w .unfinished records
  | limit + 1, lines, w, records =>
    match w.next with
    | (none, w) => ended w records
    | (some ev, w) =>
      let records := records.push (record w ev)
      match lines with
      | none => stepThrough limit none w records
      | some 0 => abandoned w .inputClosed records
      | some (n + 1) => stepThrough limit (some n) w records

/-- Where a run takes place: how files are read, what the input holds, what may stop it,
where it is traced, and how many calls or events it may go through. -/
structure Setting where
  read : Text → Except ReadError Text
  input : Text
  signal : Signal := .quiet
  context : Context := .background
  journal : Journal := {}
  limit : Nat := unlimited

/-- Runs the program in a file. -/
def run (o : Options) (s : Setting) : Outcome :=
  match s.read o.file with
  | .error why => { result := .error (.unreadable o.file why), journal := s.journal }
  | .ok text =>
    if o.step then
      match Program.decode text with
      | .error e => { result := .error (.failed (.undecodable e)), journal := s.journal }
      | .ok p =>
        let lines := if o.interactive then some (countLines 0 0 s.input) else none
        stepThrough s.limit lines (Walk.start p s.signal s.context s.journal) #[]
    else
      let x := executeText text s.limit s.signal s.context s.journal
      { result := x.outcome.mapError .failed, log := x.log, journal := x.journal }

/-! ## The whole command -/

/-- What the command says besides its output. -/
inductive Notice where
  | usage
  | error (message : Text)
  | panic (message : Text)
  | log (level : LogLevel) (message : Text) (fields : List (Text × Text))

structure Report where
  exitCode : Nat
  out : Text := []
  notices : List Notice := []

/-- What the log shows of an entry: fields as texts, and nothing of mere details. -/
def noticeOf? (entry : LogEntry) : Option Notice :=
  match entry.level with
  | .debug => none
  | level =>
    some (.log level entry.message (entry.fields.map fun (key, field) =>
      match field with
      | .text t => (key, t)
      | .number n => (key, Text.ofNat n)))

/-- The last log entry of a run that gave no value. -/
def failureNotice (file : Text) (why : RunError) : Notice :=
  .log .error "evaluation failed" [("file", file), ("error", why.message)]

/-- What is left to say when a run is over.  With `dev` the log is for people and goes
elsewhere. -/
def conclude (o : Options) (outcome : Outcome) : Report :=
  let logged := outcome.log.toList.filterMap noticeOf?
  let records := outcome.records.toList.flatten
  match outcome.result with
  | .ok v =>
    { exitCode := 0
      out := records ++ v.text ++ "\n"
      notices := if o.dev then [] else logged }
  | .error why =>
    { exitCode := 1
      out := records
      notices := if o.dev then [] else logged ++ [failureNotice o.file why] }

/-- Options that do not go together are a mistake of the caller. -/
def refuse (e : OptionsError) : Report := { exitCode := 2, notices := [.panic e.message] }

/-- The setting of a run that is traced if the options say so. -/
def Setting.traced (o : Options) (s : Setting) : Setting :=
  if o.trace then
    let (context, journal) := s.journal.beginTrace s.context
    { s with context, journal }
  else s

/-- Carries out what the options say. -/
def carryOut (o : Options) (s : Setting) : Report :=
  match o.check with
  | .error e => refuse e
  | .ok () => conclude o (run o (s.traced o))

/-- The answer to a command line that asks for no run. -/
def reply : Except ArgumentError Request → Except Report Options
  | .error e => .error { exitCode := 255, notices := [.usage, .error e.message] }
  | .ok .help => .error { exitCode := 0, out := help }
  | .ok .version => .error { exitCode := 0, out := "\n" }
  | .ok (.run o) => .ok o

/-- The whole command. -/
def invoke (env : Text → Option Text) (arguments : List Text) (s : Setting) : Report :=
  match reply (readCommand env arguments) with
  | .error report => report
  | .ok o => carryOut o s

end CommandLine
end Stepwise
