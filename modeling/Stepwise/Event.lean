/-
Events.  Before each unit of work the evaluator announces what it is about to do, in
which environment and, for what stands in the source, at which position.
-/
import Stepwise.Store.Basic

namespace Stepwise

inductive EventKind where
  | start
  | sourceFile
  | statementList
  | statement
  | variableDeclaration
  | functionBody
  | functionDeclaration
deriving DecidableEq

namespace EventKind

def all : List EventKind :=
  [start, sourceFile, statementList, statement, variableDeclaration, functionBody,
    functionDeclaration]

def name : EventKind → Text
  | start => "start"
  | sourceFile => "source_file"
  | statementList => "statement_list"
  | statement => "statement"
  | variableDeclaration => "variable_declaration"
  | functionBody => "function_body"
  | functionDeclaration => "function_declaration"

/-- The name of the kind with a code; codes past the last kind are shown as they are. -/
def codeName (code : UInt8) : Text :=
  match all[code.toNat]? with
  | some kind => kind.name
  | none => "unknown:" ++ Text.ofNat code.toNat

end EventKind

structure Event where
  kind : EventKind
  env : EnvId
  pos : Option Position
deriving DecidableEq

namespace Event

/-- A line about an event: what, where if known, and the environment. -/
def line (what : Text) (pos : Option Position) (env : Text) : Text :=
  let place : Text :=
    match pos with
    | some p => "@" ++ Text.ofInt p.toInt
    | none => []
  what ++ place ++ " " ++ env

/-- How an event without environment shows it. -/
def noEnv : Text := "<nil>"

/-- The event as the store now shows it. -/
def text (s : Store) (ev : Event) : Text := line ev.kind.name ev.pos (s.envText ev.env)

end Event
end Stepwise
