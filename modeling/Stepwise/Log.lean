/-
The log: what evaluating and stepping note down on the way.
-/
import Stepwise.Event

namespace Stepwise

inductive LogLevel where
  | debug
  | warn
  | error
deriving DecidableEq

def LogLevel.name : LogLevel → Text
  | debug => "debug"
  | warn => "warn"
  | error => "error"

inductive LogEntry where
  /-- A call begins; the depth counts the frame of its parameter. -/
  | calling (function argument : Text) (depth : Nat)
  /-- The frame of a call was gone when the call ended. -/
  | unbalanced (function : Text)
  /-- An evaluation ended with this message. -/
  | failed (message : Text)
  /-- An event was delivered. -/
  | stepped (step : Nat) (kind : EventKind) (env : Text)
deriving DecidableEq

inductive LogField where
  | text (t : Text)
  | number (n : Nat)
deriving DecidableEq

namespace LogEntry

def level : LogEntry → LogLevel
  | calling .. => .debug
  | unbalanced .. => .error
  | failed .. => .warn
  | stepped .. => .debug

def message : LogEntry → Text
  | calling .. => "calling function"
  | unbalanced .. => "unbalanced call frame"
  | failed .. => "evaluation failed"
  | stepped .. => "evaluation step"

def fields : LogEntry → List (Text × LogField)
  | calling function argument depth =>
    [("function", .text function), ("argument", .text argument), ("depth", .number depth)]
  | unbalanced function =>
    [("function", .text function), ("error", .text Store.noFrameMessage)]
  | failed message => [("error", .text message)]
  | stepped step kind env =>
    [("step", .number step), ("kind", .text kind.name), ("env", .text env)]

end LogEntry
end Stepwise
