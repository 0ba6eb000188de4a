/-
Being told to stop.  A signal is asked at every event whether to go on.
-/
import Stepwise.Text.Basic

namespace Stepwise

/-- Why an evaluation is to stop. -/
inductive Interrupt where
  | canceled
  | deadlineExceeded
deriving DecidableEq

def Interrupt.message : Interrupt → Text
  | canceled => "context canceled"
  | deadlineExceeded => "context deadline exceeded"

/-- A signal that never says to stop, or one that says so after it has let some
questions pass, and ever after. -/
inductive Signal where
  | quiet
  | after (passes : Nat) (why : Interrupt)
deriving DecidableEq

namespace Signal

/-- A signal that says to stop at once. -/
def now (why : Interrupt) : Signal := after 0 why

/-- Asks once. -/
def poll : Signal → Option Interrupt × Signal
  | quiet => (none, quiet)
  | after 0 why => (some why, after 0 why)
  | after (n + 1) why => (none, after n why)

/-- The answer that the signal would give. -/
def pending (s : Signal) : Option Interrupt := s.poll.1

end Signal
end Stepwise
