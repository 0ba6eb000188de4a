/-
Environments.  An environment is a chain of frames, innermost first.  Environments
share frames but not chains: a binding is seen wherever its frame is, while pushing
and popping concern one environment alone.  The store holds all frames and all
chains, and names both by number, so that sharing can be seen.
-/
import Stepwise.Store.Frame

namespace Stepwise

/-- The name of a frame in a store. -/
abbrev FrameId := Nat

structure Store where
  frames : Array Frame := #[]
  chains : Array (List FrameId) := #[]

namespace Store

/-- The frames of an environment, innermost first.  A number that names no environment
stands for one without frames. -/
def chain (s : Store) (e : EnvId) : List FrameId := s.chains[e]?.getD []

def frame (s : Store) (i : FrameId) : Frame := s.frames[i]?.getD .empty

def depth (s : Store) (e : EnvId) : Nat := (s.chain e).length

/-- A new environment with one empty frame. -/
def newEnv (s : Store) : EnvId × Store :=
  (s.chains.size,
    { frames := s.frames.push .empty, chains := s.chains.push [s.frames.size] })

/-- Adds a frame that binds one name. -/
def push (s : Store) (e : EnvId) (name : Text) (v : Value) : Store :=
  { frames := s.frames.push (.single name v)
    chains := s.chains.setIfInBounds e (s.frames.size :: s.chain e) }

/-- Binds a name in the innermost frame, which an environment may lack. -/
def bind (s : Store) (e : EnvId) (name : Text) (v : Value) : Option Store :=
  match s.chain e with
  | [] => none
  | i :: _ => some { s with frames := s.frames.setIfInBounds i ((s.frame i).set name v) }

/-- Drops the innermost frame from an environment, if it has one.  The frame itself
stays for other environments. -/
def pop (s : Store) (e : EnvId) : Option Store :=
  match s.chain e with
  | [] => none
  | _ :: rest => some { s with chains := s.chains.setIfInBounds e rest }

/-- The value that the innermost frame with the name binds to it. -/
def lookup (s : Store) (e : EnvId) (name : Text) : Option Value :=
  (s.chain e).findSome? fun i => (s.frame i).get? name

/-- A new environment of the same frames. -/
def snapshot (s : Store) (e : EnvId) : EnvId × Store :=
  (s.chains.size, { s with chains := s.chains.push (s.chain e) })

/-- What binding or popping says of an environment without frames. -/
def noFrameMessage : Text := "environment has no frame"

/-- The frames of an environment, outermost first. -/
def envFrames (s : Store) (e : EnvId) : List Frame := (s.chain e).reverse.map s.frame

/-- The frames in brackets, outermost first. -/
def envText (s : Store) (e : EnvId) : Text :=
  "[" ++ Text.join ", " ((s.envFrames e).map Frame.text) ++ "]"

end Store
end Stepwise
