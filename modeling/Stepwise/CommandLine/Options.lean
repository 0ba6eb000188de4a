/-
The options of the command `dslstep`.  They come from environment variables first and
then from the arguments, left to right, a later setting in the stead of an earlier one.
-/
import Stepwise.Text.Quoted

namespace Stepwise
namespace CommandLine

open Text

structure Options where
  file : Text := []
  step : Bool := false
  interactive : Bool := false
  trace : Bool := false
  dev : Bool := false
deriving DecidableEq

/-! ## Options that go together -/

inductive OptionsError where
  | noFile
  | interactiveWithoutStep
deriving DecidableEq

def OptionsError.message : OptionsError → Text
  | noFile => "--file cannot be empty"
  | interactiveWithoutStep => "--interactive requires --step"

def Options.check (o : Options) : Except OptionsError Unit :=
  if o.file.isEmpty then .error .noFile
  else if o.interactive && !o.step then .error .interactiveWithoutStep
  else .ok ()

/-! ## Single options -/

inductive OptionName where
  | file
  | step
  | interactive
  | trace
  | dev
deriving DecidableEq

/-- A truth value in one of its spellings. -/
def readBool (t : Text) : Option Bool :=
  if ["1", "t", "T", "true", "TRUE", "True"].any fun s => t == ofString s then some true
  else if ["0", "f", "F", "false", "FALSE", "False"].any fun s => t == ofString s then some false
  else none

def badBool (value : Text) : Text :=
  "strconv.ParseBool: parsing " ++ quoted value ++ ": invalid syntax"

namespace OptionName

/-- The option that an argument names.  The empty name is the first option. -/
def ofText? (t : Text) : Option OptionName :=
  if t.isEmpty || t == "file" then some file
  else if t == "step" then some step
  else if t == "interactive" then some interactive
  else if t == "trace" then some trace
  else if t == "dev" then some dev
  else none

/-- Whether the option stands for itself, without a value. -/
def isSwitch : OptionName → Bool
  | file => false
  | _ => true

/-- Sets an option; a switch needs a truth value. -/
def set (o : Options) (name : OptionName) (value : Text) : Except Text Options :=
  let switch (set : Bool → Options) : Except Text Options :=
    match readBool value with
    | some b => .ok (set b)
    | none => .error (badBool value)
  match name with
  | file => .ok { o with file := value }
  | step => switch fun b => { o with step := b }
  | interactive => switch fun b => { o with interactive := b }
  | trace => switch fun b => { o with trace := b }
  | dev => switch fun b => { o with dev := b }

end OptionName

/-! ## Reading a command line -/

/-- What a command line asks for. -/
inductive Request where
  | run (o : Options)
  | help
  | version
deriving DecidableEq

inductive ArgumentError where
  | badVariable (name why : Text)
  | unknown (argument : Text)
  | missingValue (argument : Text)
  | badValue (argument why : Text)
  | tooMany (first : Text)
deriving DecidableEq

def ArgumentError.message : ArgumentError → Text
  | badVariable name why => "error processing environment variable " ++ name ++ ": " ++ why
  | unknown argument => "unknown argument " ++ argument
  | missingValue argument => "missing value for " ++ argument
  | badValue argument why => "error processing " ++ argument ++ ": " ++ why
  | tooMany first => "too many positional arguments at '" ++ first ++ "'"

/-- The variables that set options, in the order in which they are read. -/
def optionVariables : List (Text × OptionName) :=
  [("DSL_AST_FILE", .file), ("DSL_STEP", .step), ("DSL_TRACE", .trace)]

def readVariables (env : Text → Option Text) (o : Options) : Except ArgumentError Options :=
  optionVariables.foldlM (fun o (name, option) =>
    match env name with
    | none => .ok o
    | some value => (option.set o value).mapError (.badVariable name)) o

def isFlag (argument : Text) : Bool :=
  argument.head? == some hyphen && !(argument.all (· = hyphen))

/-- The name and the value of a flag, split at the first equals sign; without one the
value is empty. -/
def splitFlag (argument : Text) : Text × Text :=
  let body := argument.dropWhile (· = hyphen)
  (body.takeWhile (· ≠ equals), (body.dropWhile (· ≠ equals)).drop 1)

def asksHelp (argument : Text) : Bool := argument == "-h" || argument == "--help"

/-- Behind `--` all arguments are positional, and none is wanted. -/
def endsFlags (argument : Text) : Bool := argument == "--"

def finish (o : Options) : (positional : List Text) → Except ArgumentError Request
  | [] => .ok (.run o)
  | first :: _ => .error (.tooMany first)

/-- Reads the arguments from left to right, keeping positional ones for the end. -/
def readArguments (o : Options) (positional : List Text) :
    List Text → Except ArgumentError Request
  | [] => finish o positional
  | argument :: rest =>
    if endsFlags argument then finish o (positional ++ rest.filter (!endsFlags ·))
    else if !isFlag argument then readArguments o (positional ++ [argument]) rest
    else if asksHelp argument then .ok .help
    else if argument == "--version" then .ok .version
    else
      let (name, value) := splitFlag argument
      match OptionName.ofText? name with
      | none => .error (.unknown argument)
      | some option =>
        let value := if option.isSwitch && value.isEmpty then ofString "true" else value
        if value.isEmpty then
          match rest with
          | [] => .error (.missingValue argument)
          | next :: rest =>
            if isFlag next then .error (.missingValue argument)
            else
              match option.set o next with
              | .error why => .error (.badValue argument why)
              | .ok o => readArguments o positional rest
        else
          match option.set o value with
          | .error why => .error (.badValue argument why)
          | .ok o => readArguments o positional rest

/-- What a command line asks for.  Unless all is well, asking for help anywhere among
the flags wins. -/
def readCommand (env : Text → Option Text) (arguments : List Text) :
    Except ArgumentError Request :=
  let request := do
    let o ← readVariables env {}
    readArguments o [] arguments
  match request with
  | .ok (.run o) => .ok (.run o)
  | other =>
    if (arguments.takeWhile (!endsFlags ·)).any asksHelp then .ok .help else other

/-! ## Texts -/

def usage : Text :=
  "Usage: dslstep [--file FILE] [--step] [--interactive] [--trace] [--dev]"

def help : Text :=
  usage ++ "\n\nOptions:\n" ++
    "  --file FILE [env: DSL_AST_FILE]\n" ++
    "  --step [env: DSL_STEP]\n" ++
    "  --interactive\n" ++
    "  --trace [env: DSL_TRACE]\n" ++
    "  --dev [default: false]\n" ++
    "  --help, -h             display this help and exit\n"

end CommandLine
end Stepwise
