/-
Programs in JSON.  A program is the object under `SourceFile`; a statement list is the
array under `StatementList`; each statement, value and return expression is wrapped in
an object whose key says which kind it is.  Extra keys are ignored, and an absent
position is 0.
-/
import Stepwise.Program.Basic
import Stepwise.Wire.Lookup

namespace Stepwise

theorem exists_of_bind_eq_ok {ε α β : Type} {x : Except ε α} {f : α → Except ε β} {b : β}
    (h : x >>= f = .ok b) : ∃ a, x = .ok a ∧ f a = .ok b := by
  cases x with
  | error e => cases h
  | ok a => exact ⟨a, rfl, h⟩

namespace Wire

/-- Why a text holds no program.  Where a declaration is at fault its name is kept. -/
inductive DecodeError where
  | noSourceFile (why : ScanError)
  | badStatementList (why : ScanError)
  | unknownStatement (text : Text)
  | badToken (key : Text) (why : ScanError)
  | noValue (name : Text) (why : ScanError)
  | badLiteral (name : Text) (why : ScanError)
  | unknownValue (name text : Text)
  | noBody (name : Text) (why : ScanError)
  | noReturn (name : Text) (why : ScanError)
  | badReturn (name : Text) (why : ScanError)
  | unknownReturn (name text : Text)
  | badPosition (why : ScanError)
deriving DecidableEq

namespace DecodeError

/-- `before 'name' after`. -/
def about (before : String) (name : Text) (after : String) : Text :=
  before ++ " '" ++ name ++ "'" ++ after

def message : DecodeError → Text
  | noSourceFile why => "missing 'SourceFile': " ++ why.message
  | badStatementList why => "invalid 'StatementList': " ++ why.message
  | unknownStatement text => "unknown statement: " ++ text
  | badToken key why => about "invalid token" key ": " ++ why.message
  | noValue name why => about "variable declaration" name " has no value: " ++ why.message
  | badLiteral name why => about "invalid literal for" name ": " ++ why.message
  | unknownValue name text => about "unknown value for variable" name ": " ++ text
  | noBody name why => about "function" name " has no body: " ++ why.message
  | noReturn name why => about "function" name " has no return value: " ++ why.message
  | badReturn name why => about "invalid return value in" name ": " ++ why.message
  | unknownReturn name text => about "unknown return value in" name ": " ++ text
  | badPosition why => "invalid position: " ++ why.message

end DecodeError

/-! ## Leaves -/

/-- The result with its scan error explained. -/
def explain {α : Type} (why : ScanError → DecodeError) : Except ScanError α → Except DecodeError α
  | .ok a => .ok a
  | .error e => .error (why e)

/-- The source text of the token under a key. -/
def token (key : String) (t : Text) : Except DecodeError Text :=
  explain (.badToken key) (getString [key, "source"] t)

def position (path : List Text) (t : Text) : Except DecodeError Position :=
  match getInt path t with
  | .ok n => .ok n
  | .error .keyNotFound => .ok 0
  | .error e => .error (.badPosition e)

/-- Where a declaration keeps its position. -/
def declarationPosition : Text → Except DecodeError Position := position ["offset", "pos"]

/-- The texts of the statements in the list of a program or of a function body. -/
def statementTexts (t : Text) : Except DecodeError (List Text) :=
  explain .badStatementList (elements "StatementList" t)

/-! ## Declarations -/

/-- The value of the variable `name`. -/
def initializer (name : Text) (t : Text) : Except DecodeError Initializer :=
  match field "Literal" t with
  | some literal =>
    explain (.badLiteral name) ((getString ["source"] literal).map Initializer.literal)
  | none =>
    match field "CallExpression" t with
    | some call => do
      let callee ← token "FunctionName" call
      let argument ← token "FunctionArgument" call
      return .call callee argument
    | none => throw (.unknownValue name t)

def definition (t : Text) : Except DecodeError Statement := do
  let name ← token "VariableName" t
  let value ← explain (.noValue name) (get ["VariableValue"] t)
  let value ← initializer name value.text
  let pos ← declarationPosition t
  return .define name value pos

/-- The return value of the function `name`, from its body. -/
def returnExpr (name : Text) (body : Text) : Except DecodeError ReturnExpr := do
  let value ← explain (.noReturn name) (get ["ReturnStatement", "ReturnValue"] body)
  match field "Literal" value.text with
  | some literal =>
    explain (.badReturn name) ((getString ["source"] literal).map ReturnExpr.name)
  | none =>
    match field "PlusExpression" value.text with
    | some sum => do
      let left ← token "Left" sum
      let right ← token "Right" sum
      return .sum left right
    | none => throw (.unknownReturn name value.text)

/-- A function declaration with its body not yet decoded. -/
structure Outline where
  name : Text
  parameter : Text
  body : Text
  statements : List Text

def outline (t : Text) : Except DecodeError Outline := do
  let name ← token "FunctionName" t
  let parameter ← token "FunctionParameter" t
  let body ← explain (.noBody name) (get ["FunctionBody"] t)
  let statements ← statementTexts body.text
  return { name, parameter, body := body.text, statements }

theorem explain_ok {α : Type} {why : ScanError → DecodeError} {r : Except ScanError α} {a : α}
    (h : explain why r = .ok a) : r = .ok a := by
  cases r <;> simp_all [explain]

theorem outline_length {t : Text} {o : Outline} (h : outline t = .ok o) :
    ∀ e ∈ o.statements, e.length < t.length := by
  intro e he
  simp only [outline, bind, Except.bind, pure, Except.pure] at h
  split at h
  · simp at h
  · split at h
    · simp at h
    · split at h
      · simp at h
      · rename_i body hb
        split at h
        · simp at h
        · rename_i statements hs
          cases h
          have h₁ := get_length (explain_ok hb)
          have h₂ := elements_length (explain_ok hs) e he
          omega

/-- The statement that a text holds.  Statements inside a function are texts within its
text, so the recursion ends. -/
def statement (t : Text) : Except DecodeError Statement :=
  match field "VariableDeclaration" t with
  | some v => definition v
  | none =>
    match _hf : field "FunctionDeclaration" t with
    | none => throw (.unknownStatement t)
    | some v =>
      match _ho : outline v with
      | .error e => .error e
      | .ok o => do
        let body ← o.statements.attach.mapM fun ⟨e, _he⟩ => statement e
        let ret ← returnExpr o.name o.body
        let pos ← declarationPosition v
        return .function o.name o.parameter body ret pos
termination_by t.length
decreasing_by
  have h₁ := field_length _hf
  have h₂ := outline_length _ho e _he
  omega

section

variable {t v : Text}

theorem statement_of_variable (h : field "VariableDeclaration" t = some v) :
    statement t = definition v := by
  rw [statement, h]

variable (hvariable : field "VariableDeclaration" t = none)
include hvariable

theorem statement_of_function (hfunction : field "FunctionDeclaration" t = some v) :
    statement t = outline v >>= fun o => do
      let body ← o.statements.mapM statement
      let ret ← returnExpr o.name o.body
      let pos ← declarationPosition v
      return .function o.name o.parameter body ret pos := by
  rw [statement, hvariable]
  simp only
  split
  · rename_i hnone
    cases hfunction.symm.trans hnone
  · rename_i v' hv'
    cases hfunction.symm.trans hv'
    split
    · rename_i e he
      rw [he]
      rfl
    · rename_i o ho
      have hattach : (o.statements.attach.mapM fun e => statement e.1) =
          o.statements.mapM statement := by
        simp
      rw [ho, hattach]
      rfl

theorem statement_of_neither (hfunction : field "FunctionDeclaration" t = none) :
    statement t = .error (.unknownStatement t) := by
  rw [statement, hvariable]
  simp only
  split
  · rfl
  · rename_i v' hv'
    cases hfunction.symm.trans hv'

end

end Wire

/-- The program that a text holds. -/
def Program.decode (t : Text) : Except Wire.DecodeError Program := do
  let file ← Wire.explain .noSourceFile (Wire.get ["SourceFile"] t)
  let texts ← Wire.statementTexts file.text
  let statements ← texts.mapM Wire.statement
  let pos ← Wire.position ["pos"] file.text
  return { statements, pos }

end Stepwise
