import FormulaEngine.Formula.Basic
import FormulaEngine.Json.OfValue
import FormulaEngine.Json.Read

/-!
# The command line

Three commands: `evaluate` prints the value of a formula as JSON, `parse` prints its canonical
form and its parameters, `validate` says whether it is well formed.  Everything here is a function
from the arguments to what is printed.

* `CommandLine.run` -- what a command line prints, and its exit code.
-/

namespace FormulaEngine

/-- What a command prints, and its exit code. -/
structure Outcome where
  code : Nat
  output : String
  errors : String
deriving DecidableEq, Repr

/-- A command that succeeds with some output. -/
def Outcome.success (output : String) : Outcome := ⟨0, output, ""⟩

/-- A command that fails with a message. -/
def Outcome.failure (message : String) : Outcome := ⟨1, "", "Error: " ++ message ++ "\n"⟩

namespace CommandLine

/-- The parts of a command line behind the command. -/
structure Arguments where
  positional : List String := []
  parameters : List String := []
  options : Options := {}
  pretty : Bool := false

/-- The value of an option that is written in one word with its name. -/
def attached? (word name : String) : Option String :=
  if name.toList.isPrefixOf word.toList then some (String.ofList (word.toList.drop name.length))
  else none

/-- The parts of a command line from its words.  `--` ends the options. -/
def readArguments (a : Arguments) : List String → Arguments
  | [] => a
  | "--" :: rest => { a with positional := a.positional ++ rest }
  | "--iterate" :: rest =>
    readArguments { a with options := { a.options with iterate := true } } rest
  | "--ignore-case" :: rest =>
    readArguments { a with options := { a.options with ignoreCase := true } } rest
  | "--no-cache" :: rest =>
    readArguments { a with options := { a.options with bypassCache := true } } rest
  | "--pretty" :: rest => readArguments { a with pretty := true } rest
  | "-p" :: p :: rest => readArguments { a with parameters := a.parameters ++ [p] } rest
  | "--param" :: p :: rest => readArguments { a with parameters := a.parameters ++ [p] } rest
  | word :: rest =>
    match (attached? word "--param=").or ((attached? word "-p=").or (attached? word "-p")) with
    | some p => readArguments { a with parameters := a.parameters ++ [p] } rest
    | none => readArguments { a with positional := a.positional ++ [word] } rest

/-- A parameter from `name=value`; the value is read as JSON, or else is the text itself. -/
def readParameter (word : String) : Except String (String × Value) :=
  let name := word.toList.takeWhile (· != '=')
  match word.toList.dropWhile (· != '=') with
  | [] => .error ("parameter '" ++ word ++ "' must look like name=value")
  | _ :: raw =>
    let trimmed := String.ofList (trimBlanks name)
    match Json.read? (String.ofList raw) with
    | none => .ok (trimmed, .string (String.ofList raw))
    | some j =>
      match Value.ofJson j with
      | .ok v => .ok (trimmed, v)
      | .error e =>
        .error ("unsupported value for parameter '" ++ String.ofList name ++ "': " ++ e.message)

/-- Print the value of a formula. -/
def evaluate (expression : String) (a : Arguments) : Outcome :=
  let result : Except String Value := do
    let f ← (Formula.ofText expression a.options : Except EvalError (Formula Id)).mapError
      EvalError.message
    let parameters ← a.parameters.mapM readParameter
    let f := f.mapParameters (·.insertAll parameters)
    (f.value .all {}).run.mapError fun e =>
      "failed to evaluate '" ++ expression ++ "': " ++ e.message
  match result with
  | .ok v => .success ((if a.pretty then v.toJson.prettyText else v.toJson.text) ++ "\n")
  | .error message => .failure message

/-- Print the canonical form of a formula, and the names of its parameters. -/
def canonical (expression : String) : Outcome :=
  match FormulaEngine.parse expression with
  | .error errors =>
    .failure ("failed to parse expression: " ++ SyntaxError.messages errors)
  | .ok e =>
    let names := e.parameterNames
    .success (e.text ++ "\n" ++
      (if names.isEmpty then "" else "Parameters: " ++ ", ".intercalate names ++ "\n"))

/-- Say whether a formula is well formed. -/
def validate (expression : String) : Outcome :=
  match FormulaEngine.parse expression with
  | .error errors => .failure ("INVALID\n" ++ SyntaxError.messages errors)
  | .ok _ => .success "VALID\n"

/-- The text for a command line that is none. -/
def usage : String :=
  "usage: evaluate [-p NAME=VALUE] [--iterate] [--ignore-case] [--no-cache] [--pretty] " ++
    "EXPRESSION | parse EXPRESSION | validate EXPRESSION\n"

/-- What a command line prints. -/
def run (words : List String) : Outcome :=
  match words with
  | command :: words =>
    let a := readArguments {} words
    match command, a.positional with
    | "evaluate", [expression] => evaluate expression a
    | "parse", [expression] => canonical expression
    | "validate", [expression] => validate expression
    | _, _ => ⟨2, "", usage⟩
  | [] => ⟨2, "", usage⟩

end CommandLine

end FormulaEngine
