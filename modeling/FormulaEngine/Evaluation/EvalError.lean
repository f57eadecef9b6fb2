import FormulaEngine.Evaluation.Builtin
import FormulaEngine.Grammar.SyntaxError

/-!
# Failures

Why a formula could not be built or evaluated, and the words for it.
-/

namespace FormulaEngine

/-- What an operation asks of a value. -/
inductive Demand where
  | boolean
  | number
  | integer
  | numericOperands (op : BinaryOp)
  | integerOperands (op : BinaryOp)
  | numericOperand (op : UnaryOp)
  | integerOperand (op : UnaryOp)
  | comparable (kind : Kind)
deriving DecidableEq, Repr

/-- The words for what is asked of a value. -/
def Demand.text : Demand → String
  | .boolean => "Boolean"
  | .number => "numeric value"
  | .integer => "Integer"
  | .numericOperands op => "numeric operands for '" ++ op.text ++ "'"
  | .integerOperands op => "Integer operands for '" ++ op.text ++ "'"
  | .numericOperand op => "numeric operand for '" ++ op.text ++ "'"
  | .integerOperand op => "Integer operand for '" ++ op.text ++ "'"
  | .comparable kind => "value comparable with " ++ kind.name

/-- Where a result did not fit. -/
inductive OverflowSite where
  | operator (op : BinaryOp)
  | negation
  | absolute
  | conversion (n : Int)
deriving DecidableEq, Repr

/-- The words for the place of an overflow. -/
def OverflowSite.text : OverflowSite → String
  | .operator op => "'" ++ op.text ++ "'"
  | .negation => "unary '-'"
  | .absolute => "Abs()"
  | .conversion n => toString n ++ " does not fit a 64-bit integer"

/-- Why a formula could not be built or evaluated. -/
inductive EvalError where
  /-- a formula needs a text -/
  | emptyText
  /-- the text is no formula -/
  | malformed (errors : List SyntaxError)
  /-- a formula was evaluated whose text is none -/
  | unparsed (errors : List SyntaxError)
  /-- a formula was evaluated that has neither a text nor a tree -/
  | noTree
  | wrongArity (f : Builtin)
  | signOfNaN
  /-- the number of digits to round to is out of range -/
  | roundDigits
  /-- list parameters of different lengths -/
  | unequalLists
  | unsupportedLiteral (kind : Kind)
  | undefinedParameter (name : String)
  | undefinedFunction (name : String)
  | typeMismatch (demand : Demand) (actual : Kind)
  /-- a JSON object, which is no value -/
  | jsonObject
  | divisionByZero
  | overflow (site : OverflowSite)
  /-- a failure that the host reports -/
  | resolver (message : String)
deriving DecidableEq

/-- The words for a failure. -/
def EvalError.message : EvalError → String
  | emptyText => "Invalid argument: expression text cannot be empty"
  | malformed errors => SyntaxError.messages errors
  | unparsed errors => SyntaxError.messages errors
  | noTree => "expression has no parsed tree"
  | wrongArity f => f.name ++ "() takes " ++ f.arity.text
  | signOfNaN => "Sign() is undefined for NaN"
  | roundDigits => "Round() digits must be between 0 and 28"
  | unequalLists =>
    "When ITERATE_PARAMETERS is used, all list parameters must have the same number of items"
  | unsupportedLiteral kind => "Unsupported literal value of type " ++ kind.name
  | undefinedParameter name => "Parameter '" ++ name ++ "' was not defined"
  | undefinedFunction name => "Function '" ++ name ++ "' is not defined"
  | typeMismatch demand actual =>
    "Type error: expected " ++ demand.text ++ ", got " ++ actual.name
  | jsonObject => "Type error: expected scalar or array, got object"
  | divisionByZero => "Division by zero"
  | overflow site => "Arithmetic overflow in " ++ site.text
  | resolver message => "Resolver error: " ++ message

/-- The literal with a value; null and lists have none. -/
def Literal.ofValue (v : Value) : Except EvalError Literal :=
  match ofValue? v with
  | some l => .ok l
  | none => .error (.unsupportedLiteral v.kind)

/-- The integer value of a number, if it fits. -/
def Value.ofInt (n : Int) : Except EvalError Value :=
  match int64? n with
  | some i => .ok (.integer i)
  | none => .error (.overflow (.conversion n))

end FormulaEngine
