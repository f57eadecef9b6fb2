import FormulaEngine.Number.DecimalArithmetic
import FormulaEngine.Number.FloatText
import FormulaEngine.Time.MomentText

/-!
# Values

What formulas compute: null, booleans, 64-bit integers, decimals, floats, strings, moments,
and lists of values.

Two values are the *same* when they are built alike from equal parts, where decimals are equal
by value and floats as IEEE 754 has it: a `NaN` is not the same as itself.  Equality as formulas
see it, which also compares numbers of different sorts, stands with the operators.
-/

namespace FormulaEngine

/-- A value. -/
inductive Value where
  | null
  | boolean (b : Bool)
  | integer (i : Int64)
  | decimal (d : Decimal)
  | float (x : Float)
  | string (s : String)
  | moment (m : Moment)
  | list (items : List Value)
deriving Inhabited

/-- The sorts of values. -/
inductive Kind where
  | null
  | boolean
  | integer
  | decimal
  | float
  | string
  | moment
  | list
deriving DecidableEq, Repr

/-- The name of a sort of values. -/
def Kind.name : Kind → String
  | .null => "Null"
  | .boolean => "Boolean"
  | .integer => "Integer"
  | .decimal => "Decimal"
  | .float => "Float"
  | .string => "String"
  | .moment => "Moment"
  | .list => "List"

/-- The integer as a 64-bit word, if it fits. -/
def int64? (i : Int) : Option Int64 :=
  if Int64.minValue.toInt ≤ i ∧ i ≤ Int64.maxValue.toInt then some (Int64.ofInt i) else none

namespace Value

/-- The sort of a value. -/
def kind : Value → Kind
  | null => .null
  | boolean _ => .boolean
  | integer _ => .integer
  | decimal _ => .decimal
  | float _ => .float
  | string _ => .string
  | moment _ => .moment
  | list _ => .list

/-- Whether the value is a number. -/
def isNumeric (v : Value) : Bool := v.kind ∈ [.integer, .decimal, .float]

/-- The float of a number. -/
def toFloat? : Value → Option Float
  | integer i => some i.toFloat
  | decimal d => some d.toFloat
  | float x => some x
  | _ => none

/-- The decimal of an integer or a decimal. -/
def toDecimal? : Value → Option Decimal
  | integer i => some (.ofInt64 i)
  | decimal d => some d
  | _ => none

/-- The value as a condition: booleans as they are, numbers where they are not zero. -/
def toBoolean? : Value → Option Bool
  | boolean b => some b
  | integer i => some (i != 0)
  | decimal d => some (!d.isZero)
  | float x => some (x != 0)
  | _ => none

mutual

/-- Whether two values are built alike from equal parts. -/
def same : Value → Value → Bool
  | null, null => true
  | boolean a, boolean b => a == b
  | integer a, integer b => a == b
  | decimal a, decimal b => a == b
  | float a, float b => a == b
  | string a, string b => a == b
  | moment a, moment b => a == b
  | list as, list bs => sameAll as bs
  | _, _ => false

/-- Whether two lists have the same values in the same places. -/
def sameAll : List Value → List Value → Bool
  | [], [] => true
  | a :: as, b :: bs => same a b && sameAll as bs
  | _, _ => false

end

instance : BEq Value := ⟨same⟩

mutual

/-- The characters of a value inside other text. -/
def chars : Value → List Char
  | null => "null".toList
  | boolean b => if b then "true".toList else "false".toList
  | integer i => intDigits i.toInt
  | decimal d => d.chars
  | float x => FloatLayout.plain.chars x
  | string s => s.toList
  | moment m => m.plainChars
  | list items => '[' :: (itemChars items ++ [']'])

/-- The characters of the items of a list, with commas between them. -/
def itemChars : List Value → List Char
  | [] => []
  | [v] => chars v
  | v :: rest => chars v ++ ',' :: ' ' :: itemChars rest

end

/-- The text of a value inside other text. -/
def text (v : Value) : String := String.ofList v.chars

end Value

end FormulaEngine
