import FormulaEngine.Value.Basic

/-!
# Literals

The values that can stand in a formula as they are: every value but null and lists.  A literal
belongs to one of five kinds; decimals count as floating.

* `Literal.ofValue?_value` -- a literal is recovered from its value;
* `Literal.ofValue?_eq_none_iff` -- only null and lists are no literals.
-/

namespace FormulaEngine

/-- A value that can stand in a formula. -/
inductive Literal where
  | integer (i : Int64)
  | decimal (d : Decimal)
  | float (x : Float)
  | string (s : String)
  | boolean (b : Bool)
  | moment (m : Moment)
deriving DecidableEq

/-- The five kinds of literals, in the order of their numbers. -/
inductive LiteralKind where
  | integer
  | float
  | string
  | boolean
  | moment
deriving DecidableEq, Repr

namespace LiteralKind

/-- The name of a kind. -/
def name : LiteralKind → String
  | integer => "Integer"
  | float => "Float"
  | string => "String"
  | boolean => "Boolean"
  | moment => "Moment"

/-- The number of a kind. -/
def number : LiteralKind → Nat
  | integer => 0
  | float => 1
  | string => 2
  | boolean => 3
  | moment => 4

end LiteralKind

namespace Literal

/-- The value of a literal. -/
def value : Literal → Value
  | integer i => .integer i
  | decimal d => .decimal d
  | float x => .float x
  | string s => .string s
  | boolean b => .boolean b
  | moment m => .moment m

/-- The kind of a literal. -/
def kind : Literal → LiteralKind
  | integer _ => .integer
  | decimal _ => .float
  | float _ => .float
  | string _ => .string
  | boolean _ => .boolean
  | moment _ => .moment

/-- The literal with a value, if there is one. -/
def ofValue? : Value → Option Literal
  | .integer i => some (integer i)
  | .decimal d => some (decimal d)
  | .float x => some (float x)
  | .string s => some (string s)
  | .boolean b => some (boolean b)
  | .moment m => some (moment m)
  | .null => none
  | .list _ => none

/-- A literal is recovered from its value. -/
theorem ofValue?_value (l : Literal) : ofValue? l.value = some l := by
  cases l <;> rfl

/-- Only null and lists are no literals. -/
theorem ofValue?_eq_none_iff {v : Value} : ofValue? v = none ↔ v.kind = .null ∨ v.kind = .list := by
  cases v <;> simp [ofValue?, Value.kind]

/-- Two literals are the same when their values are. -/
instance : BEq Literal := ⟨fun a b => a.value == b.value⟩

/-- The characters of a string between quotes, quotes and backslashes and three kinds of line
marks escaped. -/
def quotedChars : List Char → List Char
  | [] => []
  | c :: rest =>
    (match c with
      | '\x27' => ['\\', '\x27']
      | '\\' => ['\\', '\\']
      | '\n' => ['\\', 'n']
      | '\r' => ['\\', 'r']
      | '\t' => ['\\', 't']
      | c => [c]) ++ quotedChars rest

/-- The characters of a literal in a formula. -/
def chars : Literal → List Char
  | integer i => intDigits i.toInt
  | decimal d => d.chars
  | float x => FloatLayout.literal.chars x
  | string s => '\x27' :: (quotedChars s.toList ++ ['\x27'])
  | boolean b => if b then "true".toList else "false".toList
  | moment m => '#' :: (m.plainChars ++ ['#'])

end Literal

end FormulaEngine
