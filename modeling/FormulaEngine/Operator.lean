/-!
# Operators

The unary and binary operators of formulas with their spelling and their precedence: the
higher the level, the tighter the operator binds.  Unary operators bind tighter than all
binary ones, and the conditional `? :` binds less tightly than any.

* `BinaryOp.precedence_pos`, `BinaryOp.precedence_lt_unary` -- the levels run from 1 to 10.
-/

namespace FormulaEngine

/-- The binary operators. -/
inductive BinaryOp where
  | and
  | or
  | bitOr
  | bitXor
  | bitAnd
  | equal
  | notEqual
  | less
  | lessEqual
  | greater
  | greaterEqual
  | shiftLeft
  | shiftRight
  | add
  | subtract
  | multiply
  | divide
  | modulo
deriving DecidableEq, Repr

/-- The unary operators. -/
inductive UnaryOp where
  | not
  | negate
  | complement
deriving DecidableEq, Repr

namespace BinaryOp

/-- The binary operators in the order of their groups. -/
def all : List BinaryOp :=
  [and, or, bitOr, bitXor, bitAnd, equal, notEqual, less, lessEqual, greater, greaterEqual,
    shiftLeft, shiftRight, add, subtract, multiply, divide, modulo]

/-- The level of an operator. -/
def precedence : BinaryOp → Nat
  | or => 1
  | and => 2
  | bitOr => 3
  | bitXor => 4
  | bitAnd => 5
  | equal | notEqual => 6
  | less | lessEqual | greater | greaterEqual => 7
  | shiftLeft | shiftRight => 8
  | add | subtract => 9
  | multiply | divide | modulo => 10

/-- Whether the right operand is evaluated only if the left one leaves the result open. -/
def isShortCircuit (op : BinaryOp) : Bool := op == and || op == or

/-- The spelling of an operator. -/
def text : BinaryOp → String
  | and => "&&"
  | or => "||"
  | bitOr => "|"
  | bitXor => "^"
  | bitAnd => "&"
  | equal => "=="
  | notEqual => "!="
  | less => "<"
  | lessEqual => "<="
  | greater => ">"
  | greaterEqual => ">="
  | shiftLeft => "<<"
  | shiftRight => ">>"
  | add => "+"
  | subtract => "-"
  | multiply => "*"
  | divide => "/"
  | modulo => "%"

/-- The operator with a spelling. -/
def ofText? (s : String) : Option BinaryOp := all.find? (·.text == s)

end BinaryOp

namespace UnaryOp

/-- The unary operators. -/
def all : List UnaryOp := [not, negate, complement]

/-- The level shared by all unary operators. -/
def precedence (_ : UnaryOp) : Nat := 11

/-- The spelling of an operator. -/
def text : UnaryOp → String
  | not => "!"
  | negate => "-"
  | complement => "~"

/-- The operator with a spelling. -/
def ofText? (s : String) : Option UnaryOp := all.find? (·.text == s)

end UnaryOp

/-- The lowest level of a binary operator is 1. -/
theorem BinaryOp.precedence_pos (op : BinaryOp) : 1 ≤ op.precedence := by
  cases op <;> decide

/-- Every binary operator binds less tightly than every unary one. -/
theorem BinaryOp.precedence_lt_unary (op : BinaryOp) (u : UnaryOp) :
    op.precedence < u.precedence := by
  cases op <;> simp [precedence, UnaryOp.precedence]

end FormulaEngine
