import FormulaEngine.Evaluation.Arithmetic

/-!
# Operators on values

What every operator does to operands that are already evaluated.  The bitwise operators work on
integers only, as 64-bit words in two's complement; a shift moves by 0 to 63 places.

* `shift_eq_overflow` -- any other distance is an overflow.
-/

namespace FormulaEngine

namespace Value

/-- A value as a condition. -/
def truthy (v : Value) : Except EvalError Bool :=
  match v.toBoolean? with
  | some b => .ok b
  | none => .error (.typeMismatch .boolean v.kind)

/-- Two integer operands; the failure names the first that is none. -/
def integerOperands (op : BinaryOp) : Value → Value → Except EvalError (Int64 × Int64)
  | integer a, integer b => .ok (a, b)
  | integer _, b => .error (.typeMismatch (.integerOperands op) b.kind)
  | a, _ => .error (.typeMismatch (.integerOperands op) a.kind)

/-- An operation on the bits of two integers. -/
def bitwise (op : BinaryOp) (f : Int64 → Int64 → Int64) (a b : Value) :
    Except EvalError Value := do
  let (a, b) ← integerOperands op a b
  .ok (.integer (f a b))

/-- A shift of an integer by 0 to 63 places. -/
def shift (op : BinaryOp) (f : Int64 → Int64 → Int64) (a b : Value) :
    Except EvalError Value := do
  let (a, b) ← integerOperands op a b
  if 0 ≤ b ∧ b < 64 then .ok (.integer (f a b)) else .error (.overflow (.operator op))

end Value

/-- The value of a binary operator on two values. -/
def applyBinary (op : BinaryOp) (a b : Value) : Except EvalError Value :=
  match op with
  | .add => a.add b
  | .subtract => a.subtract b
  | .multiply => a.multiply b
  | .divide => a.divide b
  | .modulo => a.modulo b
  | .equal => .ok (.boolean (a.equals b))
  | .notEqual => .ok (.boolean (!a.equals b))
  | .less => a.ordered (·.isLT) b
  | .lessEqual => a.ordered (·.isLE) b
  | .greater => a.ordered (·.isGT) b
  | .greaterEqual => a.ordered (·.isGE) b
  | .and => do
    if ← a.truthy then return .boolean (← b.truthy) else return .boolean false
  | .or => do
    if ← a.truthy then return .boolean true else return .boolean (← b.truthy)
  | .bitAnd => a.bitwise .bitAnd (· &&& ·) b
  | .bitOr => a.bitwise .bitOr (· ||| ·) b
  | .bitXor => a.bitwise .bitXor (· ^^^ ·) b
  | .shiftLeft => a.shift .shiftLeft (· <<< ·) b
  | .shiftRight => a.shift .shiftRight (· >>> ·) b

/-- The value of a unary operator on a value. -/
def applyUnary : UnaryOp → Value → Except EvalError Value
  | .not, v => do return .boolean !(← v.truthy)
  | .negate, .integer i =>
    match int64? (-i.toInt) with
    | some j => .ok (.integer j)
    | none => .error (.overflow .negation)
  | .negate, .decimal d => .ok (.decimal (-d))
  | .negate, .float x => .ok (.float (-x))
  | .negate, v => .error (.typeMismatch (.numericOperand .negate) v.kind)
  | .complement, .integer i => .ok (.integer (~~~i))
  | .complement, v => .error (.typeMismatch (.integerOperand .complement) v.kind)

/-- A shift by any other distance is an overflow. -/
theorem Value.shift_eq_overflow {op : BinaryOp} {f : Int64 → Int64 → Int64} {a b : Int64}
    (h : ¬(0 ≤ b ∧ b < 64)) :
    Value.shift op f (.integer a) (.integer b) = .error (.overflow (.operator op)) := by
  simp [Value.shift, Value.integerOperands, bind, Except.bind, h]

end FormulaEngine
