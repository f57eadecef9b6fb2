import FormulaEngine.Evaluation.Comparison
import FormulaEngine.Number.FloatArithmetic

/-!
# Arithmetic

The five arithmetic operators on a pair of numbers of a common sort.  Integers and decimals are
exact, or their result does not fit; two integers divide to a float.  A plus sign joins texts if
one side is a string.

* `fitInteger_eq_ok_iff` -- a result of integers is exact, or it does not fit.
-/

namespace FormulaEngine

/-- An exact integer result of an operator, if it fits. -/
def fitInteger (op : BinaryOp) (n : Int) : Except EvalError Value :=
  match int64? n with
  | some i => .ok (.integer i)
  | none => .error (.overflow (.operator op))

/-- An exact or rounded decimal result of an operator, if it fits. -/
def fitDecimal (op : BinaryOp) (d : Option Decimal) : Except EvalError Value :=
  match d with
  | some d => .ok (.decimal d)
  | none => .error (.overflow (.operator op))

namespace NumberPair

/-- The sum. -/
def add : NumberPair → Except EvalError Value
  | integers a b => fitInteger .add (a.toInt + b.toInt)
  | decimals a b => fitDecimal .add (a.add? b)
  | floats a b => .ok (.float (a + b))

/-- The difference. -/
def subtract : NumberPair → Except EvalError Value
  | integers a b => fitInteger .subtract (a.toInt - b.toInt)
  | decimals a b => fitDecimal .subtract (a.sub? b)
  | floats a b => .ok (.float (a - b))

/-- The product. -/
def multiply : NumberPair → Except EvalError Value
  | integers a b => fitInteger .multiply (a.toInt * b.toInt)
  | decimals a b => fitDecimal .multiply (a.mul? b)
  | floats a b => .ok (.float (a * b))

/-- The quotient; of integers it is a float. -/
def divide : NumberPair → Except EvalError Value
  | integers a b =>
    if b = 0 then .error .divisionByZero else .ok (.float (a.toFloat / b.toFloat))
  | decimals a b =>
    if b.isZero then .error .divisionByZero else fitDecimal .divide (a.div? b)
  | floats a b => .ok (.float (a / b))

/-- The remainder of the division that rounds towards zero.  For integers it counts as too large
where the quotient is. -/
def modulo : NumberPair → Except EvalError Value
  | integers a b =>
    if b = 0 then .error .divisionByZero
    else if (int64? (a.toInt.tdiv b.toInt)).isNone then .error (.overflow (.operator .modulo))
    else fitInteger .modulo (a.toInt.tmod b.toInt)
  | decimals a b =>
    if b.isZero then .error .divisionByZero else fitDecimal .modulo (a.rem? b)
  | floats a b => .ok (.float (floatRemainder a b))

end NumberPair

namespace Value

/-- Two operands as numbers of a common sort; the failure names the first that is no number. -/
def numericOperands (op : BinaryOp) (a b : Value) : Except EvalError NumberPair :=
  match promote? a b with
  | some pair => .ok pair
  | none => .error (.typeMismatch (.numericOperands op) (if a.isNumeric then b.kind else a.kind))

/-- Whether a value is a string. -/
def isString : Value → Bool
  | string _ => true
  | _ => false

/-- The sum of numbers, or the joined texts where one side is a string. -/
def add (a b : Value) : Except EvalError Value :=
  if a.isString || b.isString then .ok (.string (a.text ++ b.text))
  else do (← numericOperands .add a b).add

/-- The difference of numbers. -/
def subtract (a b : Value) : Except EvalError Value := do
  (← numericOperands .subtract a b).subtract

/-- The product of numbers. -/
def multiply (a b : Value) : Except EvalError Value := do
  (← numericOperands .multiply a b).multiply

/-- The quotient of numbers. -/
def divide (a b : Value) : Except EvalError Value := do
  (← numericOperands .divide a b).divide

/-- The remainder of numbers. -/
def modulo (a b : Value) : Except EvalError Value := do
  (← numericOperands .modulo a b).modulo

end Value

/-- An integer result is the exact one. -/
theorem fitInteger_eq_ok_iff {op : BinaryOp} {n : Int} {v : Value} :
    fitInteger op n = .ok v ↔ ∃ i, int64? n = some i ∧ v = .integer i := by
  unfold fitInteger
  split <;> simp_all [eq_comm]

end FormulaEngine
