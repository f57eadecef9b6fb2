import FormulaEngine.Evaluation.Operators
import FormulaEngine.Evaluation.Options

/-!
# Calls of built-in functions

What the built-in functions do to arguments that are already evaluated.

* `Builtin.call_eq_error_of_not_accepts` -- a wrong number of arguments is refused before
  anything else.
-/

namespace FormulaEngine

namespace Value

/-- The float of a number, or a failure. -/
def expectFloat (v : Value) : Except EvalError Float :=
  match v.toFloat? with
  | some x => .ok x
  | none => .error (.typeMismatch .number v.kind)

/-- The absolute value. -/
def absolute : Value → Except EvalError Value
  | integer i =>
    match int64? i.toInt.natAbs with
    | some j => .ok (.integer j)
    | none => .error (.overflow .absolute)
  | decimal d => .ok (.decimal d.abs)
  | v => do return .float (← v.expectFloat).abs

/-- A function to whole numbers; integers are whole already. -/
def integral (onDecimal : Decimal → Decimal) (onFloat : Float → Float) :
    Value → Except EvalError Value
  | integer i => .ok (.integer i)
  | decimal d => .ok (.decimal (onDecimal d))
  | v => do return .float (onFloat (← v.expectFloat))

/-- The sign of a number as -1, 0 or 1. -/
def sign : Value → Except EvalError Value
  | integer i => .ok (.integer (Int64.ofInt i.toInt.sign))
  | decimal d => .ok (.integer (if d.isZero then 0 else if d.negative then -1 else 1))
  | v => do
    let x ← v.expectFloat
    if x.isNaN then .error .signOfNaN
    else return .integer (if x > 0 then 1 else if x < 0 then -1 else 0)

/-- A float function of one number. -/
def mapFloat (f : Float → Float) (v : Value) : Except EvalError Value := do
  return .float (f (← v.expectFloat))

/-- A float function of two numbers. -/
def mapFloats (f : Float → Float → Float) (v w : Value) : Except EvalError Value := do
  let x ← v.expectFloat
  let y ← w.expectFloat
  return .float (f x y)

/-- The number of digits to round to: an integer below 2 ^ 32. -/
def roundingDigits : Value → Except EvalError Nat
  | integer i =>
    if 0 ≤ i.toInt ∧ i.toInt < 2 ^ 32 then .ok i.toInt.toNat else .error .roundDigits
  | v => .error (.typeMismatch .integer v.kind)

/-- A float rounded to some digits after the point.  Beyond 15 digits, and where the scaled number
is not finite, it stays as it is. -/
def roundFloat (tie : TieRule) (digits : Nat) (x : Float) : Float :=
  let scaled := x * floatTenPower digits
  if digits > 15 || !scaled.isFinite then x
  else
    (match tie with
      | .away => floatRoundAway scaled
      | .even => floatRoundEven scaled) / floatTenPower digits

/-- A number rounded to some digits after the point. -/
def round (tie : TieRule) (digits : Nat) : Value → Except EvalError Value
  | integer i => .ok (.integer i)
  | decimal d => .ok (.decimal (d.round tie digits))
  | v => do return .float (roundFloat tie digits (← v.expectFloat))

/-- The first of two values if it stands in an accepted order to the second, else the second; a
`NaN` if they are not ordered. -/
def extremum (keepFirst : Ordering → Bool) (a b : Value) : Except EvalError Value := do
  match ← a.order b with
  | some order => return if keepFirst order then a else b
  | none => return .float notANumber

end Value

/-- How rounding settles a half. -/
def Options.tie (o : Options) : TieRule := if o.roundAway then .away else .even

namespace Builtin

/-- The value of a function on as many arguments as it takes. -/
def apply (f : Builtin) (options : Options) (args : List Value) : Except EvalError Value :=
  match f, args with
  | abs, [x] => x.absolute
  | ceiling, [x] => x.integral Decimal.ceiling Float.ceil
  | floor, [x] => x.integral Decimal.floor Float.floor
  | truncate, [x] => x.integral Decimal.truncate floatTruncate
  | sign, [x] => x.sign
  | acos, [x] => x.mapFloat Float.acos
  | asin, [x] => x.mapFloat Float.asin
  | atan, [x] => x.mapFloat Float.atan
  | cos, [x] => x.mapFloat Float.cos
  | sin, [x] => x.mapFloat Float.sin
  | tan, [x] => x.mapFloat Float.tan
  | exp, [x] => x.mapFloat Float.exp
  | log10, [x] => x.mapFloat Float.log10
  | sqrt, [x] => x.mapFloat Float.sqrt
  | log, [x, base] => x.mapFloats (fun x b => x.log / b.log) base
  | pow, [x, y] => x.mapFloats Float.pow y
  | remainder, [x, y] => x.mapFloats (fun x y => x - y * floatRoundEven (x / y)) y
  | round, [x] => x.round options.tie 0
  | round, [x, digits] => do
    let digits ← digits.roundingDigits
    x.round options.tie digits
  | max, [a, b] => a.extremum (·.isGE) b
  | min, [a, b] => a.extremum (·.isLE) b
  | choose, [condition, yes, no] => do return if ← condition.truthy then yes else no
  | member, x :: candidates => .ok (.boolean (candidates.any x.equals))
  | _, _ => .error (.wrongArity f)

/-- Refuse a wrong number of arguments. -/
def checkArity (f : Builtin) (count : Nat) : Except EvalError Unit :=
  if f.arity.accepts count then .ok () else .error (.wrongArity f)

/-- The value of a function on evaluated arguments. -/
def call (f : Builtin) (options : Options) (args : List Value) : Except EvalError Value := do
  f.checkArity args.length
  f.apply options args

/-- A wrong number of arguments is refused before anything else. -/
theorem call_eq_error_of_not_accepts {f : Builtin} {options : Options} {args : List Value}
    (h : f.arity.accepts args.length = false) :
    f.call options args = .error (.wrongArity f) := by
  simp [call, checkArity, h, bind, Except.bind]

end Builtin

end FormulaEngine
