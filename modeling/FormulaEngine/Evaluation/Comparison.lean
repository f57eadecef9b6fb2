import FormulaEngine.Evaluation.EvalError

/-!
# Equality and order of values

Two numbers are brought to a common sort: floats if one of them is a float, else decimals if
one of them is a decimal, else integers.  Equality is defined for all values, order only for two
numbers, two strings, two moments or two booleans; a `NaN` is not ordered.

* `promote?_isSome_iff` -- exactly two numbers have a common sort.
-/

namespace FormulaEngine

/-- Two numbers of a common sort. -/
inductive NumberPair where
  | integers (a b : Int64)
  | decimals (a b : Decimal)
  | floats (a b : Float)

/-- Two values as numbers of a common sort, if they are numbers. -/
def promote? : Value → Value → Option NumberPair
  | .integer a, .integer b => some (.integers a b)
  | .integer a, .decimal b => some (.decimals (.ofInt64 a) b)
  | .integer a, .float b => some (.floats a.toFloat b)
  | .decimal a, .integer b => some (.decimals a (.ofInt64 b))
  | .decimal a, .decimal b => some (.decimals a b)
  | .decimal a, .float b => some (.floats a.toFloat b)
  | .float a, .integer b => some (.floats a b.toFloat)
  | .float a, .decimal b => some (.floats a b.toFloat)
  | .float a, .float b => some (.floats a b)
  | _, _ => none

/-- Exactly two numbers have a common sort. -/
theorem promote?_isSome_iff {v w : Value} :
    (promote? v w).isSome = true ↔ v.isNumeric = true ∧ w.isNumeric = true := by
  cases v <;> cases w <;> simp [promote?, Value.isNumeric, Value.kind]

namespace NumberPair

/-- Whether two numbers are equal. -/
def equal : NumberPair → Bool
  | integers a b => a == b
  | decimals a b => a == b
  | floats a b => a == b

/-- The order of two floats; there is none with a `NaN`. -/
def compareFloats (a b : Float) : Option Ordering :=
  if a < b then some .lt
  else if a == b then some .eq
  else if a > b then some .gt
  else none

/-- The order of two numbers. -/
def order : NumberPair → Option Ordering
  | integers a b => some (compare a.toInt b.toInt)
  | decimals a b => some (a.compare b)
  | floats a b => compareFloats a b

end NumberPair

namespace Value

mutual

/-- Whether two values are equal: numbers by value, lists item by item. -/
def equals : Value → Value → Bool
  | list as, list bs => equalsAll as bs
  | a, b =>
    match promote? a b with
    | some pair => pair.equal
    | none => a == b

/-- Whether two lists have equal values in the same places. -/
def equalsAll : List Value → List Value → Bool
  | [], [] => true
  | a :: as, b :: bs => equals a b && equalsAll as bs
  | _, _ => false

end

/-- The order of two values, where there is one; a failure if they cannot be compared. -/
def order : Value → Value → Except EvalError (Option Ordering)
  | string a, string b => .ok (some (compare a b))
  | moment a, moment b => .ok (some (a.compare b))
  | boolean a, boolean b => .ok (some (compare a b))
  | a, b =>
    match promote? a b with
    | some pair => .ok pair.order
    | none => .error (.typeMismatch (.comparable a.kind) b.kind)

/-- Whether two values stand in an order that is accepted; a `NaN` stands in none. -/
def ordered (accept : Ordering → Bool) (a b : Value) : Except EvalError Value := do
  let order ← a.order b
  .ok (.boolean (order.any accept))

end Value

end FormulaEngine
