import FormulaEngine.Number.Digits

/-!
# The shortest decimal of a float

A finite float is a natural number times a power of two.  Among all decimals that read back
as the float, the one written for it has the fewest digits; of several with that count the
nearest is taken, and an exact tie is settled by a rule of the format.

On a grid of decimals with a fixed number of digits, if any point reads back then one of the
two neighbours of the float does, so only those are tried.  Seventeen digits always suffice;
the exact decimal expansion closes the search.
-/

namespace FormulaEngine

/-- A nonnegative decimal: `coefficient * 10 ^ exponent`. -/
structure Scientific where
  coefficient : Nat
  exponent : Int
deriving DecidableEq, Repr

/-- The float nearest to a decimal. -/
def Scientific.toFloat (d : Scientific) : Float :=
  Float.ofScientific d.coefficient (d.exponent < 0) d.exponent.natAbs

/-- Where a float lies exactly between two neighbours: away from zero, or at the even one. -/
inductive TieRule where
  | away
  | even
deriving DecidableEq, Repr

/-- Whether the sign bit of a float is set. -/
def signBit (x : Float) : Bool := 2 ^ 63 ≤ x.toBits.toNat

/-- The magnitude of a finite float as a natural number times a power of two. -/
def binaryParts (x : Float) : Nat × Int :=
  let bits : Nat := x.toBits.toNat
  let field : Nat := bits / 2 ^ 52 % 2 ^ 11
  let fraction := bits % 2 ^ 52
  if field = 0 then (fraction, -1074) else (2 ^ 52 + fraction, Int.ofNat field - 1075)

/-- A nonnegative rational: numerator and denominator. -/
structure Ratio where
  num : Nat
  den : Nat

namespace Ratio

/-- The value `m * 2 ^ e`. -/
def ofBinary (m : Nat) (e : Int) : Ratio := ⟨m * 2 ^ e.toNat, 2 ^ (-e).toNat⟩

/-- The value multiplied by `10 ^ e`. -/
def shiftTen (r : Ratio) (e : Int) : Ratio := ⟨r.num * 10 ^ e.toNat, r.den * 10 ^ (-e).toNat⟩

/-- The integral part. -/
def floor (r : Ratio) : Nat := r.num / r.den

/-- How twice the fractional part compares with one. -/
def compareHalf (r : Ratio) : Ordering := compare (2 * (r.num % r.den)) r.den

/-- Whether `10 ^ e` is at most the value. -/
def reaches (r : Ratio) (e : Int) : Bool := (r.shiftTen (-e)).den ≤ (r.shiftTen (-e)).num

end Ratio

/-- The decimal exponent of the first digit of `m * 2 ^ e`, for positive `m`: first guessed
from the binary exponent, then set right by comparison. -/
def leadingExponent (m : Nat) (e : Int) : Int :=
  let r := Ratio.ofBinary m e
  let guess := ((m.log2 : Int) + e) * 30103 / 100000
  if r.reaches (guess + 1) then guess + 1
  else if r.reaches guess then guess
  else guess - 1

/-- The decimal with `count` digits that is written for a float, if one reads back. -/
def decimalWith (tie : TieRule) (x : Float) (m : Nat) (e : Int) (lead : Int) (count : Nat) :
    Option Scientific :=
  let unit := lead + 1 - (count : Int)
  let r := (Ratio.ofBinary m e).shiftTen (-unit)
  let below : Scientific := ⟨r.floor, unit⟩
  let above : Scientific := ⟨r.floor + 1, unit⟩
  match decide (below.toFloat.toBits = x.toBits), decide (above.toFloat.toBits = x.toBits) with
  | false, false => none
  | true, false => some below
  | false, true => some above
  | true, true =>
    match r.compareHalf, tie with
    | .lt, _ => some below
    | .gt, _ => some above
    | .eq, .away => some above
    | .eq, .even => some (if r.floor % 2 = 0 then below else above)

/-- The exact decimal expansion of `m * 2 ^ e`. -/
def exactDecimal (m : Nat) (e : Int) : Scientific :=
  if e < 0 then ⟨m * 5 ^ (-e).toNat, e⟩ else ⟨m * 2 ^ e.toNat, 0⟩

/-- The decimal without a last zero digit, which the carry into a new digit can leave. -/
def Scientific.dropZero (d : Scientific) : Scientific :=
  if d.coefficient % 10 = 0 then ⟨d.coefficient / 10, d.exponent + 1⟩ else d

/-- The decimal written for a positive finite float. -/
def shortest (tie : TieRule) (x : Float) : Scientific :=
  let (m, e) := binaryParts x
  let lead := leadingExponent m e
  match (List.range' 1 17).findSome? (decimalWith tie x m e lead) with
  | some d => d.dropZero
  | none => exactDecimal m e

end FormulaEngine
