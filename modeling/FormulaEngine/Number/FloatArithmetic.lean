import FormulaEngine.Number.Shortest

/-!
# Float operations beyond the basic ones

The remainder of a division toward zero, and rounding to whole numbers.  The remainder is
computed exactly on the integers behind the floats: over the smaller of the two exponents it
is an ordinary remainder, and the result is always representable.
-/

namespace FormulaEngine

/-- Not a number. -/
def notANumber : Float := 0.0 / 0.0

/-- The float `m * 2 ^ e` with a sign, for a value that a float can hold. -/
def floatOfBinary (negative : Bool) (m : Nat) (e : Int) : Float :=
  let magnitude :=
    if m = 0 then 0
    else
      let shift : Int := 52 - (m.log2 : Int)
      let unit := e - shift
      if -1074 ≤ unit then
        (unit + 1074).toNat * 2 ^ 52 + m * 2 ^ shift.toNat / 2 ^ (-shift).toNat
      else m * 2 ^ (e + 1074).toNat / 2 ^ (-(e + 1074)).toNat
  Float.ofBits ((if negative then 2 ^ 63 else 0) + magnitude).toUInt64

/-- The remainder of `m * 2 ^ e` by `n * 2 ^ f`, over the smaller of the two exponents. -/
def binaryRemainder (m : Nat) (e : Int) (n : Nat) (f : Int) : Nat × Int :=
  let unit := min e f
  ((m * 2 ^ (e - unit).toNat) % (n * 2 ^ (f - unit).toNat), unit)

/-- The remainder of a division toward zero: it has the sign of the dividend. -/
def floatRemainder (x y : Float) : Float :=
  if x.isNaN || y.isNaN || x.isInf || y == 0 then notANumber
  else if y.isInf || x == 0 then x
  else
    let (m, e) := binaryParts x
    let (n, f) := binaryParts y
    let (r, unit) := binaryRemainder m e n f
    floatOfBinary (signBit x) r unit

/-- The whole number next to a float in the direction of zero. -/
def floatTruncate (x : Float) : Float := if x < 0 then x.ceil else x.floor

/-- The nearest whole number, a half going to the even one. -/
def floatRoundEven (x : Float) : Float :=
  if x.isFinite then
    let below := x.floor
    let above := x.ceil
    if x - below < above - x then below
    else if above - x < x - below then above
    else if floatRemainder below 2 == 0 then below
    else above
  else x

/-- The whole number that a half is rounded to, away from zero. -/
def floatRoundAway (x : Float) : Float := x.round

/-- A power of ten by repeated squaring, each product rounded. -/
def floatTenPower (n : Nat) : Float := go n 10 1
where
  /-- The loop: `acc * base ^ n`. -/
  go (n : Nat) (base acc : Float) : Float :=
    let acc := if n % 2 = 1 then acc * base else acc
    if n / 2 = 0 then acc else go (n / 2) (base * base) acc
  termination_by n
  decreasing_by omega

end FormulaEngine
