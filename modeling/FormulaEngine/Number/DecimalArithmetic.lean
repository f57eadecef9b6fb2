import FormulaEngine.Number.Decimal
import FormulaEngine.Number.FloatArithmetic
import FormulaEngine.Number.LongRemainder

/-!
# Arithmetic of decimals

Sums, differences and products are exact where they fit.  Where they do not, digits after the
point are dropped, as few as possible, the last kept digit being rounded with a half going to
the even one; a result too large even without such digits is an overflow.  Quotients are found
by long division, at most nine digits a step; remainders by long division in words.
-/

namespace FormulaEngine

/-- A quotient rounded to a whole number; `tie` settles an exact half. -/
def roundQuotient (tie : TieRule) (n d : Nat) : Nat :=
  match Ord.compare (2 * (n % d)) d, tie with
  | .lt, _ => n / d
  | .gt, _ => n / d + 1
  | .eq, .away => n / d + 1
  | .eq, .even => n / d + n / d % 2

namespace Decimal

/-- The decimal `± coefficient / 10 ^ scale`, rounded to at most `kept` digits after the point
and to fewer where the coefficient would not fit. -/
def fitFrom (negative : Bool) (coefficient scale : Nat) : Nat → Option Decimal
  | 0 => ofParts? negative (roundQuotient .even coefficient (10 ^ scale)) 0
  | kept + 1 =>
    match ofParts? negative (roundQuotient .even coefficient (10 ^ (scale - (kept + 1))))
        (kept + 1) with
    | some d => some d
    | none => fitFrom negative coefficient scale kept

/-- The decimal nearest to `± coefficient / 10 ^ scale` with as many digits as fit. -/
def fit (negative : Bool) (coefficient scale : Nat) : Option Decimal :=
  fitFrom negative coefficient scale (min scale maxScale)

/-- The sum; adding a zero leaves the other summand as it is written. -/
def add? (a b : Decimal) : Option Decimal :=
  if a.isZero then some b
  else if b.isZero then some a
  else
    let scale := max a.scale b.scale
    let sum := a.signedAt scale + b.signedAt scale
    fit (decide (sum < 0)) sum.natAbs scale

/-- The difference. -/
def sub? (a b : Decimal) : Option Decimal :=
  if b.isZero then some (if a.isZero then b else a) else a.add? (-b)

/-- Whether the coefficient fits into one word. -/
def isShort (d : Decimal) : Bool := d.coefficient < wordSize

/-- The product; a product by zero is plain zero.  A product that is rounded to zero keeps its
sign, unless both coefficients fit into one word; then it is plain zero where the product lies more
than 19 places beyond the largest scale. -/
def mul? (a b : Decimal) : Option Decimal :=
  let negative := a.negative != b.negative
  let product := fit negative (a.coefficient * b.coefficient) (a.scale + b.scale)
  if a.isZero || b.isZero then some zero
  else if a.isShort && b.isShort then
    if maxScale + 19 < a.scale + b.scale then some zero else product
  else product.map fun d => { d with negative }

/-- How many digits, at most the given number, a quotient can be extended by before it outgrows
the capacity. -/
def roomFor (quotient : Nat) : Nat → Nat
  | 0 => 0
  | count + 1 =>
    if quotient * 10 ^ (count + 1) < capacity then count + 1 else roomFor quotient count

theorem roomFor_le (quotient count : Nat) : roomFor quotient count ≤ count := by
  induction count with
  | zero => exact Nat.le_refl 0
  | succ n ih =>
    rw [roomFor]
    split <;> omega

/-- How many digits a quotient is extended by in one step of a long division: up to nine while a
remainder is left, as far as scale and capacity allow; without a remainder, only as many as bring
the scale to zero. -/
def stepSize (quotient remainder : Nat) (scale : Int) : Nat :=
  if remainder = 0 then min 9 (-scale).toNat
  else roomFor quotient (min 9 ((maxScale : Int) - scale).toNat)

theorem stepSize_le (quotient remainder : Nat) (scale : Int) :
    stepSize quotient remainder scale ≤ ((maxScale : Int) - scale).toNat := by
  have h := roomFor_le quotient (min 9 ((maxScale : Int) - scale).toNat)
  simp only [stepSize, maxScale] at *
  split <;> omega

/-- A quotient that outgrew the capacity loses its last digit again. -/
def shorten (quotient : Nat) (inexact : Bool) (scale : Int) : Option (Nat × Int) :=
  if scale ≤ 0 then none
  else
    let up := quotient % 10 > 5 || quotient % 10 == 5 && (inexact || quotient / 10 % 2 == 1)
    some (quotient / 10 + (if up then 1 else 0), scale - 1)

/-- Cast off trailing zeros of a quotient: groups of eight while its low 32 bits are zero, then at
most one group of four, one of two and a single one. -/
def castOff (quotient scale : Nat) : Nat × Nat :=
  let drop (count : Nat) (p : Nat × Nat) : Nat × Nat :=
    if count ≤ p.2 ∧ p.1 % 10 ^ count = 0 then (p.1 / 10 ^ count, p.2 - count) else p
  let dropEight (p : Nat × Nat) : Nat × Nat := if p.1 % 2 ^ 32 = 0 then drop 8 p else p
  drop 1 (drop 2 (drop 4 (dropEight (dropEight (dropEight (quotient, scale))))))

/-- Long division: `quotient` and `remainder` of a division by `divisor` are extended digit by
digit until the remainder vanishes or no digit fits; the flag tells whether a remainder was left on
the way.  Ends with the quotient, its scale and the flag. -/
def divide (divisor quotient remainder : Nat) (scale : Int) (inexact : Bool) :
    Option (Nat × Int × Bool) :=
  let step := stepSize quotient remainder scale
  let inexact := inexact || remainder != 0
  if h : step = 0 then
    if remainder = 0 then some (quotient, scale, inexact)
    else if scale < 0 then none
    else
      let rounded := roundQuotient .even (quotient * divisor + remainder) divisor
      if rounded < capacity then some (rounded, scale, inexact)
      else (shorten rounded true scale).map fun (q, s) => (q, s, inexact)
  else if remainder ≠ 0 ∧ step < 9 ∧ scale + step < 0 then none
  else
    let power := 10 ^ step
    let extended := quotient * power
    let next := extended + remainder * power / divisor
    let left := remainder * power % divisor
    if capacity ≤ extended then none
    else if capacity ≤ next then
      (shorten next (left != 0) (scale + step)).map fun (q, s) => (q, s, inexact)
    else divide divisor next left (scale + step) inexact
termination_by (maxScale - scale).toNat
decreasing_by
  have := stepSize_le quotient remainder scale
  omega

/-- The quotient by a decimal other than zero. -/
def div? (a b : Decimal) : Option Decimal :=
  if a.isZero then some zero
  else
    let negative := a.negative != b.negative
    match divide b.coefficient (a.coefficient / b.coefficient) (a.coefficient % b.coefficient)
        ((a.scale : Int) - b.scale) false with
    | none => none
    | some (quotient, scale, inexact) =>
      let (quotient, scale) :=
        if inexact then castOff quotient scale.toNat else (quotient, scale.toNat)
      ofParts? negative quotient scale

/-- The remainder by a decimal other than zero, with the sign of the dividend.  A dividend smaller
than the divisor stays as it is written. -/
def rem? (a b : Decimal) : Option Decimal :=
  if a.isZero then some zero
  else
    match a.abs.compare b.abs with
    | .lt => some a
    | .eq => some zero
    | .gt =>
      let scale := max a.scale b.scale
      ofParts? a.negative
        (wideRemainder (a.signedAt scale).natAbs (b.signedAt scale).natAbs) scale

/-- The decimal rounded to a number of places after the point; zero keeps its sign. -/
def round (tie : TieRule) (places : Nat) (d : Decimal) : Decimal :=
  if h : d.scale ≤ places then d
  else if d.isZero then
    ⟨d.negative, 0, places, Nat.zero_lt_of_lt d.coefficient_lt,
      Nat.le_trans (Nat.le_of_not_le h) d.scale_le⟩
  else (ofParts? d.negative (roundQuotient tie d.coefficient (10 ^ (d.scale - places)))
    places).getD d

private theorem wholePart_lt (d : Decimal) (outward : Bool) :
    d.coefficient / 10 ^ d.scale +
      (if outward && d.coefficient % 10 ^ d.scale != 0 then 1 else 0) < capacity := by
  have hc := d.coefficient_lt
  cases hs : d.scale with
  | zero => simpa [Nat.mod_one] using hc
  | succ n =>
    have h1 : d.coefficient / 10 ^ (n + 1) ≤ d.coefficient / 10 := by
      apply Nat.div_le_div_left _ (by decide)
      rw [Nat.pow_succ]
      exact Nat.le_mul_of_pos_left _ (Nat.pow_pos (by decide))
    simp only [capacity] at *
    split <;> omega

/-- The whole part; where a fraction is lost and `outward` is set, the next one away from zero. -/
def wholePart (d : Decimal) (outward : Bool) : Decimal :=
  ⟨d.negative, _, 0, wholePart_lt d outward, Nat.zero_le _⟩

/-- The whole number next to the decimal in the direction of zero. -/
def truncate (d : Decimal) : Decimal := d.wholePart false

/-- The largest whole number that is not above the decimal. -/
def floor (d : Decimal) : Decimal := d.wholePart d.negative

/-- The smallest whole number that is not below the decimal. -/
def ceiling (d : Decimal) : Decimal := d.wholePart (!d.negative)

/-- The float of a decimal: the whole part and the fraction are converted apart, and what their
sum adds beyond the scale is rounded away again.  A decimal without digits after the point is
converted as an integer, so that a zero loses its sign. -/
def toFloat (d : Decimal) : Float :=
  let magnitude :=
    if d.scale = 0 then Float.ofNat d.coefficient
    else
      let precision := 10 ^ d.scale
      let whole := Float.ofNat (d.coefficient / precision)
      let fraction := Float.ofNat (d.coefficient % precision) / Float.ofNat precision
      if fraction == 0 then whole
      else
        let power := floatTenPower d.scale
        floatRoundAway ((whole + fraction) * power) / power
  if d.negative && !(d.isZero && d.scale == 0) then -magnitude else magnitude

end Decimal

end FormulaEngine
