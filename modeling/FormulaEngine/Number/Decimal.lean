import FormulaEngine.Number.Digits

/-!
# Decimals of fixed capacity

A decimal is a sign, a coefficient below `2 ^ 96` and a scale from 0 to 28: it denotes the
coefficient divided by ten to the scale.  The scale is part of the text (`1.0` and `1.00` are
written differently) but not of the value: comparison is by value.  A zero can have a minus
sign, which is written.

* `signedAt_mul` -- a larger common scale multiplies the signed coefficient.
-/

namespace FormulaEngine

/-- The first natural number that is too large for a coefficient. -/
def Decimal.capacity : Nat := 2 ^ 96

/-- The largest scale. -/
def Decimal.maxScale : Nat := 28

/-- A decimal: a sign, a coefficient, and the number of digits after the point. -/
structure Decimal where
  negative : Bool
  coefficient : Nat
  scale : Nat
  coefficient_lt : coefficient < Decimal.capacity
  scale_le : scale ≤ Decimal.maxScale
deriving DecidableEq

namespace Decimal

/-- Zero, without digits after the point. -/
def zero : Decimal := ⟨false, 0, 0, by decide, by decide⟩

instance : Inhabited Decimal := ⟨zero⟩

/-- The decimal with these parts if they fit; a zero made this way has no sign. -/
def ofParts? (negative : Bool) (coefficient scale : Nat) : Option Decimal :=
  if h : coefficient < capacity ∧ scale ≤ maxScale then
    some ⟨negative && coefficient != 0, coefficient, scale, h.1, h.2⟩
  else none

/-- Whether the value is zero. -/
def isZero (d : Decimal) : Bool := d.coefficient == 0

/-- The decimal with the opposite sign. -/
def neg (d : Decimal) : Decimal := { d with negative := !d.negative }

/-- The decimal without its sign. -/
def abs (d : Decimal) : Decimal := { d with negative := false }

instance : Neg Decimal := ⟨neg⟩

private theorem natAbs_int64_lt (i : Int64) : i.toInt.natAbs < capacity := by
  have h1 := i.toInt_lt
  have h2 := i.le_toInt
  simp only [capacity]
  omega

/-- The decimal of a 64-bit integer, without digits after the point. -/
def ofInt64 (i : Int64) : Decimal :=
  ⟨decide (i.toInt < 0), i.toInt.natAbs, 0, natAbs_int64_lt i, by decide⟩

/-- The signed coefficient that the value has at a scale at least as large as its own. -/
def signedAt (d : Decimal) (scale : Nat) : Int :=
  let c : Int := d.coefficient * 10 ^ (scale - d.scale)
  if d.negative then -c else c

/-- How two decimals compare by value. -/
def compare (a b : Decimal) : Ordering :=
  let scale := max a.scale b.scale
  Ord.compare (a.signedAt scale) (b.signedAt scale)

instance : Ord Decimal := ⟨compare⟩

/-- Equality of values, not of texts. -/
instance : BEq Decimal := ⟨fun a b => a.compare b == .eq⟩

/-- The characters of a decimal: its digits with the point before the last `scale` of them. -/
def chars (d : Decimal) : List Char :=
  let digits := padDigits (d.scale + 1) d.coefficient
  let count := digits.length - d.scale
  (if d.negative then ['-'] else []) ++ digits.take count ++
    (if d.scale = 0 then [] else '.' :: digits.drop count)

/-- The text of a decimal. -/
def text (d : Decimal) : String := String.ofList d.chars

/-- The decimal that a text denotes, if it fits exactly. -/
def read? (s : String) : Option Decimal :=
  let (negative, body) :=
    match s.toList with
    | '-' :: rest => (true, rest)
    | '+' :: rest => (false, rest)
    | cs => (false, cs)
  let whole := body.takeWhile Char.isDigit
  match body.dropWhile Char.isDigit with
  | [] => if whole.isEmpty then none else ofParts? negative (ofDigits whole) 0
  | '.' :: fraction =>
    if fraction.all Char.isDigit && !(whole.isEmpty && fraction.isEmpty) then
      ofParts? negative (ofDigits (whole ++ fraction)) fraction.length
    else none
  | _ => none

/-- A larger common scale multiplies the signed coefficient by a power of ten. -/
theorem signedAt_mul (d : Decimal) {s t : Nat} (hs : d.scale ≤ s) (ht : s ≤ t) :
    d.signedAt t = d.signedAt s * 10 ^ (t - s) := by
  have h : t - d.scale = (s - d.scale) + (t - s) := by omega
  simp only [signedAt, h, Int.pow_add]
  split <;> grind

end Decimal

end FormulaEngine
