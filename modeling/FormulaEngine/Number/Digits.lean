/-!
# Decimal digits

Natural numbers and their decimal digits, as lists of characters.

* `ofDigits_append` -- appending digits shifts the value that stands before them;
* `length_padDigits` -- padding reaches the width that was asked for.
-/

namespace FormulaEngine

/-- Powers are the built-in ones, also where algebra is imported. -/
@[default_instance 10100]
instance (priority := 1100) builtinPow {α : Type} [NatPow α] : Pow α Nat := instPowNat

/-- The decimal digits of a natural number, the highest first. -/
def digitsOf (n : Nat) : List Char := Nat.toDigits 10 n

/-- The value of a decimal digit. -/
def digitValue (c : Char) : Nat := c.toNat - '0'.toNat

/-- The natural number that a list of decimal digits denotes. -/
def ofDigits (cs : List Char) : Nat := cs.foldl (fun n c => 10 * n + digitValue c) 0

/-- The digits of a natural number, filled up with zeros on the left to a least width. -/
def padDigits (width n : Nat) : List Char :=
  List.replicate (width - (digitsOf n).length) '0' ++ digitsOf n

/-- The digits of an integer with a minus sign in front of a negative one. -/
def intDigits (i : Int) : List Char :=
  if i < 0 then '-' :: digitsOf i.natAbs else digitsOf i.natAbs

private theorem foldl_digits (cs : List Char) :
    ∀ n, cs.foldl (fun n c => 10 * n + digitValue c) n = 10 ^ cs.length * n + ofDigits cs := by
  induction cs with
  | nil => intro n; simp [ofDigits]
  | cons c rest ih =>
    intro n
    have h1 := ih (10 * n + digitValue c)
    have h2 := ih (10 * 0 + digitValue c)
    simp only [List.foldl_cons, ofDigits, List.length_cons] at h1 h2 ⊢
    rw [h1, h2, Nat.pow_succ]
    grind

/-- Digits appended on the right shift the value of those on the left. -/
theorem ofDigits_append (xs ys : List Char) :
    ofDigits (xs ++ ys) = 10 ^ ys.length * ofDigits xs + ofDigits ys := by
  rw [ofDigits, List.foldl_append, foldl_digits]
  rfl

/-- A padded number is as wide as asked for, or wider where its digits need it. -/
theorem length_padDigits (width n : Nat) :
    (padDigits width n).length = max width (digitsOf n).length := by
  simp [padDigits]
  omega

end FormulaEngine
