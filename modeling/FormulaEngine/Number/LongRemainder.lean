import FormulaEngine.Number.Digits

/-!
# Remainders by long division

Long division brings down one word of 32 bits after the other and keeps a partial remainder.
Divisors of three words are shifted until their highest bit is set.  A partial remainder that
begins with the first word of such a divisor asks for a digit that does not fit into a word;
then that first word is lost.  So the result is below the divisor, but not always the remainder
of the division.

* `wideRemainder_eq_mod` -- for divisors of at most two words it always is.
-/

namespace FormulaEngine

/-- The first number that is too large for a word. -/
def wordSize : Nat := 2 ^ 32

/-- The first one of three words. -/
def firstWord (n : Nat) : Nat := n / wordSize ^ 2

/-- What is left of a partial remainder when the next word is brought down. -/
def carriedOn (divisor remainder : Nat) : Nat :=
  if firstWord remainder = firstWord divisor then remainder % wordSize ^ 2 else remainder

/-- The partial remainder after one more word. -/
def bringDown (divisor remainder word : Nat) : Nat :=
  (carriedOn divisor remainder * wordSize + word) % divisor

/-- The last partial remainder of a long division. -/
def longRemainder (divisor n : Nat) : Nat :=
  if n = 0 then 0
  else bringDown divisor (longRemainder divisor (n / wordSize)) (n % wordSize)
termination_by n
decreasing_by
  simp only [wordSize]
  omega

/-- The remainder by a divisor of at most three words, as long division finds it. -/
def wideRemainder (n divisor : Nat) : Nat :=
  if divisor < wordSize ^ 2 then n % divisor
  else
    let shift := 95 - divisor.log2
    longRemainder (divisor * 2 ^ shift) (n * 2 ^ shift) / 2 ^ shift

/-- For divisors of at most two words it is the remainder of the division. -/
theorem wideRemainder_eq_mod {divisor : Nat} (h : divisor < wordSize ^ 2) (n : Nat) :
    wideRemainder n divisor = n % divisor := if_pos h

end FormulaEngine
