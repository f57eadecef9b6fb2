/-!
# Evaluation options

Four switches that a formula is evaluated under.  As a set they are also written as a number
with one bit for each switch.
-/

namespace FormulaEngine

/-- The switches; all of them are off by default. -/
structure Options where
  /-- names of parameters and functions are compared without regard to case -/
  ignoreCase : Bool := false
  /-- the text is always parsed anew -/
  bypassCache : Bool := false
  /-- the formula is evaluated once for each position of the list parameters -/
  iterate : Bool := false
  /-- rounding takes a half away from zero, instead of to the even neighbour -/
  roundAway : Bool := false
deriving DecidableEq, Repr, Inhabited

/-- The number of a set of switches. -/
def Options.bits (o : Options) : Nat :=
  o.ignoreCase.toNat + 2 * o.bypassCache.toNat + 4 * o.iterate.toNat + 8 * o.roundAway.toNat

/-- The same switches for a single pass. -/
def Options.singlePass (o : Options) : Options := { o with iterate := false }

end FormulaEngine
