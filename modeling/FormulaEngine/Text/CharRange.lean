/-!
# Sets of characters given by ranges of code points

The character classes of the formula language are sets of Unicode scalar values.  Beyond
ASCII they are data of the Unicode standard, kept as sorted lists of closed ranges.

* `CharRanges.contains_iff` -- a character is in the set exactly when one of the ranges
  covers its code point.
-/

namespace FormulaEngine

/-- A set of characters: a list of closed ranges of code points. -/
structure CharRanges where
  ranges : List (Nat × Nat)

namespace CharRanges

/-- Whether one of the ranges covers the character. -/
def contains (s : CharRanges) (c : Char) : Bool :=
  s.ranges.any fun r => r.1 ≤ c.toNat && c.toNat ≤ r.2

/-- Membership says what it should: some range covers the code point. -/
theorem contains_iff {s : CharRanges} {c : Char} :
    s.contains c = true ↔ ∃ r ∈ s.ranges, r.1 ≤ c.toNat ∧ c.toNat ≤ r.2 := by
  simp [contains]

end CharRanges

end FormulaEngine
