import FormulaEngine.Proofs.IntegerArithmetic
import FormulaEngine.Proofs.Rendering
import FormulaEngine.Proofs.StrictEvaluation

/-!
# The texts of integers

There are no negative numerals.  The text of a negative integer is read as the opposite of the
numeral behind its sign, and so it has that integer as its value if the numeral fits into a word.
The numeral of the least word does not, and its text cannot be read.

* `Expr.ofInteger` -- the tree that the text of an integer has;
* `Expr.parse_text_ofInteger`, `Expr.strict_ofInteger` -- the text is read as this tree, and the
  tree has the integer as its value;
* `Expr.parse_text_minValue` -- the text of the least word is refused;
* `Expr.integer_text` -- so the text denotes the integer, unless it is the least word.
-/

namespace FormulaEngine

/-- Every word but the least has an opposite. -/
theorem toInt_neg_of_ne_minValue {n : Int64} (hn : n ≠ Int64.minValue) :
    (-n).toInt = -n.toInt := by
  have hne : n.toInt ≠ -2 ^ 63 := by
    intro h
    apply hn
    rw [← Int64.toInt_inj, h]
    rfl
  have hlow := n.le_toInt
  have hhigh := n.toInt_lt
  rw [Int64.toInt_neg]
  apply Int.bmod_eq_of_le
  · omega
  · omega

namespace Expr

/-- The tree that the text of an integer has: a literal, or the opposite of one. -/
def ofInteger (n : Int64) : Expr :=
  if 0 ≤ n then literal (.integer n) else unary .negate (literal (.integer (-n)))

variable {n : Int64}

/-- The opposite of a negative word that is not the least one is not negative. -/
private theorem neg_nonneg_of_neg (hn : n ≠ Int64.minValue) (hneg : ¬ 0 ≤ n) : 0 ≤ -n := by
  have hlt : n.toInt < 0 := by simpa [Int64.le_iff_toInt_le] using hneg
  rw [Int64.le_iff_toInt_le, toInt_neg_of_ne_minValue hn, Int64.toInt_zero]
  omega

/-- A sign in front of a numeral is read as the operator, so that both trees have the same text. -/
theorem text_ofInteger (hn : n ≠ Int64.minValue) :
    (ofInteger n).text = (literal (.integer n)).text := by
  unfold ofInteger
  split
  · rfl
  · next hneg =>
    have hlt : n.toInt < 0 := by simpa [Int64.le_iff_toInt_le] using hneg
    have hle : ¬ (-n).toInt < 0 := by
      rw [toInt_neg_of_ne_minValue hn]
      omega
    have habs : (-n).toInt.natAbs = n.toInt.natAbs := by
      rw [toInt_neg_of_ne_minValue hn, Int.natAbs_neg]
    simp only [text, chars, Literal.chars, intDigits, if_neg hle, if_pos hlt, habs]
    rfl

theorem parse_text_ofInteger (hn : n ≠ Int64.minValue) :
    parse (literal (.integer n)).text = .ok (ofInteger n) := by
  rw [← text_ofInteger hn]
  unfold ofInteger
  split
  · next hpos =>
    have hlevels : (literal (.integer n)).levels ≤ nestingLimit := by
      change 1 ≤ 128
      decide
    exact parse_text_of_legible (everywhere_literal.2 hpos) hlevels
  · next hneg =>
    have hpos : Literal.Legible (.integer (-n)) := neg_nonneg_of_neg hn hneg
    have hlevels : (unary .negate (literal (.integer (-n)))).levels ≤ nestingLimit := by
      change 2 ≤ 128
      decide
    exact parse_text_of_legible (everywhere_unary.2 (everywhere_literal.2 hpos)) hlevels

theorem strict_ofInteger (hn : n ≠ Int64.minValue) (options : Options) (p : Parameters) :
    (ofInteger n).strict options p = .ok (.integer n) := by
  unfold ofInteger
  split
  · rfl
  · have hback : int64? (-(-n).toInt) = some n := by
      rw [int64?_eq_some_iff, toInt_neg_of_ne_minValue hn, Int.neg_neg]
    show applyUnary .negate (.integer (-n)) = .ok (.integer n)
    rw [applyUnary, hback]

/-- The numeral of the least word is too large, and it stands behind the sign. -/
theorem parse_text_minValue : parse (literal (.integer Int64.minValue)).text =
    .error [⟨.integerTooLarge "9223372036854775808".toList, 1⟩] := by
  have htokens : tokenize (literal (.integer Int64.minValue)).text =
      .error [⟨.integerTooLarge "9223372036854775808".toList, 1⟩] := by
    decide +kernel
  rw [parse, htokens]
  rfl

/-- **The text of an integer denotes it, unless it is the least word.**  Then the text is read as a
tree that has the integer as its value, whatever the parameters are; that of the least word is
refused at the numeral behind its sign. -/
theorem integer_text (n : Int64) :
    (n ≠ Int64.minValue → ∃ e, parse (literal (.integer n)).text = .ok e ∧
      ∀ options p, options.iterate = false → e.outcome options p = .ok (.integer n)) ∧
    (n = Int64.minValue → parse (literal (.integer n)).text =
      .error [⟨.integerTooLarge "9223372036854775808".toList, 1⟩]) := by
  constructor
  · intro hn
    refine ⟨ofInteger n, parse_text_ofInteger hn, fun options p hsingle => ?_⟩
    exact outcome_of_strict _ hsingle (strict_ofInteger hn options p)
  · rintro rfl
    exact parse_text_minValue

/-- The least integer whose text can be read. -/
theorem integer_text_opposite :
    ((-9223372036854775807 : Int64) ≠ Int64.minValue) ∧
    (∃ e, parse "-9223372036854775807" = .ok e ∧
      e.outcome {} (.empty false) = .ok (.integer (-9223372036854775807))) ∧
    parse "-9223372036854775808" =
      .error [⟨.integerTooLarge "9223372036854775808".toList, 1⟩] := by
  have hne : (-9223372036854775807 : Int64) ≠ Int64.minValue := by decide
  have htext : "-9223372036854775807" = (literal (.integer (-9223372036854775807))).text := by
    decide +kernel
  have hleast : "-9223372036854775808" = (literal (.integer Int64.minValue)).text := by
    decide +kernel
  obtain ⟨e, hparse, houtcome⟩ := (integer_text (-9223372036854775807)).1 hne
  refine ⟨hne, ⟨e, ?_, houtcome {} (.empty false) rfl⟩, ?_⟩
  · rw [htext]
    exact hparse
  · rw [hleast]
    exact (integer_text Int64.minValue).2 rfl

/-- The text of the least integer has no tree. -/
theorem not_exists_parse_text_minValue :
    ¬ ∃ e, parse (literal (.integer Int64.minValue)).text = .ok e ∧
      e.outcome {} (.empty false) = .ok (.integer Int64.minValue) := by
  rintro ⟨e, hparse, -⟩
  rw [parse_text_minValue] at hparse
  cases hparse

end Expr

end FormulaEngine
