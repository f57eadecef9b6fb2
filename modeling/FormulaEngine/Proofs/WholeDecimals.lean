import FormulaEngine.Proofs.IntegerArithmetic
import Mathlib.Tactic.Common

/-!
# Decimals that denote integers

A decimal that denotes an integer may have digits after the point, all of them zeros, and a zero may
have a sign.  Comparison sees none of this, and neither does arithmetic as far as values go: where
the result on integers fits into a word, the one on decimals denotes the same integer.

* `Decimal.Denotes` -- the integer that a decimal denotes;
* `Decimal.compare_of_denotes` -- decimals are compared as their integers are;
* `Decimal.fit_denotes` -- a digit that is dropped to make a result fit is a zero;
* `Decimal.add?_denotes`, `sub?_denotes`, `mul?_denotes`, `rem?_denotes` -- arithmetic is exact;
* `applyBinary_of_denotes` -- an operator makes the same of integers and of their decimals.
-/

namespace FormulaEngine

namespace Decimal

/-! ## The integer of a decimal -/

/-- The integer of a sign and a magnitude. -/
def signed (negative : Bool) (magnitude : Nat) : Int :=
  if negative then -(magnitude : Int) else magnitude

theorem natAbs_signed (negative : Bool) (magnitude : Nat) :
    (signed negative magnitude).natAbs = magnitude := by
  cases negative <;> simp [signed]

theorem signed_mul (negative : Bool) (magnitude factor : Nat) :
    signed negative (magnitude * factor) = signed negative magnitude * factor := by
  cases negative <;> simp only [signed, Int.natCast_mul, Int.neg_mul, if_true, if_false,
    Bool.false_eq_true]

theorem signed_not (negative : Bool) (magnitude : Nat) :
    signed (!negative) magnitude = -signed negative magnitude := by
  cases negative <;> simp [signed]

theorem signed_mul_signed (negative negative' : Bool) (magnitude magnitude' : Nat) :
    signed (negative != negative') (magnitude * magnitude') =
      signed negative magnitude * signed negative' magnitude' := by
  have hright (b : Bool) : signed b (magnitude * magnitude') = magnitude * signed b magnitude' := by
    rw [Nat.mul_comm, signed_mul, Int.mul_comm]
  cases negative with
  | false =>
      rw [Bool.false_bne]
      exact hright negative'
  | true =>
      rw [Bool.true_bne, signed_not, hright]
      exact (Int.neg_mul _ _).symm

theorem signed_natAbs (n : Int) : signed (decide (n < 0)) n.natAbs = n := by
  simp only [signed, decide_eq_true_eq]
  split <;> omega

/-- A remainder has the sign of its dividend. -/
theorem signed_tmod {negative : Bool} {m : Int} (h : signed negative m.natAbs = m) (n : Int) :
    signed negative (m.natAbs % n.natAbs) = m.tmod n := by
  rw [← Int.natAbs_tmod]
  cases negative with
  | false =>
      have hm : 0 ≤ m := by
        rw [← h]
        exact Int.natCast_nonneg _
      exact Int.natAbs_of_nonneg (Int.tmod_nonneg n hm)
  | true =>
      have hm : 0 ≤ -m := by
        rw [← h]
        simp [signed]
      have hnonneg := Int.tmod_nonneg n hm
      rw [Int.neg_tmod] at hnonneg
      simp only [signed, if_true]
      omega

/-- A signed coefficient is a multiple of a power of ten if its sign is that of the factor, where a
zero may have any, and its magnitude is the multiple. -/
theorem signed_eq_mul_iff {negative : Bool} {coefficient scale : Nat} {n : Int} :
    signed negative coefficient = n * 10 ^ scale ↔
      signed negative n.natAbs = n ∧ coefficient = n.natAbs * 10 ^ scale := by
  have hpower : (0 : Int) < 10 ^ scale := Int.pow_pos (by decide)
  constructor
  · intro h
    have hcoefficient : coefficient = n.natAbs * 10 ^ scale := by
      rw [← natAbs_signed negative coefficient, h, Int.natAbs_mul, Int.natAbs_pow]
      rfl
    refine ⟨?_, hcoefficient⟩
    rw [hcoefficient, signed_mul] at h
    exact Int.eq_of_mul_eq_mul_right (Int.ne_of_gt hpower) (by simpa using h)
  · rintro ⟨hsign, hcoefficient⟩
    rw [hcoefficient, signed_mul, hsign]
    simp

/-- The decimal denotes the integer: at its own scale it is the multiple of the power of ten. -/
def Denotes (d : Decimal) (n : Int) : Prop := d.signedAt d.scale = n * 10 ^ d.scale

variable {x y : Decimal} {m n : Int}

theorem denotes_iff_signed :
    x.Denotes n ↔ signed x.negative x.coefficient = n * 10 ^ x.scale := by
  simp [Denotes, Decimal.signedAt, signed]

/-- Sign and coefficient of a decimal that denotes an integer. -/
theorem denotes_iff :
    x.Denotes n ↔ signed x.negative n.natAbs = n ∧ x.coefficient = n.natAbs * 10 ^ x.scale :=
  denotes_iff_signed.trans signed_eq_mul_iff

/-- The signed coefficient at any scale that is large enough. -/
theorem Denotes.signedAt (h : x.Denotes n) {scale : Nat} (hscale : x.scale ≤ scale) :
    x.signedAt scale = n * 10 ^ scale := by
  rw [signedAt_mul x (Nat.le_refl _) hscale, show x.signedAt x.scale = _ from h, Int.mul_assoc,
    ← Int.pow_add, Nat.add_sub_cancel' hscale]

theorem Denotes.isZero_iff (h : x.Denotes n) : x.isZero = true ↔ n = 0 := by
  have hpower : 10 ^ x.scale ≠ 0 := Nat.ne_of_gt (Nat.pow_pos (by decide))
  simp only [isZero, beq_iff_eq, (denotes_iff.1 h).2, Nat.mul_eq_zero, hpower, or_false,
    Int.natAbs_eq_zero]

/-- The magnitude of the integer is no larger than the coefficient. -/
theorem Denotes.natAbs_lt (h : x.Denotes n) : n.natAbs < capacity := by
  refine Nat.lt_of_le_of_lt ?_ x.coefficient_lt
  rw [(denotes_iff.1 h).2]
  exact Nat.le_mul_of_pos_right _ (Nat.pow_pos (by decide))

/-- The decimal of a word denotes its integer. -/
theorem ofInt64_denotes (i : Int64) : (ofInt64 i).Denotes i.toInt :=
  denotes_iff.2 ⟨signed_natAbs i.toInt, (Nat.mul_one _).symm⟩

theorem zero_denotes : zero.Denotes 0 := rfl

/-- The opposite decimal denotes the opposite integer. -/
theorem Denotes.neg (h : x.Denotes n) : (-x).Denotes (-n) := by
  obtain ⟨hsign, hcoefficient⟩ := denotes_iff.1 h
  refine denotes_iff.2 ⟨?_, by rwa [Int.natAbs_neg]⟩
  have hneg : (-x).negative = !x.negative := rfl
  rw [Int.natAbs_neg, hneg, signed_not, hsign]

/-- Of the decimal without its sign. -/
theorem Denotes.abs (h : x.Denotes n) : x.abs.Denotes n.natAbs :=
  denotes_iff.2 ⟨rfl, (denotes_iff.1 h).2⟩

/-- Decimals are compared as the integers are that they denote. -/
theorem compare_of_denotes (hx : x.Denotes m) (hy : y.Denotes n) :
    x.compare y = Ord.compare m n := by
  have hpower : (0 : Int) < 10 ^ max x.scale y.scale := Int.pow_pos (by decide)
  rw [Decimal.compare, hx.signedAt (Nat.le_max_left _ _), hy.signedAt (Nat.le_max_right _ _)]
  simp only [Int.compare_eq_ite_lt, Int.mul_lt_mul_right hpower]

/-! ## Results that fit -/

/-- An exact multiple is divided without rounding. -/
theorem roundQuotient_mul (tie : TieRule) (n : Nat) {d : Nat} (h : 0 < d) :
    roundQuotient tie (n * d) d = n := by
  have hlt : Ord.compare 0 d = Ordering.lt := Nat.compare_eq_lt.2 h
  simp [roundQuotient, hlt, Nat.mul_div_cancel _ h]

/-- Parts that fit make a decimal. -/
theorem exists_ofParts? (negative : Bool) {coefficient scale : Nat}
    (hcoefficient : coefficient < capacity) (hscale : scale ≤ maxScale) :
    ∃ d, ofParts? negative coefficient scale = some d := ⟨_, dif_pos ⟨hcoefficient, hscale⟩⟩

/-- What is made from parts denotes the integer of the parts. -/
theorem ofParts?_denotes {negative : Bool} {coefficient scale : Nat}
    (h : signed negative coefficient = n * 10 ^ scale)
    (hparts : ofParts? negative coefficient scale = some x) : x.Denotes n := by
  unfold ofParts? at hparts
  split at hparts
  · cases hparts
    rw [denotes_iff_signed, ← h]
    -- a zero loses its sign here
    cases coefficient <;> simp [signed]
  · cases hparts

/-- However many digits are dropped, what is kept denotes the integer; without digits after the
point it fits. -/
theorem fitFrom_denotes {negative : Bool} {scale kept : Nat}
    (hsign : signed negative n.natAbs = n) (hfits : n.natAbs < capacity) (hkept : kept ≤ scale) :
    ∃ d, fitFrom negative (n.natAbs * 10 ^ scale) scale kept = some d ∧ d.Denotes n := by
  have hround (k : Nat) (hk : k ≤ scale) :
      roundQuotient .even (n.natAbs * 10 ^ scale) (10 ^ (scale - k)) = n.natAbs * 10 ^ k := by
    rw [← Nat.add_sub_cancel' hk, Nat.pow_add, ← Nat.mul_assoc, Nat.add_sub_cancel_left]
    exact roundQuotient_mul _ _ (Nat.pow_pos (by decide))
  have hsigned (k : Nat) : signed negative (n.natAbs * 10 ^ k) = n * 10 ^ k :=
    signed_eq_mul_iff.2 ⟨hsign, rfl⟩
  induction kept with
  | zero =>
      have hzero := hround 0 hkept
      rw [Nat.sub_zero] at hzero
      rw [← Nat.mul_one n.natAbs] at hfits
      obtain ⟨d, hd⟩ := exists_ofParts? negative hfits (Nat.zero_le maxScale)
      rw [fitFrom, hzero]
      exact ⟨d, hd, ofParts?_denotes (hsigned 0) hd⟩
  | succ kept ih =>
      rw [fitFrom, hround (kept + 1) hkept]
      split
      · next d hd => exact ⟨d, rfl, ofParts?_denotes (hsigned (kept + 1)) hd⟩
      · exact ih (Nat.le_of_succ_le hkept)

/-- **A result that is an integer is not rounded**, whatever its scale is, as long as the integer
itself fits. -/
theorem fit_denotes {negative : Bool} {coefficient scale : Nat}
    (h : signed negative coefficient = n * 10 ^ scale) (hfits : n.natAbs < capacity) :
    ∃ d, fit negative coefficient scale = some d ∧ d.Denotes n := by
  obtain ⟨hsign, hcoefficient⟩ := signed_eq_mul_iff.1 h
  rw [fit, hcoefficient]
  exact fitFrom_denotes hsign hfits (Nat.min_le_left _ _)

/-! ## Arithmetic -/

/-- Sums are exact. -/
theorem add?_denotes (hx : x.Denotes m) (hy : y.Denotes n) (hfits : (m + n).natAbs < capacity) :
    ∃ d, x.add? y = some d ∧ d.Denotes (m + n) := by
  unfold add?
  split
  · next hzero =>
    rw [hx.isZero_iff.1 hzero, Int.zero_add]
    exact ⟨y, rfl, hy⟩
  · split
    · next hzero =>
      rw [hy.isZero_iff.1 hzero, Int.add_zero]
      exact ⟨x, rfl, hx⟩
    · refine fit_denotes ?_ hfits
      rw [hx.signedAt (Nat.le_max_left _ _), hy.signedAt (Nat.le_max_right _ _), ← Int.add_mul]
      exact signed_natAbs _

/-- Differences are exact. -/
theorem sub?_denotes (hx : x.Denotes m) (hy : y.Denotes n) (hfits : (m - n).natAbs < capacity) :
    ∃ d, x.sub? y = some d ∧ d.Denotes (m - n) := by
  unfold sub?
  split
  · next hyzero =>
    obtain rfl := hy.isZero_iff.1 hyzero
    split
    · next hxzero =>
      obtain rfl := hx.isZero_iff.1 hxzero
      exact ⟨y, rfl, hy⟩
    · rw [Int.sub_zero]
      exact ⟨x, rfl, hx⟩
  · rw [Int.sub_eq_add_neg] at hfits ⊢
    exact add?_denotes hx hy.neg hfits

/-- A short coefficient that denotes an integer other than zero has few digits after the point. -/
theorem Denotes.scale_lt_ten (h : x.Denotes n) (hn : n ≠ 0) (hshort : x.isShort = true) :
    x.scale < 10 := by
  refine Nat.lt_of_not_le fun hle => ?_
  have hpower : 10 ^ 10 ≤ 10 ^ x.scale := Nat.pow_le_pow_right (by decide) hle
  have hmul : 10 ^ x.scale ≤ n.natAbs * 10 ^ x.scale :=
    Nat.le_mul_of_pos_left _ (Int.natAbs_pos.2 hn)
  have hlt : x.coefficient < wordSize := of_decide_eq_true hshort
  rw [(denotes_iff.1 h).2] at hlt
  simp only [wordSize] at hlt
  omega

/-- Products are exact. -/
theorem mul?_denotes (hx : x.Denotes m) (hy : y.Denotes n) (hfits : (m * n).natAbs < capacity) :
    ∃ d, x.mul? y = some d ∧ d.Denotes (m * n) := by
  have hproduct : signed (x.negative != y.negative) (x.coefficient * y.coefficient) =
      m * n * 10 ^ (x.scale + y.scale) := by
    rw [signed_mul_signed, denotes_iff_signed.1 hx, denotes_iff_signed.1 hy, Int.pow_add]
    ac_rfl
  obtain ⟨d, hfit, hd⟩ := fit_denotes hproduct hfits
  have hsign := (signed_eq_mul_iff.1 hproduct).1
  unfold mul?
  split
  · next hzero =>
    refine ⟨zero, rfl, ?_⟩
    rw [Bool.or_eq_true, hx.isZero_iff, hy.isZero_iff] at hzero
    rcases hzero with rfl | rfl
    · rw [Int.zero_mul]
      exact zero_denotes
    · rw [Int.mul_zero]
      exact zero_denotes
  · next hzero =>
    rw [Bool.or_eq_true, hx.isZero_iff, hy.isZero_iff, not_or] at hzero
    split
    · next hshort =>
      -- both scales are small, so that the product does not lie beyond the largest scale
      rw [Bool.and_eq_true] at hshort
      have hxscale := hx.scale_lt_ten hzero.1 hshort.1
      have hyscale := hy.scale_lt_ten hzero.2 hshort.2
      rw [if_neg (by simp only [maxScale]; omega)]
      exact ⟨d, hfit, hd⟩
    · simp only [hfit, Option.map_some]
      exact ⟨_, rfl, denotes_iff.2 ⟨hsign, (denotes_iff.1 hd).2⟩⟩

/-- Remainders by a divisor of at most two words are exact, where there are no digits after the
point. -/
theorem rem?_denotes (hx : x.Denotes m) (hy : y.Denotes n) (hxscale : x.scale = 0)
    (hyscale : y.scale = 0) (hshort : n.natAbs < wordSize ^ 2) :
    ∃ d, x.rem? y = some d ∧ d.Denotes (m.tmod n) := by
  obtain ⟨hsign, hcoefficient⟩ := denotes_iff.1 hx
  have hremainder := signed_tmod hsign n
  unfold rem?
  split
  · next hzero =>
    rw [hx.isZero_iff.1 hzero, Int.zero_tmod]
    exact ⟨zero, rfl, zero_denotes⟩
  · rw [compare_of_denotes hx.abs hy.abs]
    split
    · next hlt =>
      have hlt : m.natAbs < n.natAbs := Int.ofNat_lt.1 (Int.compare_eq_lt.1 hlt)
      rw [Nat.mod_eq_of_lt hlt, hsign] at hremainder
      rw [← hremainder]
      exact ⟨x, rfl, hx⟩
    · next heq =>
      have heq : m.natAbs = n.natAbs := Int.ofNat_inj.1 (Std.compare_eq_iff_eq.1 heq)
      rw [heq, Nat.mod_self] at hremainder
      rw [← hremainder]
      refine ⟨zero, rfl, ?_⟩
      cases x.negative <;> exact zero_denotes
    · have hmagnitude : (x.signedAt (max x.scale y.scale)).natAbs = m.natAbs ∧
          (y.signedAt (max x.scale y.scale)).natAbs = n.natAbs := by
        rw [hx.signedAt (Nat.le_max_left _ _), hy.signedAt (Nat.le_max_right _ _)]
        simp [hxscale, hyscale]
      simp only [hmagnitude, wideRemainder_eq_mod hshort]
      obtain ⟨d, hd⟩ := exists_ofParts? x.negative
        (Nat.lt_of_le_of_lt (Nat.mod_le m.natAbs n.natAbs) hx.natAbs_lt)
        (show max x.scale y.scale ≤ maxScale by simp [hxscale, hyscale])
      refine ⟨d, hd, ofParts?_denotes ?_ hd⟩
      rw [hremainder]
      simp [hxscale, hyscale]

end Decimal

/-! ## Operators -/

/-- The value denotes the integer: it is a word, or a decimal with at most so many digits after the
point. -/
inductive Value.Denotes (places : Nat) : Value → Int → Prop
  | integer (i : Int64) : Denotes places (.integer i) i.toInt
  | decimal {d : Decimal} {n : Int} (h : d.Denotes n) (hscale : d.scale ≤ places) :
    Denotes places (.decimal d) n

section Operators

variable {places : Nat} {a b : Int64} {v w : Value}

/-- The decimals that a decimal operand brings its partner to. -/
theorem promote?_of_denotes (hv : v.Denotes places a.toInt) (hw : w.Denotes places b.toInt) :
    (v = .integer a ∧ w = .integer b) ∨ ∃ x y : Decimal,
      promote? v w = some (.decimals x y) ∧ x.Denotes a.toInt ∧ y.Denotes b.toInt ∧
      x.scale ≤ places ∧ y.scale ≤ places := by
  generalize ha : a.toInt = m at hv ⊢
  generalize hb : b.toInt = n at hw ⊢
  cases hv with
  | integer i =>
      cases hw with
      | integer j => exact .inl ⟨by rw [Int64.toInt_inj.1 ha], by rw [Int64.toInt_inj.1 hb]⟩
      | decimal hy hyscale =>
          exact .inr ⟨_, _, rfl, Decimal.ofInt64_denotes i, hy, Nat.zero_le _, hyscale⟩
  | decimal hx hxscale =>
      cases hw with
      | integer j =>
          exact .inr ⟨_, _, rfl, hx, Decimal.ofInt64_denotes j, hxscale, Nat.zero_le _⟩
      | decimal hy hyscale => exact .inr ⟨_, _, rfl, hx, hy, hxscale, hyscale⟩

/-- The operators on two numbers are those on the numbers of a common sort. -/
theorem arithmetic_of_promote? {pair : NumberPair} (h : promote? v w = some pair) :
    v.add w = pair.add ∧ v.subtract w = pair.subtract ∧ v.multiply w = pair.multiply ∧
      v.modulo w = pair.modulo := by
  have hoperands (op : BinaryOp) : Value.numericOperands op v w = .ok pair := by
    rw [Value.numericOperands, h]
  have hstrings : (v.isString || w.isString) = false := by
    have hnumeric := promote?_isSome_iff.1 (Option.isSome_of_eq_some h)
    revert hnumeric
    cases v <;> cases w <;> simp [Value.isNumeric, Value.kind, Value.isString]
  simp [Value.add, Value.subtract, Value.multiply, Value.modulo, hstrings, hoperands, bind,
    Except.bind]

theorem Value.equals_of_promote? {pair : NumberPair} (h : promote? v w = some pair) :
    v.equals w = pair.equal := by
  cases v <;> cases w <;> simp_all [promote?, Value.equals]

theorem Value.order_of_promote? {pair : NumberPair} (h : promote? v w = some pair) :
    v.order w = .ok pair.order := by
  cases v <;> cases w <;> simp_all [promote?, Value.order]

/-- Whether a comparison holds of what stands in an order. -/
def BinaryOp.accepts : BinaryOp → Ordering → Bool
  | .equal, order => order.isEq
  | .notEqual, order => order.isNe
  | .less, order => order.isLT
  | .lessEqual, order => order.isLE
  | .greater, order => order.isGT
  | .greaterEqual, order => order.isGE
  | _, _ => false

/-- The comparisons. -/
def BinaryOp.comparisons : List BinaryOp :=
  [.equal, .notEqual, .less, .lessEqual, .greater, .greaterEqual]

theorem applyBinary_comparison {op : BinaryOp} {pair : NumberPair} {order : Ordering}
    (h : promote? v w = some pair) (hequal : pair.equal = order.isEq)
    (horder : pair.order = some order) (hop : op ∈ BinaryOp.comparisons) :
    applyBinary op v w = .ok (.boolean (op.accepts order)) := by
  have hne : order.isNe = !order.isEq := by cases order <;> rfl
  simp only [BinaryOp.comparisons, List.mem_cons, List.not_mem_nil, or_false] at hop
  rcases hop with rfl | rfl | rfl | rfl | rfl | rfl <;>
    simp [applyBinary, BinaryOp.accepts, Value.ordered, Value.equals_of_promote? h,
      Value.order_of_promote? h, hequal, horder, hne, bind, Except.bind]

/-- Words are compared as their integers are. -/
theorem NumberPair.compare_integers (a b : Int64) :
    (integers a b).equal = (compare a.toInt b.toInt).isEq ∧
      (integers a b).order = some (compare a.toInt b.toInt) := by
  refine ⟨?_, rfl⟩
  rw [Bool.eq_iff_iff, Ordering.isEq_iff_eq_eq, Std.compare_eq_iff_eq, Int64.toInt_inj]
  exact beq_iff_eq

/-- And so are decimals that denote them. -/
theorem NumberPair.compare_decimals {x y : Decimal} {m n : Int} (hx : x.Denotes m)
    (hy : y.Denotes n) :
    (decimals x y).equal = (compare m n).isEq ∧ (decimals x y).order = some (compare m n) := by
  rw [← Decimal.compare_of_denotes hx hy]
  refine ⟨?_, rfl⟩
  change (x.compare y == .eq) = _
  cases x.compare y <;> rfl

/-- A comparison makes the same of integers and of their decimals. -/
theorem applyBinary_comparison_of_denotes {op : BinaryOp} (hop : op ∈ BinaryOp.comparisons)
    (hv : v.Denotes places a.toInt) (hw : w.Denotes places b.toInt) :
    applyBinary op v w = .ok (.boolean (op.accepts (compare a.toInt b.toInt))) := by
  rcases promote?_of_denotes hv hw with ⟨rfl, rfl⟩ | ⟨x, y, hpair, hx, hy, -, -⟩
  · obtain ⟨hequal, horder⟩ := NumberPair.compare_integers a b
    exact applyBinary_comparison rfl hequal horder hop
  · obtain ⟨hequal, horder⟩ := NumberPair.compare_decimals hx hy
    exact applyBinary_comparison hpair hequal horder hop

/-- The integers among which the operators have results as on words. -/
theorem Decimal.natAbs_lt_of_int64 (c : Int64) : c.toInt.natAbs < capacity :=
  (ofInt64_denotes c).natAbs_lt

/-- A decimal equals the integer that it denotes. -/
theorem Value.equals_of_denotes {c : Int64} {d : Decimal} (h : d.Denotes c.toInt) :
    (Value.integer c).equals (.decimal d) = true := by
  rw [equals_of_promote? rfl, (NumberPair.compare_decimals (Decimal.ofInt64_denotes c) h).1]
  simp

theorem fitDecimal_of_denotes {op : BinaryOp} {result : Option Decimal} {c : Int64} {n : Int}
    (hc : c.toInt = n) (h : ∃ d, result = some d ∧ d.Denotes n) :
    ∃ d, fitDecimal op result = .ok (.decimal d) ∧ d.Denotes c.toInt := by
  obtain ⟨d, rfl, hd⟩ := h
  subst hc
  exact ⟨d, rfl, hd⟩

/-- The integer that an operator makes of words. -/
theorem toInt_of_fitInteger {op : BinaryOp} {n : Int} {c : Int64}
    (h : fitInteger op n = .ok (.integer c)) : c.toInt = n := by
  obtain ⟨i, hi, hc⟩ := fitInteger_eq_ok_iff.1 h
  cases hc
  exact int64?_eq_some_iff.1 hi

/-- The remainder of words, where there is one. -/
theorem toInt_of_modulo {c : Int64} (h : (NumberPair.integers a b).modulo = .ok (.integer c)) :
    b ≠ 0 ∧ c.toInt = a.toInt.tmod b.toInt := by
  rw [NumberPair.modulo] at h
  split at h
  · cases h
  · next hb =>
    split at h
    · cases h
    · exact ⟨hb, toInt_of_fitInteger h⟩

/-- The operators whose results on words are words. -/
def BinaryOp.exacts : List BinaryOp := [.add, .subtract, .multiply, .modulo]

/-- The result on decimals denotes the one on words. -/
theorem applyBinary_decimals_of_denotes {op : BinaryOp} {c : Int64} {x y : Decimal}
    (hop : op ∈ BinaryOp.exacts) (hwhole : op = .modulo → places = 0)
    (hc : applyBinary op (.integer a) (.integer b) = .ok (.integer c))
    (hpair : promote? v w = some (.decimals x y))
    (hx : x.Denotes a.toInt) (hy : y.Denotes b.toInt)
    (hxscale : x.scale ≤ places) (hyscale : y.scale ≤ places) :
    ∃ d, applyBinary op v w = .ok (.decimal d) ∧ d.Denotes c.toInt := by
  obtain ⟨hadd, hsubtract, hmultiply, hmodulo⟩ := arithmetic_of_promote? hpair
  have hfits := Decimal.natAbs_lt_of_int64 c
  simp only [BinaryOp.exacts, List.mem_cons, List.not_mem_nil, or_false] at hop
  rcases hop with rfl | rfl | rfl | rfl
  · have hsum := toInt_of_fitInteger hc
    rw [applyBinary, hadd]
    exact fitDecimal_of_denotes hsum (Decimal.add?_denotes hx hy (hsum ▸ hfits))
  · have hdifference := toInt_of_fitInteger hc
    rw [applyBinary, hsubtract]
    exact fitDecimal_of_denotes hdifference (Decimal.sub?_denotes hx hy (hdifference ▸ hfits))
  · have hproduct := toInt_of_fitInteger hc
    rw [applyBinary, hmultiply]
    exact fitDecimal_of_denotes hproduct (Decimal.mul?_denotes hx hy (hproduct ▸ hfits))
  · obtain ⟨hb, hremainder⟩ := toInt_of_modulo hc
    have hyzero : ¬y.isZero = true := fun h => hb (Int64.toInt_inj.1 (hy.isZero_iff.1 h))
    have hshort : b.toInt.natAbs < wordSize ^ 2 := by
      have hleast := b.le_toInt
      have hlargest := b.toInt_lt
      simp only [wordSize]
      omega
    rw [hwhole rfl] at hxscale hyscale
    rw [applyBinary, hmodulo, NumberPair.modulo, if_neg hyzero]
    exact fitDecimal_of_denotes hremainder (Decimal.rem?_denotes hx hy
      (Nat.le_zero.1 hxscale) (Nat.le_zero.1 hyscale) hshort)

/-- A remainder by zero is refused, whether by the word or by a decimal of any sign and scale. -/
theorem applyBinary_modulo_of_denotes_zero (hv : v.Denotes places a.toInt)
    (hw : w.Denotes places (0 : Int64).toInt) :
    applyBinary .modulo v w = .error .divisionByZero := by
  rcases promote?_of_denotes hv hw with ⟨rfl, rfl⟩ | ⟨x, y, hpair, -, hy, -, -⟩
  · rfl
  · have hmodulo := (arithmetic_of_promote? hpair).2.2.2
    rw [applyBinary, hmodulo, NumberPair.modulo, if_pos (hy.isZero_iff.2 rfl)]

end Operators

/-- **Words and their decimals make the same.**  Whatever sum, difference, product or remainder
words have, decimals in the place of one or both of them have one that denotes it and equals it; a
remainder by zero is refused as such for all four; and a comparison answers all four alike, as the
integers stand.  The decimals may have zeros after the point and a zero may have a sign; for
remainders they have no digits after the point, as those made of words have none. -/
theorem applyBinary_of_denotes (places : Nat) (a b : Int64) :
    (∀ op ∈ [BinaryOp.add, .subtract, .multiply, .modulo], (op = .modulo → places = 0) →
      ∀ c, applyBinary op (.integer a) (.integer b) = .ok (.integer c) →
      ∀ v w, v.Denotes places a.toInt → w.Denotes places b.toInt →
        v.kind = .decimal ∨ w.kind = .decimal →
        ∃ d, applyBinary op v w = .ok (.decimal d) ∧ d.Denotes c.toInt ∧
          (Value.integer c).equals (.decimal d) = true) ∧
    (b = 0 → ∀ v w, v.Denotes places a.toInt → w.Denotes places b.toInt →
      applyBinary .modulo v w = .error .divisionByZero) ∧
    (∀ op ∈ [BinaryOp.equal, .notEqual, .less, .lessEqual, .greater, .greaterEqual],
      ∀ v w, v.Denotes places a.toInt → w.Denotes places b.toInt →
        applyBinary op v w = .ok (.boolean (op.accepts (compare a.toInt b.toInt)))) := by
  refine ⟨fun op hop hwhole c hc v w hv hw hkind => ?_, ?_, fun op hop v w hv hw =>
    applyBinary_comparison_of_denotes hop hv hw⟩
  · rcases promote?_of_denotes hv hw with ⟨rfl, rfl⟩ | ⟨x, y, hpair, hx, hy, hxscale, hyscale⟩
    · exact absurd hkind (by simp [Value.kind])
    · obtain ⟨d, hd, hdenotes⟩ :=
        applyBinary_decimals_of_denotes hop hwhole hc hpair hx hy hxscale hyscale
      exact ⟨d, hd, hdenotes, Value.equals_of_denotes hdenotes⟩
  · rintro rfl v w hv hw
    exact applyBinary_modulo_of_denotes_zero hv hw

/-- A negative dividend keeps its sign as a decimal, a zero with a sign is no divisor, and it is
neither below nor above the word zero. -/
theorem applyBinary_of_denotes_negative :
    (∃ d, applyBinary .modulo (.decimal (.ofInt64 (-7))) (.integer 2) = .ok (.decimal d) ∧
      d.Denotes (-1 : Int64).toInt ∧ (Value.integer (-1)).equals (.decimal d) = true) ∧
    applyBinary .modulo (.integer (-7)) (.decimal (-.zero)) = .error .divisionByZero ∧
    applyBinary .less (.decimal (-.zero)) (.integer 0) = .ok (.boolean false) ∧
    applyBinary .lessEqual (.integer 0) (.decimal (-.zero)) = .ok (.boolean true) := by
  have hseven : (Value.decimal (.ofInt64 (-7))).Denotes 0 (-7 : Int64).toInt :=
    .decimal (Decimal.ofInt64_denotes (-7)) (Nat.zero_le 0)
  have hzero : (Value.decimal (-.zero)).Denotes 0 (0 : Int64).toInt :=
    .decimal Decimal.zero_denotes.neg (Nat.zero_le 0)
  refine ⟨?_, ?_, ?_, ?_⟩
  · exact (applyBinary_of_denotes 0 (-7) 2).1 .modulo (by simp) (fun _ => rfl) (-1) rfl _ _ hseven
      (.integer 2) (.inl rfl)
  · exact (applyBinary_of_denotes 0 (-7) 0).2.1 rfl _ _ (.integer (-7)) hzero
  · exact (applyBinary_of_denotes 0 0 0).2.2 .less (by simp) _ _ hzero (.integer 0)
  · exact (applyBinary_of_denotes 0 0 0).2.2 .lessEqual (by simp) _ _ (.integer 0) hzero

end FormulaEngine
