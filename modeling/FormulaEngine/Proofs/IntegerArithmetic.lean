import FormulaEngine.Evaluation.BuiltinCall
import Mathlib.Tactic.Common

/-!
# Arithmetic of 64-bit integers

What the operators, the opposite and the absolute value make of 64-bit words, measured against the
results that they have among all integers.

* `int64?_eq_some_iff`, `int64?_eq_none_iff` -- the integers that fit into a word;
* `BinaryOp.Exact` -- the exact results of sums, differences, products and remainders;
* `BinaryOp.exact_modulo_iff` -- there is one remainder by a divisor other than zero;
* `int64?_tdiv_eq_none_iff` -- there is one quotient that does not fit;
* `applyBinary_integers` -- a result is exact, or it is refused, and when;
* `applyBinary_modulo_refused` -- one remainder is refused although it fits.
-/

namespace FormulaEngine

/-! ## Integers that fit -/

/-- An integer that fits is the value of its word. -/
theorem int64?_eq_some_iff {n : Int} {c : Int64} : int64? n = some c ↔ c.toInt = n := by
  have hleast := c.le_toInt
  have hlargest := c.toInt_lt
  unfold int64?
  rw [Int64.toInt_minValue, Int64.toInt_maxValue]
  constructor
  · intro h
    split at h
    · next hn =>
      cases h
      exact Int64.toInt_ofInt_of_le hn.1 (by omega)
    · exact nomatch h
  · intro h
    subst h
    rw [if_pos (by omega), Int64.ofInt_toInt]

/-- An integer does not fit exactly if it is the value of no word. -/
theorem int64?_eq_none_iff {n : Int} : int64? n = none ↔ ∀ c : Int64, c.toInt ≠ n := by
  rw [Option.eq_none_iff_forall_ne_some]
  exact forall_congr' fun c => not_congr int64?_eq_some_iff

/-- An integer that fits lies in the range of the words. -/
theorem int64?_eq_none_iff_range {n : Int} : int64? n = none ↔ n < -2 ^ 63 ∨ 2 ^ 63 ≤ n := by
  unfold int64?
  rw [Int64.toInt_minValue, Int64.toInt_maxValue]
  split
  · simp
    omega
  · simp
    omega

/-! ## Exact results -/

/-- The exact results of operators on integers.  A remainder is what some multiple of the divisor
leaves of the dividend: it is smaller than the divisor and has the sign of the dividend. -/
inductive BinaryOp.Exact : BinaryOp → Int → Int → Int → Prop
  | add (a b : Int) : Exact .add a b (a + b)
  | subtract (a b : Int) : Exact .subtract a b (a - b)
  | multiply (a b : Int) : Exact .multiply a b (a * b)
  | modulo {a b q r : Int} (hsum : a = b * q + r) (hsmall : r.natAbs < b.natAbs)
      (hsign : r = 0 ∨ r.sign = a.sign) : Exact .modulo a b r

/-- There is one remainder by a divisor other than zero, and none by zero. -/
theorem BinaryOp.exact_modulo_iff {a b r : Int} :
    Exact .modulo a b r ↔ b ≠ 0 ∧ r = a.tmod b := by
  constructor
  · intro h
    cases h with
    | @modulo _ _ q _ hsum hsmall hsign =>
      have hb : b ≠ 0 := by omega
      refine ⟨hb, ?_⟩
      rcases Int.le_total 0 a with ha | ha
      · have hr : 0 ≤ r := by
          rcases hsign with rfl | hsign
          · exact Int.le_refl 0
          · rw [← Int.sign_nonneg_iff, hsign]
            exact Int.sign_nonneg_iff.2 ha
        exact ((Int.tdiv_tmod_unique (q := q) ha hb).2 ⟨by omega, hr, by omega⟩).2.symm
      · have hr : r ≤ 0 := by
          rcases hsign with rfl | hsign
          · exact Int.le_refl 0
          · rw [← Int.sign_nonpos_iff, hsign]
            exact Int.sign_nonpos_iff.2 ha
        exact ((Int.tdiv_tmod_unique' (q := q) ha hb).2 ⟨by omega, by omega, hr⟩).2.symm
  · rintro ⟨hb, rfl⟩
    refine .modulo (Int.mul_tdiv_add_tmod a b).symm ?_ ?_
    · rw [Int.natAbs_tmod]
      exact Nat.mod_lt _ (Int.natAbs_pos.2 hb)
    · rw [← Int.sign_eq_zero_iff_zero, Int.sign_tmod]
      split
      · exact .inl rfl
      · exact .inr rfl

/-- A remainder by a word fits. -/
theorem BinaryOp.Exact.fits_modulo {a r : Int} {b : Int64} (h : Exact .modulo a b.toInt r) :
    ∃ c : Int64, c.toInt = r := by
  have hleast := b.le_toInt
  have hlargest := b.toInt_lt
  cases h with
  | modulo hsum hsmall hsign =>
    exact ⟨.ofInt r, Int64.toInt_ofInt_of_le (by omega) (by omega)⟩

/-- Of the quotients of words one does not fit: that of the least word by minus one. -/
theorem int64?_tdiv_eq_none_iff {a b : Int64} (hb : b ≠ 0) :
    int64? (a.toInt.tdiv b.toInt) = none ↔ a = .minValue ∧ b = -1 := by
  have hzero : b.toInt ≠ 0 := fun h => hb (Int64.toInt_inj.1 h)
  rw [← Int64.toInt_inj, ← Int64.toInt_inj, Int64.toInt_minValue, int64?_eq_none_iff_range]
  change _ ↔ _ ∧ b.toInt = -1
  constructor
  · intro h
    have ha := a.le_toInt
    have ha' := a.toInt_lt
    have hb := b.le_toInt
    have hb' := b.toInt_lt
    have hle := Int.natAbs_tdiv_le_natAbs a.toInt b.toInt
    have hsum := Int.mul_tdiv_add_tmod a.toInt b.toInt
    have hsmall : (a.toInt.tmod b.toInt).natAbs < b.toInt.natAbs := by
      rw [Int.natAbs_tmod]
      exact Nat.mod_lt _ (Int.natAbs_pos.2 hzero)
    -- no quotient is larger than its dividend, so that this one is 2 ^ 63
    have hquotient : a.toInt.tdiv b.toInt = 2 ^ 63 := by omega
    rw [hquotient] at hsum
    omega
  · rintro ⟨ha, hb⟩
    rw [ha, hb]
    decide

/-! ## Outcomes -/

/-- An outcome is an integer, or an overflow if no word has it. -/
structure ExactOrOverflow (site : OverflowSite) (n : Int) (outcome : Except EvalError Value) :
    Prop where
  ok_iff : ∀ v, outcome = .ok v ↔ ∃ c : Int64, v = .integer c ∧ c.toInt = n
  error_iff : ∀ err, outcome = .error err ↔ err = .overflow site ∧ ∀ c : Int64, c.toInt ≠ n

/-- To fit an integer is to find its word, or to overflow. -/
theorem exactOrOverflow_of_int64? (site : OverflowSite) (n : Int) :
    ExactOrOverflow site n (match int64? n with
      | some c => .ok (.integer c)
      | none => .error (.overflow site)) := by
  cases hfit : int64? n with
  | some c =>
      have hc := int64?_eq_some_iff.1 hfit
      constructor
      · intro v
        constructor
        · intro h
          cases h
          exact ⟨c, rfl, hc⟩
        · rintro ⟨d, rfl, hd⟩
          rw [Int64.toInt_inj.1 (hc.trans hd.symm)]
      · intro err
        constructor
        · intro h
          exact nomatch h
        · rintro ⟨-, hnone⟩
          exact absurd hc (hnone c)
  | none =>
      have hnone := int64?_eq_none_iff.1 hfit
      constructor
      · intro v
        constructor
        · intro h
          exact nomatch h
        · rintro ⟨d, -, hd⟩
          exact absurd hd (hnone d)
      · intro err
        constructor
        · intro h
          cases h
          exact ⟨rfl, hnone⟩
        · rintro ⟨rfl, -⟩
          rfl

/-- Sums, differences and products have one exact result each, and the outcome is that or an
overflow. -/
theorem BinaryOp.Exact.outcome {op : BinaryOp} {a b : Int64} {n : Int}
    (h : op.Exact a.toInt b.toInt n) (hop : op ≠ .modulo) :
    ExactOrOverflow (.operator op) n (applyBinary op (.integer a) (.integer b)) := by
  generalize hx : a.toInt = x at h
  generalize hy : b.toInt = y at h
  cases h with
  | modulo => exact absurd rfl hop
  | _ =>
      subst hx hy
      exact exactOrOverflow_of_int64? _ _

/-- By zero there is no remainder. -/
theorem applyBinary_modulo_zero (a : Int64) :
    applyBinary .modulo (.integer a) (.integer 0) = .error .divisionByZero := rfl

/-- A remainder is refused where the quotient does not fit. -/
theorem applyBinary_modulo_minimum :
    applyBinary .modulo (.integer .minValue) (.integer (-1)) =
      .error (.overflow (.operator .modulo)) := rfl

/-- Any other remainder is exact. -/
theorem applyBinary_modulo_eq {a b c : Int64} (hquotient : ¬(a = .minValue ∧ b = -1))
    (h : BinaryOp.Exact .modulo a.toInt b.toInt c.toInt) :
    applyBinary .modulo (.integer a) (.integer b) = .ok (.integer c) := by
  obtain ⟨hzero, hc⟩ := BinaryOp.exact_modulo_iff.1 h
  have hb : b ≠ 0 := fun h => hzero (h ▸ rfl)
  have hfits : ¬(int64? (a.toInt.tdiv b.toInt)).isNone = true := by
    rwa [Option.isNone_iff_eq_none, int64?_tdiv_eq_none_iff hb]
  change NumberPair.modulo (.integers a b) = _
  rw [NumberPair.modulo, if_neg hb, if_neg hfits]
  exact fitInteger_eq_ok_iff.2 ⟨c, int64?_eq_some_iff.2 hc, rfl⟩

/-! ## All of them -/

/-- Whether an operator asks for a remainder whose quotient does not fit. -/
def BinaryOp.LacksQuotient (op : BinaryOp) (a b : Int64) : Prop :=
  op = .modulo ∧ a = .minValue ∧ b = -1

/-- The outcome of an operator on words: when it is a value, and when it is which refusal. -/
structure BinaryOp.ExactOrRefused (op : BinaryOp) (a b : Int64)
    (outcome : Except EvalError Value) : Prop where
  ok_iff : ∀ v, outcome = .ok v ↔
    ∃ c : Int64, v = .integer c ∧ op.Exact a.toInt b.toInt c.toInt ∧ ¬op.LacksQuotient a b
  zero_iff : outcome = .error .divisionByZero ↔ op = .modulo ∧ b = 0
  overflow_iff : ∀ site, outcome = .error (.overflow site) ↔ site = .operator op ∧
    ((∃ n, op.Exact a.toInt b.toInt n ∧ ∀ c : Int64, c.toInt ≠ n) ∨ op.LacksQuotient a b)
  refusal : ∀ err, outcome = .error err → err = .divisionByZero ∨ err = .overflow (.operator op)

section Outcomes

variable {op : BinaryOp} {a b : Int64}

/-- There is at most one exact result. -/
theorem BinaryOp.Exact.unique {a b m n : Int} (hm : op.Exact a b m) (hn : op.Exact a b n) :
    m = n := by
  by_cases hop : op = .modulo
  · subst hop
    exact (exact_modulo_iff.1 hm).2.trans (exact_modulo_iff.1 hn).2.symm
  · cases hm with
    | modulo => exact absurd rfl hop
    | _ =>
        cases hn
        rfl

/-- With an exact result the divisor is not zero. -/
theorem BinaryOp.Exact.not_zero {n : Int} (h : op.Exact a.toInt b.toInt n) :
    ¬(op = .modulo ∧ b = 0) := by
  rintro ⟨rfl, rfl⟩
  exact (exact_modulo_iff.1 h).1 rfl

theorem BinaryOp.LacksQuotient.not_zero (h : op.LacksQuotient a b) : ¬(op = .modulo ∧ b = 0) := by
  rintro ⟨-, rfl⟩
  exact absurd h.2.2 (by decide)

theorem BinaryOp.exactOrRefused_of_exact {c : Int64} (h : op.Exact a.toInt b.toInt c.toInt)
    (hquotient : ¬op.LacksQuotient a b) : op.ExactOrRefused a b (.ok (.integer c)) where
  ok_iff v := by
    constructor
    · intro hv
      cases hv
      exact ⟨c, rfl, h, hquotient⟩
    · rintro ⟨d, rfl, hd, -⟩
      rw [Int64.toInt_inj.1 (h.unique hd)]
  zero_iff := ⟨nofun, fun hzero => absurd hzero h.not_zero⟩
  overflow_iff site := by
    refine ⟨nofun, ?_⟩
    rintro ⟨-, ⟨n, hn, hnone⟩ | hlacks⟩
    · exact absurd (h.unique hn) (hnone c)
    · exact absurd hlacks hquotient
  refusal := nofun

theorem BinaryOp.exactOrRefused_of_zero :
    BinaryOp.ExactOrRefused .modulo a 0 (.error .divisionByZero) where
  ok_iff v := ⟨nofun, fun ⟨_, _, hc, _⟩ => absurd ⟨rfl, rfl⟩ hc.not_zero⟩
  zero_iff := ⟨fun _ => ⟨rfl, rfl⟩, fun _ => rfl⟩
  overflow_iff site := by
    refine ⟨nofun, ?_⟩
    rintro ⟨-, ⟨n, hn, -⟩ | hlacks⟩
    · exact absurd ⟨rfl, rfl⟩ hn.not_zero
    · exact absurd ⟨rfl, rfl⟩ hlacks.not_zero
  refusal err h := .inl (Except.error.inj h).symm

theorem BinaryOp.exactOrRefused_of_unfit
    (h : (∃ n, op.Exact a.toInt b.toInt n ∧ ∀ c : Int64, c.toInt ≠ n) ∨ op.LacksQuotient a b) :
    op.ExactOrRefused a b (.error (.overflow (.operator op))) where
  ok_iff v := by
    refine ⟨nofun, ?_⟩
    rintro ⟨c, -, hc, hquotient⟩
    rcases h with ⟨n, hn, hnone⟩ | hlacks
    · exact absurd (hc.unique hn) (hnone c)
    · exact absurd hlacks hquotient
  zero_iff := by
    refine ⟨nofun, fun hzero => ?_⟩
    rcases h with ⟨n, hn, -⟩ | hlacks
    · exact absurd hzero hn.not_zero
    · exact absurd hzero hlacks.not_zero
  overflow_iff site := by
    constructor
    · intro herr
      cases herr
      exact ⟨rfl, h⟩
    · rintro ⟨rfl, -⟩
      rfl
  refusal err herr := .inr (Except.error.inj herr).symm

/-- Remainders are exact or refused. -/
theorem exactOrRefused_modulo (a b : Int64) :
    BinaryOp.ExactOrRefused .modulo a b (applyBinary .modulo (.integer a) (.integer b)) := by
  by_cases hb : b = 0
  · subst hb
    rw [applyBinary_modulo_zero]
    exact BinaryOp.exactOrRefused_of_zero
  · by_cases hquotient : a = .minValue ∧ b = -1
    · obtain ⟨rfl, rfl⟩ := hquotient
      rw [applyBinary_modulo_minimum]
      exact BinaryOp.exactOrRefused_of_unfit (.inr ⟨rfl, rfl, rfl⟩)
    · have hzero : b.toInt ≠ 0 := fun h => hb (Int64.toInt_inj.1 h)
      have hexact : BinaryOp.Exact .modulo a.toInt b.toInt (a.toInt.tmod b.toInt) :=
        BinaryOp.exact_modulo_iff.2 ⟨hzero, rfl⟩
      obtain ⟨c, hc⟩ := hexact.fits_modulo
      rw [← hc] at hexact
      rw [applyBinary_modulo_eq hquotient hexact]
      exact BinaryOp.exactOrRefused_of_exact hexact fun h => hquotient h.2

/-- Sums, differences and products are exact or refused. -/
theorem BinaryOp.Exact.exactOrRefused {n : Int} (h : op.Exact a.toInt b.toInt n)
    (hop : op ≠ .modulo) : op.ExactOrRefused a b (applyBinary op (.integer a) (.integer b)) := by
  have houtcome := h.outcome hop
  cases hfit : int64? n with
  | some c =>
      have hc := int64?_eq_some_iff.1 hfit
      rw [(houtcome.ok_iff _).2 ⟨c, rfl, hc⟩]
      exact exactOrRefused_of_exact (hc ▸ h) fun hlacks => hop hlacks.1
  | none =>
      have hnone := int64?_eq_none_iff.1 hfit
      rw [(houtcome.error_iff _).2 ⟨rfl, hnone⟩]
      exact exactOrRefused_of_unfit (.inl ⟨n, h, hnone⟩)

end Outcomes

/-- **Arithmetic of words is exact, or it is refused.**  A sum, a difference, a product or a
remainder is the exact one if that fits, a remainder by zero is refused as such, and the outcome is
an overflow exactly if the exact result does not fit, or if it is the one remainder whose quotient
does not fit.  Opposites and absolute values are exact, or they overflow where the exact ones do not
fit. -/
theorem applyBinary_integers (a b : Int64) :
    (∀ op ∈ [BinaryOp.add, .subtract, .multiply, .modulo],
      op.ExactOrRefused a b (applyBinary op (.integer a) (.integer b))) ∧
    ExactOrOverflow .negation (-a.toInt) (applyUnary .negate (.integer a)) ∧
    ∀ options, ExactOrOverflow .absolute a.toInt.natAbs
      (Builtin.abs.call options [.integer a]) := by
  refine ⟨fun op hop => ?_, exactOrOverflow_of_int64? _ _, fun options =>
    exactOrOverflow_of_int64? _ _⟩
  simp only [List.mem_cons, List.not_mem_nil, or_false] at hop
  rcases hop with rfl | rfl | rfl | rfl
  · exact (BinaryOp.Exact.add _ _).exactOrRefused nofun
  · exact (BinaryOp.Exact.subtract _ _).exactOrRefused nofun
  · exact (BinaryOp.Exact.multiply _ _).exactOrRefused nofun
  · exact exactOrRefused_modulo a b

/-- At the least word: its product by minus one and its remainder by minus one are refused, and so
are its opposite and its absolute value; its remainder by three has its sign. -/
theorem applyBinary_integers_least :
    applyBinary .multiply (.integer .minValue) (.integer (-1)) =
      .error (.overflow (.operator .multiply)) ∧
    applyBinary .modulo (.integer .minValue) (.integer (-1)) =
      .error (.overflow (.operator .modulo)) ∧
    applyUnary .negate (.integer .minValue) = .error (.overflow .negation) ∧
    Builtin.abs.call {} [.integer .minValue] = .error (.overflow .absolute) ∧
    applyBinary .modulo (.integer .minValue) (.integer 3) = .ok (.integer (-2)) := by
  obtain ⟨hops, hnegate, habsolute⟩ := applyBinary_integers .minValue (-1)
  have hunfit : ∀ c : Int64, c.toInt ≠ 2 ^ 63 := fun c => Int.ne_of_lt c.toInt_lt
  have hthree := (applyBinary_integers .minValue 3).1 .modulo (by simp)
  refine ⟨?_, ?_, ?_, ?_, ?_⟩
  · exact ((hops .multiply (by simp)).overflow_iff _).2
      ⟨rfl, .inl ⟨_, .multiply _ _, hunfit⟩⟩
  · exact ((hops .modulo (by simp)).overflow_iff _).2 ⟨rfl, .inr ⟨rfl, rfl, rfl⟩⟩
  · exact (hnegate.error_iff _).2 ⟨rfl, hunfit⟩
  · exact ((habsolute {}).error_iff _).2 ⟨rfl, hunfit⟩
  · refine (hthree.ok_iff _).2 ⟨-2, rfl, ?_, fun h => absurd h.2.2 (by decide)⟩
    exact BinaryOp.exact_modulo_iff.2 ⟨by decide, by decide⟩

/-- **One remainder is refused although it fits.**  By minus one the least word leaves zero, and the
remainder of the same decimals is zero; that of the words is an overflow. -/
theorem applyBinary_modulo_refused :
    BinaryOp.Exact .modulo Int64.minValue.toInt (-1 : Int64).toInt (0 : Int64).toInt ∧
    applyBinary .modulo (.decimal (.ofInt64 .minValue)) (.decimal (.ofInt64 (-1))) =
      .ok (.decimal .zero) ∧
    applyBinary .modulo (.integer .minValue) (.integer (-1)) =
      .error (.overflow (.operator .modulo)) := by
  refine ⟨BinaryOp.exact_modulo_iff.2 ⟨by decide, by decide⟩, ?_, rfl⟩
  rfl

end FormulaEngine
