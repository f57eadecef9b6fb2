import FormulaEngine.Evaluation.Operators
import FormulaEngine.Proofs.Outcome
import Mathlib.Data.Int.ModEq
import Mathlib.Data.Rat.Floor

/-!
# Bitwise operators and shifts

What the bitwise operators and the shifts make of 64-bit words, measured against the integers of the
words.  In two's complement a word has the bits of the residue of its integer modulo `2 ^ 64`.

* `bitOf`, `eq_of_bitOf` -- the bits of a word, which determine it;
* `BinaryOp.OnWords` -- the results of the operators: bit by bit, or by arithmetic of integers;
* `BinaryOp.onWordsOrOverflow` -- an outcome is that result, or an overflow, and when;
* `applyBinary_of_firstOther?` -- of the operands that are no integers the first one is named;
* `complement_and`, `xor_eq_and` -- complements and the other operators;
* `applyBinary_onWords` -- all of this, with the laws of complements.
-/

namespace FormulaEngine

/-! ## Bits -/

/-- The bits of a word in two's complement, the lowest first: the binary digits of the residue of
its integer. -/
def bitOf (a : Int64) (i : Nat) : Bool := (a.toInt % 2 ^ 64).toNat.testBit i

private theorem bmod_modEq (n : Int) : n.bmod (2 ^ 64) ≡ n [ZMOD 2 ^ 64] := by
  show n.bmod (2 ^ 64) % 2 ^ 64 = n % 2 ^ 64
  exact Int.bmod_emod

/-- The number behind the bits of a word has the residue of its integer. -/
private theorem toInt_modEq (a : Int64) : a.toInt ≡ a.toBitVec.toNat [ZMOD 2 ^ 64] := by
  rw [← Int64.toInt_toBitVec, BitVec.toInt_eq_toNat_bmod]
  exact bmod_modEq _

theorem bitOf_eq_getLsbD (a : Int64) (i : Nat) : bitOf a i = a.toBitVec.getLsbD i := by
  have hlt : a.toBitVec.toNat < 2 ^ 64 := a.toBitVec.isLt
  have hresidue : (a.toInt % 2 ^ 64).toNat = a.toBitVec.toNat := by
    rw [(toInt_modEq a).eq]
    omega
  rw [bitOf, hresidue]
  rfl

/-- Words with the same bits are the same. -/
theorem eq_of_bitOf {a b : Int64} (h : ∀ i < 64, bitOf a i = bitOf b i) : a = b := by
  apply Int64.toBitVec_inj.1
  apply BitVec.eq_of_getLsbD_eq
  intro i hi
  rw [← bitOf_eq_getLsbD, ← bitOf_eq_getLsbD, h i hi]

section Bits

variable (a b : Int64) (i : Nat)

theorem bitOf_and : bitOf (a &&& b) i = (bitOf a i && bitOf b i) := by
  simp only [bitOf_eq_getLsbD, Int64.toBitVec_and, BitVec.getLsbD_and]

theorem bitOf_or : bitOf (a ||| b) i = (bitOf a i || bitOf b i) := by
  simp only [bitOf_eq_getLsbD, Int64.toBitVec_or, BitVec.getLsbD_or]

theorem bitOf_xor : bitOf (a ^^^ b) i = (bitOf a i ^^ bitOf b i) := by
  simp only [bitOf_eq_getLsbD, Int64.toBitVec_xor, BitVec.getLsbD_xor]

theorem bitOf_not {i : Nat} (hi : i < 64) : bitOf (~~~a) i = !bitOf a i := by
  simp only [bitOf_eq_getLsbD, Int64.toBitVec_not, BitVec.getLsbD_not, hi, decide_true,
    Bool.true_and]

end Bits

/-- The complement of a word is the word below its opposite. -/
theorem toInt_complement (a : Int64) : (~~~a).toInt = -a.toInt - 1 := by
  have hleast := a.le_toInt
  have hlargest := a.toInt_lt
  rw [Int64.toInt_not]
  apply Int.bmod_eq_of_le
  · omega
  · omega

/-! ## Shifts -/

/-- A distance below 64 is taken as it is. -/
private theorem toNat_distance {b : Int64} {n : Nat} (hb : b.toInt = n) (hn : n ≤ 63) :
    (b.toBitVec.smod 64).toNat = n := by
  have hmod : (b.toBitVec.smod 64).toInt = n := by
    rw [BitVec.toInt_smod, Int64.toInt_toBitVec, hb]
    show (n : Int).fmod 64 = n
    rw [Int.fmod_eq_emod_of_nonneg _ (by decide)]
    exact Int.emod_eq_of_lt (by omega) (by omega)
  have hsign := BitVec.toInt_eq_toNat_cond (b.toBitVec.smod 64)
  split at hsign
  · omega
  · omega

/-- A shift to the left multiplies by a power of two, but for what no longer fits. -/
theorem toInt_shiftLeft_modEq (a : Int64) {b : Int64} {n : Nat} (hb : b.toInt = n) (hn : n ≤ 63) :
    (a <<< b).toInt ≡ a.toInt * 2 ^ n [ZMOD 2 ^ 64] := by
  have hshift : (a <<< b).toInt = ((a.toBitVec.toNat <<< n : Nat) : Int).bmod (2 ^ 64) := by
    rw [← Int64.toInt_toBitVec, Int64.toBitVec_shiftLeft]
    show (a.toBitVec <<< (b.toBitVec.smod 64).toNat).toInt = _
    rw [toNat_distance hb hn, BitVec.toInt_shiftLeft]
  have hproduct : ((a.toBitVec.toNat <<< n : Nat) : Int) = a.toBitVec.toNat * 2 ^ n := by
    rw [Nat.shiftLeft_eq]
    push_cast
    rfl
  calc (a <<< b).toInt
      = ((a.toBitVec.toNat : Int) * 2 ^ n).bmod (2 ^ 64) := by rw [hshift, hproduct]
    _ ≡ a.toBitVec.toNat * 2 ^ n [ZMOD 2 ^ 64] := bmod_modEq _
    _ ≡ a.toInt * 2 ^ n [ZMOD 2 ^ 64] := (toInt_modEq a).symm.mul_right _

/-- A shift to the right divides by a power of two and rounds down. -/
theorem toInt_shiftRight_eq_floor (a : Int64) {b : Int64} {n : Nat} (hb : b.toInt = n)
    (hn : n ≤ 63) : (a >>> b).toInt = ⌊(a.toInt : ℚ) / 2 ^ n⌋ := by
  have hshift : (a >>> b).toInt = a.toInt >>> n := by
    rw [← Int64.toInt_toBitVec, Int64.toBitVec_shiftRight]
    show (a.toBitVec.sshiftRight (b.toBitVec.smod 64).toNat).toInt = _
    rw [toNat_distance hb hn, BitVec.toInt_sshiftRight, Int64.toInt_toBitVec]
  have hfloor := Rat.floor_intCast_div_natCast a.toInt (2 ^ n)
  rw [hshift, Int.shiftRight_eq_div_pow, ← hfloor]
  push_cast
  rfl

/-- A distance is one below 64 exactly if it is that of some natural number. -/
private theorem isDistance_iff {b : Int64} :
    0 ≤ b ∧ b < 64 ↔ ∃ n : Nat, b.toInt = n ∧ n ≤ 63 := by
  rw [Int64.le_iff_toInt_le, Int64.lt_iff_toInt_lt]
  show 0 ≤ b.toInt ∧ b.toInt < 64 ↔ _
  constructor
  · intro h
    exact ⟨b.toInt.toNat, by omega, by omega⟩
  · rintro ⟨n, hb, hn⟩
    omega

/-! ## Results -/

/-- The bitwise operators, with the shifts. -/
def BinaryOp.bitwise : List BinaryOp := [bitAnd, bitOr, bitXor, shiftLeft, shiftRight]

/-- The operators that move bits. -/
def BinaryOp.shifts : List BinaryOp := [shiftLeft, shiftRight]

/-- The results of the bitwise operators and the shifts on words. -/
inductive BinaryOp.OnWords : BinaryOp → Int64 → Int64 → Int64 → Prop
  | bitAnd {a b c : Int64} (h : ∀ i < 64, bitOf c i = (bitOf a i && bitOf b i)) :
      OnWords .bitAnd a b c
  | bitOr {a b c : Int64} (h : ∀ i < 64, bitOf c i = (bitOf a i || bitOf b i)) :
      OnWords .bitOr a b c
  | bitXor {a b c : Int64} (h : ∀ i < 64, bitOf c i = (bitOf a i ^^ bitOf b i)) :
      OnWords .bitXor a b c
  | shiftLeft {a b c : Int64} {n : Nat} (hb : b.toInt = n) (hn : n ≤ 63)
      (h : c.toInt ≡ a.toInt * 2 ^ n [ZMOD 2 ^ 64]) : OnWords .shiftLeft a b c
  | shiftRight {a b c : Int64} {n : Nat} (hb : b.toInt = n) (hn : n ≤ 63)
      (h : c.toInt = ⌊(a.toInt : ℚ) / 2 ^ n⌋) : OnWords .shiftRight a b c

/-- Words with the same residue are the same. -/
private theorem eq_of_modEq {c d : Int64} (h : c.toInt ≡ d.toInt [ZMOD 2 ^ 64]) : c = d := by
  have hc := c.le_toInt
  have hc' := c.toInt_lt
  have hd := d.le_toInt
  have hd' := d.toInt_lt
  have hmod : c.toInt % 2 ^ 64 = d.toInt % 2 ^ 64 := h
  apply Int64.toInt_inj.1
  omega

/-- There is at most one result. -/
theorem BinaryOp.OnWords.unique {op : BinaryOp} {a b c d : Int64} (hc : op.OnWords a b c)
    (hd : op.OnWords a b d) : c = d := by
  cases hc with
  | bitAnd hc | bitOr hc | bitXor hc =>
      cases hd with
      | _ hd => exact eq_of_bitOf fun i hi => (hc i hi).trans (hd i hi).symm
  | shiftLeft hb hn hc =>
      cases hd with
      | shiftLeft hb' hn' hd =>
          obtain rfl := Int.ofNat_inj.1 (hb.symm.trans hb')
          exact eq_of_modEq (hc.trans hd.symm)
  | shiftRight hb hn hc =>
      cases hd with
      | shiftRight hb' hn' hd =>
          obtain rfl := Int.ofNat_inj.1 (hb.symm.trans hb')
          exact Int64.toInt_inj.1 (hc.trans hd.symm)

/-- The outcome of an operator on words: when it is a value, and when it is an overflow. -/
structure BinaryOp.OnWordsOrOverflow (op : BinaryOp) (a b : Int64)
    (outcome : Except EvalError Value) : Prop where
  ok_iff : ∀ v, outcome = .ok v ↔ ∃ c : Int64, v = .integer c ∧ op.OnWords a b c
  error_iff : ∀ err, outcome = .error err ↔
    err = .overflow (.operator op) ∧ op ∈ shifts ∧ ¬(0 ≤ b.toInt ∧ b.toInt ≤ 63)

section Outcomes

variable {op : BinaryOp} {a b : Int64}

theorem BinaryOp.OnWords.onWordsOrOverflow {c : Int64} (h : op.OnWords a b c) :
    op.OnWordsOrOverflow a b (.ok (.integer c)) where
  ok_iff v := by
    constructor
    · intro hv
      cases hv
      exact ⟨c, rfl, h⟩
    · rintro ⟨d, rfl, hd⟩
      rw [h.unique hd]
  error_iff err := by
    refine ⟨nofun, ?_⟩
    rintro ⟨-, hshift, hfar⟩
    cases h with
    | shiftLeft hb hn _ | shiftRight hb hn _ => omega
    | _ => exact absurd hshift (by decide)

/-- A shift by any other distance has no result. -/
theorem BinaryOp.onWordsOrOverflow_of_far (hop : op ∈ shifts)
    (hfar : ¬(0 ≤ b.toInt ∧ b.toInt ≤ 63)) :
    op.OnWordsOrOverflow a b (.error (.overflow (.operator op))) where
  ok_iff v := by
    refine ⟨nofun, ?_⟩
    rintro ⟨c, -, hc⟩
    cases hc with
    | shiftLeft hb hn _ | shiftRight hb hn _ => omega
    | _ => exact absurd hop (by decide)
  error_iff err := by
    constructor
    · intro herr
      cases herr
      exact ⟨rfl, hop, hfar⟩
    · rintro ⟨rfl, -, -⟩
      rfl

/-- Shifts are as they should be by the distances below 64, and overflow by the others. -/
theorem BinaryOp.onWordsOrOverflow_shift {f : Int64 → Int64 → Int64} (hop : op ∈ shifts)
    (h : ∀ n : Nat, b.toInt = n → n ≤ 63 → op.OnWords a b (f a b)) :
    op.OnWordsOrOverflow a b (Value.shift op f (.integer a) (.integer b)) := by
  by_cases hb : 0 ≤ b ∧ b < 64
  · obtain ⟨n, hn, hle⟩ := isDistance_iff.1 hb
    have hshift : Value.shift op f (.integer a) (.integer b) = .ok (.integer (f a b)) := if_pos hb
    rw [hshift]
    exact (h n hn hle).onWordsOrOverflow
  · rw [Value.shift_eq_overflow hb]
    apply onWordsOrOverflow_of_far hop
    intro hnear
    exact hb (isDistance_iff.2 ⟨b.toInt.toNat, by omega, by omega⟩)

/-- **An operator on words has its result, or it overflows.** -/
theorem BinaryOp.onWordsOrOverflow (hop : op ∈ bitwise) :
    op.OnWordsOrOverflow a b (applyBinary op (.integer a) (.integer b)) := by
  simp only [bitwise, List.mem_cons, List.not_mem_nil, or_false] at hop
  rcases hop with rfl | rfl | rfl | rfl | rfl
  · exact (OnWords.bitAnd fun i _ => bitOf_and a b i).onWordsOrOverflow
  · exact (OnWords.bitOr fun i _ => bitOf_or a b i).onWordsOrOverflow
  · exact (OnWords.bitXor fun i _ => bitOf_xor a b i).onWordsOrOverflow
  · exact onWordsOrOverflow_shift (by decide) fun n hb hn =>
      .shiftLeft hb hn (toInt_shiftLeft_modEq a hb hn)
  · exact onWordsOrOverflow_shift (by decide) fun n hb hn =>
      .shiftRight hb hn (toInt_shiftRight_eq_floor a hb hn)

end Outcomes

/-! ## Other operands -/

/-- The first of two sorts that is not that of integers. -/
def firstOther? (j k : Kind) : Option Kind := [j, k].find? (· ≠ .integer)

private theorem integerOperands_of_firstOther? {op : BinaryOp} {u v : Value} {k : Kind}
    (h : firstOther? u.kind v.kind = some k) :
    Value.integerOperands op u v = .error (.typeMismatch (.integerOperands op) k) := by
  cases u with
  | integer a =>
      cases v with
      | integer b => cases h
      | _ => cases h; rfl
  | _ => cases h; rfl

/-- **An operand that is no integer is named**, the first one if neither is. -/
theorem applyBinary_of_firstOther? {op : BinaryOp} (hop : op ∈ BinaryOp.bitwise) {u v : Value}
    {k : Kind} (h : firstOther? u.kind v.kind = some k) :
    applyBinary op u v = .error (.typeMismatch (.integerOperands op) k) := by
  simp only [BinaryOp.bitwise, List.mem_cons, List.not_mem_nil, or_false] at hop
  rcases hop with rfl | rfl | rfl | rfl | rfl
  all_goals
    simp only [applyBinary, Value.bitwise, Value.shift, integerOperands_of_firstOther? h]
    rfl

theorem applyUnary_complement_of_kind {v : Value} (h : v.kind ≠ .integer) :
    applyUnary .complement v = .error (.typeMismatch (.integerOperand .complement) v.kind) := by
  cases v with
  | integer a => exact absurd rfl h
  | _ => rfl

/-! ## Complements -/

/-- What two words do not share is what either of them lacks. -/
theorem complement_and (a b : Int64) : ~~~(a &&& b) = ~~~a ||| ~~~b := by
  apply eq_of_bitOf
  intro i hi
  simp only [bitOf_and, bitOf_or, bitOf_not _ hi, Bool.not_and]

/-- Words differ where one of them has a bit and not both have it. -/
theorem xor_eq_and (a b : Int64) : a ^^^ b = (a ||| b) &&& ~~~(a &&& b) := by
  apply eq_of_bitOf
  intro i hi
  simp only [bitOf_and, bitOf_or, bitOf_xor, bitOf_not _ hi]
  cases bitOf a i <;> cases bitOf b i <;> rfl

/-- What complements have to do with the other operators on two values. -/
structure ComplementLaws (a b : Value) : Prop where
  complement_and :
    (do
      let both ← applyBinary .bitAnd a b
      applyUnary .complement both) =
    (do
      let notA ← applyUnary .complement a
      let notB ← applyUnary .complement b
      applyBinary .bitOr notA notB)
  xor_eq_and :
    applyBinary .bitXor a b =
    (do
      let either ← applyBinary .bitOr a b
      let both ← applyBinary .bitAnd a b
      let notBoth ← applyUnary .complement both
      applyBinary .bitAnd either notBoth)

theorem complementLaws (a b : Int64) : ComplementLaws (.integer a) (.integer b) where
  complement_and := congrArg (Except.ok ∘ Value.integer) (complement_and a b)
  xor_eq_and := congrArg (Except.ok ∘ Value.integer) (xor_eq_and a b)

/-- **Bitwise operators and shifts follow two's complement.**  The operators act bit by bit.  A
shift to the left by at most 63 places gives the one word that is congruent to the product by the
power of two, and a shift to the right the quotient by it, rounded down; a shift by any other
distance overflows.  The complement of a word is the word below its opposite, and the laws of
complements hold.  An operand that is no integer is refused, and the refusal names the sort of the
first one. -/
theorem applyBinary_onWords :
    (∀ op ∈ BinaryOp.bitwise, ∀ a b : Int64,
      op.OnWordsOrOverflow a b (applyBinary op (.integer a) (.integer b))) ∧
    (∀ a : Int64, ∃ c : Int64, applyUnary .complement (.integer a) = .ok (.integer c) ∧
      (∀ i < 64, bitOf c i = !bitOf a i) ∧ c.toInt = -a.toInt - 1) ∧
    (∀ a b : Int64, ComplementLaws (.integer a) (.integer b)) ∧
    (∀ op ∈ BinaryOp.bitwise, ∀ (u v : Value) (k : Kind), firstOther? u.kind v.kind = some k →
      applyBinary op u v = .error (.typeMismatch (.integerOperands op) k)) ∧
    (∀ v : Value, v.kind ≠ .integer →
      applyUnary .complement v = .error (.typeMismatch (.integerOperand .complement) v.kind)) := by
  refine ⟨fun op hop a b => BinaryOp.onWordsOrOverflow hop, fun a => ?_, complementLaws,
    fun op hop u v k => applyBinary_of_firstOther? hop, fun v => applyUnary_complement_of_kind⟩
  exact ⟨~~~a, rfl, fun i hi => bitOf_not a hi, toInt_complement a⟩

/-- The lowest bit is shifted into the sign, and no further; a negative quotient is rounded down;
of two operands that are no integers the first one is named. -/
theorem applyBinary_onWords_edges :
    (BinaryOp.shiftLeft ∈ BinaryOp.bitwise ∧ BinaryOp.shiftRight ∈ BinaryOp.bitwise ∧
      firstOther? Kind.integer Kind.float = some Kind.float ∧
      firstOther? Kind.string Kind.list = some Kind.string ∧ Kind.boolean ≠ Kind.integer) ∧
    applyBinary .shiftLeft (.integer 3) (.integer 63) = .ok (.integer .minValue) ∧
    applyBinary .shiftLeft (.integer 3) (.integer 64) = .error (.overflow (.operator .shiftLeft)) ∧
    applyBinary .shiftRight (.integer (-5)) (.integer 1) = .ok (.integer (-3)) ∧
    applyBinary .shiftRight (.integer (-5)) (.integer (-1)) =
      .error (.overflow (.operator .shiftRight)) ∧
    applyBinary .shiftLeft (.integer 1) (.float 1) =
      .error (.typeMismatch (.integerOperands .shiftLeft) .float) ∧
    applyBinary .shiftRight (.string "1") (.list []) =
      .error (.typeMismatch (.integerOperands .shiftRight) .string) ∧
    applyUnary .complement (.boolean true) =
      .error (.typeMismatch (.integerOperand .complement) .boolean) := by
  obtain ⟨hwords, -, -, hbinary, hunary⟩ := applyBinary_onWords
  have hleft : BinaryOp.shiftLeft ∈ BinaryOp.bitwise := by decide
  have hright : BinaryOp.shiftRight ∈ BinaryOp.bitwise := by decide
  refine ⟨⟨hleft, hright, rfl, rfl, by decide⟩, ?_, ?_, ?_, ?_, hbinary _ hleft _ _ _ rfl,
    hbinary _ hright _ _ _ rfl, hunary (.boolean true) (by decide)⟩
  · exact ((hwords _ hleft _ _).ok_iff _).2
      ⟨_, rfl, .shiftLeft (n := 63) (by decide) (by decide) (by decide)⟩
  · exact ((hwords _ hleft _ _).error_iff _).2 ⟨rfl, by decide, by decide⟩
  · refine ((hwords _ hright _ _).ok_iff _).2
      ⟨_, rfl, .shiftRight (n := 1) (by decide) (by decide) ?_⟩
    show (-3 : Int) = ⌊((-5 : Int) : ℚ) / 2 ^ 1⌋
    norm_num
  · exact ((hwords _ hright _ _).error_iff _).2 ⟨rfl, by decide, by decide⟩

end FormulaEngine
