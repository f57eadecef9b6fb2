import FormulaEngine.Proofs.Numerals
import FormulaEngine.Proofs.Rendering

/-!
# The texts of floats

In a formula the text of a float is one numeral, unless the float is negative or not finite.  Then
it begins with an operator, or it is a word.

* `isNumeral_decimalChars` -- digits in the layout of formulas are a numeral as a whole;
* `Literal.float_chars_cases` -- the three forms of the text of a float;
* `Literal.head_carve_float` -- the tokens that each of them holds.
-/

namespace FormulaEngine

/-- Some characters are one numeral as a whole, which begins with a digit. -/
def IsNumeral (cs : List Char) : Prop :=
  (∃ c rest, cs = c :: rest ∧ c.isDigit = true) ∧ ∃ n, Numeral.scan cs = (n, [])

private theorem digits_digitsOf (n : Nat) : Digits (digitsOf n) :=
  ⟨Nat.toDigits_ne_nil, fun _ => isDigit_of_mem_digitsOf⟩

section Scans

variable {whole digits rest : List Char} {m : Char}

private theorem Digits.cons (h : Digits whole) :
    ∃ c rest, whole = c :: rest ∧ c.isDigit = true := by
  obtain ⟨c, cs, rfl⟩ := List.exists_cons_of_ne_nil h.ne_nil
  exact ⟨c, cs, rfl, h.isDigit c (List.mem_cons_self ..)⟩

private theorem Digits.takeWhile (h : Digits whole) :
    whole.takeWhile Char.isDigit = whole :=
  List.takeWhile_eq_self_iff.2 h.isDigit

private theorem Digits.dropWhile (h : Digits whole) : whole.dropWhile Char.isDigit = [] :=
  List.dropWhile_eq_nil_iff.2 h.isDigit

private theorem Digits.takeWhile_cons (h : Digits whole) (hm : m.isDigit = false) :
    (whole ++ m :: rest).takeWhile Char.isDigit = whole := by
  rw [List.takeWhile_append_of_pos h.isDigit, List.takeWhile_cons_of_neg (by simp [hm]),
    List.append_nil]

private theorem Digits.dropWhile_cons (h : Digits whole) (hm : m.isDigit = false) :
    (whole ++ m :: rest).dropWhile Char.isDigit = m :: rest := by
  rw [List.dropWhile_append_of_pos h.isDigit, List.dropWhile_cons_of_neg (by simp [hm])]

private theorem scanFraction_digits (h : Digits digits) :
    Numeral.scanFraction ('.' :: digits) = (digits, []) := by
  obtain ⟨c, cs, rfl, _⟩ := h.cons
  simp only [Numeral.scanFraction, h.takeWhile, h.dropWhile]

private theorem scanFraction_digits_cons (h : Digits digits) (hm : m.isDigit = false) :
    Numeral.scanFraction ('.' :: (digits ++ m :: rest)) = (digits, m :: rest) := by
  obtain ⟨c, cs, rfl, _⟩ := h.cons
  simp only [Numeral.scanFraction, h.takeWhile_cons hm, h.dropWhile_cons hm]

/-- An exponent is read as a whole, with its sign or without one. -/
private theorem scanExponent_intDigits (i : Int) :
    ∃ part, Numeral.scanExponent ('e' :: intDigits i) = (some part, []) := by
  have hdigits := digits_digitsOf i.natAbs
  obtain ⟨c, cs, hcs, hc⟩ := hdigits.cons
  have hbody : ∃ sign, Numeral.scanSign (intDigits i) = (sign, digitsOf i.natAbs) := by
    unfold intDigits
    split
    · exact ⟨['-'], rfl⟩
    · exact ⟨[], by simpa using Numeral.scanSign_digits (.inl rfl) hdigits []⟩
  obtain ⟨sign, hsign⟩ := hbody
  refine ⟨⟨'e', sign, digitsOf i.natAbs⟩, ?_⟩
  simp only [Numeral.scanExponent, true_or, if_true, hsign, hdigits.takeWhile, hdigits.dropWhile]
  rw [hcs]

end Scans

private theorem isNumeral_of_scan {whole cs : List Char} {n : Numeral} (h : Digits whole)
    (hscan : Numeral.scan (whole ++ cs) = (n, [])) : IsNumeral (whole ++ cs) := by
  obtain ⟨c, rest, rfl, hc⟩ := h.cons
  exact ⟨⟨c, rest ++ cs, rfl, hc⟩, n, hscan⟩

/-- Digits, a point and digits. -/
private theorem isNumeral_point {whole fraction : List Char} (hw : Digits whole)
    (hf : Digits fraction) : IsNumeral (whole ++ '.' :: fraction) := by
  refine isNumeral_of_scan hw (n := ⟨whole, fraction, none⟩) ?_
  simp only [Numeral.scan, hw.takeWhile_cons (m := '.') rfl,
    hw.dropWhile_cons (m := '.') rfl, scanFraction_digits hf]
  rfl

/-- Digits, a point and digits or neither, and an exponent. -/
private theorem isNumeral_exponent {whole fraction : List Char} (hw : Digits whole)
    (hf : fraction = [] ∨ Digits fraction) (i : Int) :
    IsNumeral (whole ++ ((if fraction.isEmpty then [] else '.' :: fraction) ++
      'e' :: intDigits i)) := by
  obtain ⟨part, hpart⟩ := scanExponent_intDigits i
  refine isNumeral_of_scan hw (n := ⟨whole, fraction, some part⟩) ?_
  rcases hf with rfl | hf
  · simp only [List.isEmpty_nil, if_true, List.nil_append, Numeral.scan,
      hw.takeWhile_cons (m := 'e') rfl, hw.dropWhile_cons (m := 'e') rfl]
    have hnone : Numeral.scanFraction ('e' :: intDigits i) = ([], 'e' :: intDigits i) := rfl
    simp only [hnone, hpart]
  · have hempty : fraction.isEmpty = false := List.isEmpty_eq_false_iff.2 hf.ne_nil
    simp only [hempty, Bool.false_eq_true, if_false, List.cons_append, Numeral.scan,
      hw.takeWhile_cons (m := '.') rfl, hw.dropWhile_cons (m := '.') rfl,
      scanFraction_digits_cons hf (m := 'e') rfl, hpart]

/-! ## Layouts -/

private theorem digits_append_zeros {digits : List Char} (h : Digits digits) {count : Nat}
    (hc : 0 < count) :
    Digits (digits.take count ++ List.replicate (count - digits.length) '0') := by
  constructor
  · intro hnil
    have htake := (List.append_eq_nil_iff.1 hnil).1
    rcases List.take_eq_nil_iff.1 htake with h0 | h0
    · omega
    · exact h.ne_nil h0
  · intro c hmem
    rcases List.mem_append.1 hmem with hmem | hmem
    · exact h.isDigit c (List.mem_of_mem_take hmem)
    · rw [List.eq_of_mem_replicate hmem]
      rfl

private theorem Digits.drop {digits : List Char} (h : Digits digits) (count : Nat) :
    digits.drop count = [] ∨ Digits (digits.drop count) := by
  by_cases hnil : digits.drop count = []
  · exact Or.inl hnil
  · exact Or.inr ⟨hnil, fun c hc => h.isDigit c (List.mem_of_mem_drop hc)⟩

private theorem digits_zero : Digits ['0'] := ⟨by simp, by simp⟩

private theorem isNumeral_inPositions {digits : List Char} (h : Digits digits) (lead : Int) :
    IsNumeral (FloatLayout.literal.inPositions digits lead) := by
  unfold FloatLayout.inPositions
  split
  · refine isNumeral_point digits_zero ⟨by simp [h.ne_nil], fun c hc => ?_⟩
    rcases List.mem_append.1 hc with hc | hc
    · rw [List.eq_of_mem_replicate hc]
      rfl
    · exact h.isDigit c hc
  · have hwhole := digits_append_zeros h (Nat.succ_pos lead.toNat)
    dsimp only
    split
    · exact isNumeral_point hwhole digits_zero
    · next hne =>
      rcases h.drop (lead.toNat + 1) with hnil | hfraction
      · exact absurd hnil hne
      · exact isNumeral_point hwhole hfraction

private theorem isNumeral_withExponent {digits : List Char} (h : Digits digits) (lead : Int) :
    IsNumeral (FloatLayout.literal.withExponent digits lead) := by
  have hfirst : Digits (digits.take 1) := by
    have hzeros := digits_append_zeros h (Nat.succ_pos 0)
    have hlen := List.length_pos_iff.2 h.ne_nil
    have hnone : Nat.succ 0 - digits.length = 0 := by omega
    rwa [hnone, List.replicate_zero, List.append_nil] at hzeros
  simp only [FloatLayout.withExponent, FloatLayout.literal, Bool.false_and, Bool.false_eq_true,
    if_false, List.nil_append, List.append_assoc]
  exact isNumeral_exponent hfirst (h.drop 1) lead

/-- The digits of a decimal in the layout of formulas are one numeral. -/
theorem isNumeral_decimalChars (d : Scientific) :
    IsNumeral (FloatLayout.literal.decimalChars d) := by
  unfold FloatLayout.decimalChars
  dsimp only
  split
  · exact isNumeral_inPositions (digits_digitsOf d.coefficient) _
  · exact isNumeral_withExponent (digits_digitsOf d.coefficient) _

/-! ## Reading them -/

/-- In front of a break, a numeral is carved into one literal, or it holds a fault. -/
private theorem carve_of_isNumeral {cs rest : List Char} (h : IsNumeral cs)
    (hrest : StartsBroken rest) :
    carve (cs ++ rest) = none ∨ ∃ l, carve cs = some [.literal l] := by
  obtain ⟨⟨c, cs, rfl, hc⟩, n, hn⟩ := h
  have hlexeme : n.chars = c :: cs := by
    have := Numeral.chars_scan (c :: cs)
    rwa [hn, List.append_nil] at this
  have hscan : scanNumeral (c :: cs) = ⟨c :: cs, [], numeralMeaning n⟩ := by
    rw [scanNumeral, hn]
    simp only [hlexeme]
  cases hmeaning : numeralMeaning n with
  | error e =>
      refine Or.inl ?_
      rw [List.cons_append, carve_of_not_blank (isBlank_of_isDigit hc), scanRegion_of_isDigit hc,
        ← List.cons_append, scanNumeral_append hrest, hscan, hmeaning]
      rfl
  | ok t =>
      obtain ⟨l, rfl⟩ : ∃ l, t = .literal l := by
        unfold numeralMeaning at hmeaning
        split at hmeaning
        · exact ⟨_, (Except.ok.inj hmeaning).symm⟩
        · split at hmeaning
          · exact ⟨_, (Except.ok.inj hmeaning).symm⟩
          · cases hmeaning
      refine Or.inr ⟨l, ?_⟩
      rw [carve_of_scan (isBlank_of_isDigit hc)
        (by rw [scanRegion_of_isDigit hc, hscan, hmeaning]), carve_nil]
      rfl

/-- The text of a float is a word, or begins with a minus sign, or is a numeral. -/
theorem Literal.float_chars_cases (x : Float) :
    isBareName (float x).chars = true ∨ (∃ cs, (float x).chars = '-' :: cs) ∨
      IsNumeral (float x).chars := by
  unfold chars FloatLayout.chars
  dsimp only
  split
  · exact Or.inl (by decide)
  · split
    · exact Or.inr (Or.inl ⟨_, rfl⟩)
    · rw [List.nil_append]
      split
      · exact Or.inl (by decide)
      · split
        · have hzero : IsNumeral ['0', '.', '0'] := isNumeral_point digits_zero digits_zero
          exact Or.inr (Or.inr hzero)
        · exact Or.inr (Or.inr (isNumeral_decimalChars _))

/-- What the text of a float holds in front of a break, if it holds tokens: the first of them is a
name or a minus sign, or it is a literal, which is all that the text holds. -/
theorem Literal.head_carve_float {x : Float} {rest : List Char} {ts : List Token}
    (hrest : StartsBroken rest) (h : carve ((float x).chars ++ rest) = some ts) :
    (∃ name us, ts = .name name :: us) ∨ (∃ us, ts = .symbol .minus :: us) ∨
      ∃ l us, ts = .literal l :: us ∧ carve (float x).chars = some [.literal l] := by
  rcases float_chars_cases x with hname | ⟨cs, hminus⟩ | hnumeral
  · have hcarve : carve (float x).chars = some [.name (String.ofList (float x).chars)] := by
      have h := @carve_bareName (String.ofList (float x).chars)
      rw [String.toList_ofList] at h
      exact h hname
    rw [carve_append hcarve hrest] at h
    obtain ⟨us, _, rfl⟩ := Option.map_eq_some_iff.1 h
    exact Or.inl ⟨_, us, rfl⟩
  · rw [hminus, List.cons_append, carve_symbol rfl (fun _ _ => rfl) (by decide)] at h
    obtain ⟨us, _, rfl⟩ := Option.map_eq_some_iff.1 h
    exact Or.inr (Or.inl ⟨us, rfl⟩)
  · rcases carve_of_isNumeral hnumeral hrest with hnone | ⟨l, hl⟩
    · rw [hnone] at h
      cases h
    · rw [carve_append hl hrest] at h
      obtain ⟨us, _, rfl⟩ := Option.map_eq_some_iff.1 h
      exact Or.inr (Or.inr ⟨l, us, rfl, hl⟩)

end FormulaEngine
