import FormulaEngine.Proofs.IntegerArithmetic
import FormulaEngine.Proofs.Spelling

/-!
# Numerals

Where a numeral begins, a call for the next token takes the longest part of the text that has the
form

    digits* [ '.' digits+ ] [ ('e' | 'E') ['+' | '-'] digits+ ]

and answers by the parts of the form.

* `WrittenNumeral` -- the form, with what its parts say;
* `Numeral.exists_written` -- what is scanned has the form;
* `WrittenNumeral.isPrefix_scan` -- nothing longer has it;
* `WrittenNumeral.digitNext_of_point`, `WrittenNumeral.exponentNext_of_mark` -- a point and an
  exponent letter stand in front of their digits;
* `Tokenizer.next_numeral` -- the answer of a call.
-/

namespace FormulaEngine

/-! ## The form -/

/-- At least one digit, and nothing but digits. -/
structure Digits (cs : List Char) : Prop where
  ne_nil : cs ≠ []
  isDigit : ∀ c ∈ cs, c.isDigit = true

/-- The digits behind the point of a fraction, and the fraction as it is written, if there is
one. -/
inductive FractionForm : List Char → List Char → Prop
  | absent : FractionForm [] []
  | present {digits : List Char} (h : Digits digits) : FractionForm digits ('.' :: digits)

/-- The letters that begin an exponent. -/
def IsMark (c : Char) : Prop := c = 'e' ∨ c = 'E'

/-- At most one sign. -/
def IsSign (cs : List Char) : Prop := cs = [] ∨ cs = ['+'] ∨ cs = ['-']

/-- The power of ten that an exponent names, and the exponent as it is written, if there is one. -/
inductive ExponentForm : Int → List Char → Prop
  | absent : ExponentForm 0 []
  | present {mark : Char} {sign digits : List Char} (hmark : IsMark mark) (hsign : IsSign sign)
      (h : Digits digits) :
      ExponentForm (if sign = ['-'] then -(ofDigits digits : Int) else ofDigits digits)
        (mark :: (sign ++ digits))

/-- A numeral as it is written: digits, a fraction and an exponent, each of which may be absent. -/
structure WrittenNumeral where
  whole : List Char
  digits : List Char
  fraction : List Char
  power : Int
  exponent : List Char
  isDigit_whole : ∀ c ∈ whole, c.isDigit = true
  fraction_form : FractionForm digits fraction
  exponent_form : ExponentForm power exponent

namespace WrittenNumeral

/-- The characters of a numeral. -/
def chars (n : WrittenNumeral) : List Char := n.whole ++ (n.fraction ++ n.exponent)

/-- The decimal that a numeral denotes. -/
def decimal (n : WrittenNumeral) : Scientific :=
  ⟨ofDigits (n.whole ++ n.digits), n.power - n.digits.length⟩

end WrittenNumeral

/-- A digit comes next. -/
def DigitNext (cs : List Char) : Prop := ∃ d ∈ cs.head?, d.isDigit = true

/-- A digit comes next, or a sign and a digit. -/
def ExponentNext (cs : List Char) : Prop :=
  ∃ sign rest, cs = sign ++ rest ∧ IsSign sign ∧ DigitNext rest

/-! ## Letters and runs of digits -/

theorem IsMark.not_isDigit {mark : Char} (h : IsMark mark) : mark.isDigit = false := by
  rcases h with rfl | rfl <;> decide

theorem IsMark.ne_point {mark : Char} (h : IsMark mark) : mark ≠ '.' := by
  rcases h with rfl | rfl <;> decide

section Digits

variable {digits rest : List Char}

theorem Digits.digitNext (h : Digits digits) (rest : List Char) : DigitNext (digits ++ rest) := by
  obtain ⟨d, ds, rfl⟩ := List.exists_cons_of_ne_nil h.ne_nil
  exact ⟨d, rfl, h.isDigit d List.mem_cons_self⟩

/-- A run of digits is taken as a whole up to a character that is none. -/
theorem span_digits (h : ∀ c ∈ digits, c.isDigit = true)
    (hrest : ∀ c ∈ rest.head?, c.isDigit = false) :
    (digits ++ rest).takeWhile Char.isDigit = digits ∧
      (digits ++ rest).dropWhile Char.isDigit = rest := by
  rw [takeWhile_append_of_head hrest, dropWhile_append_of_head hrest,
    List.takeWhile_eq_self_iff.2 h, List.dropWhile_eq_nil_iff.2 h]
  exact ⟨rfl, rfl⟩

/-- At least the digits that come first are taken. -/
theorem length_le_takeWhile (h : ∀ c ∈ digits, c.isDigit = true) (rest : List Char) :
    digits.length ≤ ((digits ++ rest).takeWhile Char.isDigit).length := by
  rw [List.takeWhile_append_of_pos h, List.length_append]
  exact Nat.le_add_right _ _

end Digits

/-! ## What is scanned has the form -/

namespace Numeral

/-- An exponent is scanned as a letter, at most one sign, and digits. -/
theorem scanExponent_eq_some {cs : List Char} {e : ExponentPart}
    (h : (scanExponent cs).1 = some e) : IsMark e.mark ∧ IsSign e.sign ∧ Digits e.digits := by
  cases cs with
  | nil => cases h
  | cons mark rest =>
      simp only [scanExponent] at h
      split at h
      · next hmark =>
        split at h
        · cases h
        · next hne =>
          cases h
          refine ⟨hmark, ?_, fun hnil => hne hnil, fun c hc => List.mem_takeWhile_imp hc⟩
          unfold scanSign
          split
          · exact .inr (.inl rfl)
          · exact .inr (.inr rfl)
          · exact .inl rfl
      · cases h

theorem isDigit_scanFraction (cs : List Char) :
    ∀ c ∈ (scanFraction cs).1, c.isDigit = true := by
  intro c hc
  unfold scanFraction at hc
  split at hc
  · split at hc
    · cases hc
    · exact List.mem_takeWhile_imp hc
  · cases hc

/-- The digits of a fraction determine how it is written. -/
theorem fractionForm_iff {digits fraction : List Char} :
    FractionForm digits fraction ↔
      (∀ c ∈ digits, c.isDigit = true) ∧ fraction = fractionChars digits := by
  constructor
  · intro h
    cases h with
    | absent => exact ⟨by simp, rfl⟩
    | present h =>
        obtain ⟨d, ds, rfl⟩ := List.exists_cons_of_ne_nil h.ne_nil
        exact ⟨h.isDigit, rfl⟩
  · rintro ⟨h, rfl⟩
    cases digits with
    | nil => exact .absent
    | cons d ds => exact .present ⟨List.cons_ne_nil d ds, h⟩

/-- **What is scanned has the form of a numeral**, and denotes what its parts say. -/
theorem exists_written (cs : List Char) :
    ∃ n : WrittenNumeral, n.chars = (scan cs).1.chars ∧ n.whole = (scan cs).1.whole ∧
      n.decimal = (scan cs).1.value ∧
      ((scan cs).1.isFloat = true ↔ n.fraction ≠ [] ∨ n.exponent ≠ []) := by
  rcases hscan : (scan cs).1 with ⟨whole, fraction, exponent⟩
  have hwhole : ∀ c ∈ whole, c.isDigit = true := by
    intro c hc
    have heq : whole = cs.takeWhile Char.isDigit := (congrArg Numeral.whole hscan).symm
    rw [heq] at hc
    exact List.mem_takeWhile_imp hc
  have hfraction : FractionForm fraction (fractionChars fraction) := by
    have heq : fraction = (scanFraction (cs.dropWhile Char.isDigit)).1 :=
      (congrArg Numeral.fraction hscan).symm
    refine fractionForm_iff.2 ⟨fun c hc => ?_, rfl⟩
    rw [heq] at hc
    exact isDigit_scanFraction _ c hc
  have hpresent : fractionChars fraction ≠ [] ↔ fraction ≠ [] := by
    cases fraction <;> simp [fractionChars]
  have hexponent : (scanExponent (scanFraction (cs.dropWhile Char.isDigit)).2).1 = exponent :=
    congrArg Numeral.exponent hscan
  cases exponent with
  | none =>
      refine ⟨⟨whole, fraction, fractionChars fraction, 0, [], hwhole, hfraction, .absent⟩,
        rfl, rfl, rfl, ?_⟩
      simp [isFloat, hpresent]
  | some e =>
      obtain ⟨hmark, hsign, hdigits⟩ := scanExponent_eq_some hexponent
      refine ⟨⟨whole, fraction, fractionChars fraction, _, exponentChars (some e), hwhole,
        hfraction, .present hmark hsign hdigits⟩, rfl, rfl, rfl, ?_⟩
      simp [isFloat, exponentChars]

/-! ## Nothing longer has the form -/

theorem scanSign_digits {sign digits : List Char} (hsign : IsSign sign) (h : Digits digits)
    (rest : List Char) : scanSign (sign ++ (digits ++ rest)) = (sign, digits ++ rest) := by
  obtain ⟨d, ds, rfl⟩ := List.exists_cons_of_ne_nil h.ne_nil
  have hd : d.isDigit = true := h.isDigit d List.mem_cons_self
  rcases hsign with rfl | rfl | rfl
  · rw [List.nil_append, List.cons_append]
    unfold scanSign
    split
    · next heq => cases heq; cases hd
    · next heq => cases heq; cases hd
    · rfl
  · rfl
  · rfl

/-- An exponent is scanned at least as far as one reaches. -/
theorem length_exponent_le {power : Int} {exponent : List Char} (h : ExponentForm power exponent)
    (rest : List Char) :
    exponent.length ≤ (exponentChars (scanExponent (exponent ++ rest)).1).length := by
  cases h with
  | absent => exact Nat.zero_le _
  | @present mark sign digits hmark hsign h =>
      have hlength := length_le_takeWhile h.isDigit rest
      have hpos := List.length_pos_iff.2 h.ne_nil
      have hscan : (scanExponent (mark :: (sign ++ (digits ++ rest)))).1 =
          some ⟨mark, sign, (digits ++ rest).takeWhile Char.isDigit⟩ := by
        simp only [scanExponent, scanSign_digits hsign h]
        rw [if_pos (show mark = 'e' ∨ mark = 'E' from hmark)]
        split
        · next hnil => rw [hnil] at hlength; exact absurd hpos (Nat.not_lt.2 hlength)
        · rfl
      rw [List.cons_append, List.append_assoc, hscan]
      simp only [exponentChars, List.length_cons, List.length_append]
      omega

/-- An exponent that is there begins with a letter. -/
theorem head_exponent {power : Int} {exponent : List Char} (h : ExponentForm power exponent)
    (hne : exponent ≠ []) (rest : List Char) :
    ∀ c ∈ (exponent ++ rest).head?, c.isDigit = false ∧ c ≠ '.' := by
  intro c hc
  cases h with
  | absent => exact absurd rfl hne
  | present hmark _ _ =>
      cases hc
      exact ⟨hmark.not_isDigit, hmark.ne_point⟩

theorem scanFraction_chars {fraction rest : List Char} (h : ∀ c ∈ fraction, c.isDigit = true)
    (hrest : ∀ c ∈ rest.head?, c.isDigit = false ∧ c ≠ '.') :
    scanFraction (fractionChars fraction ++ rest) = (fraction, rest) := by
  cases fraction with
  | nil =>
      rw [fractionChars, List.nil_append]
      unfold scanFraction
      split
      · exact absurd rfl (hrest '.' rfl).2
      · rfl
  | cons d ds =>
      obtain ⟨htake, hdrop⟩ := span_digits h fun c hc => (hrest c hc).1
      rw [fractionChars, List.cons_append]
      simp only [scanFraction, htake, hdrop]
      exact List.cons_ne_nil d ds

theorem scanFraction_point (cs : List Char) :
    (scanFraction ('.' :: cs)).1 = cs.takeWhile Char.isDigit := by
  simp only [scanFraction]
  split
  · next hnil => rw [hnil]
  · rfl

theorem length_fractionChars_le {ds es : List Char} (h : ds.length ≤ es.length) :
    (fractionChars ds).length ≤ (fractionChars es).length := by
  cases ds <;> cases es <;> simp_all [fractionChars]

/-- No digit comes first where a fraction or an exponent is there. -/
theorem head_fraction {digits fraction exponent : List Char} {power : Int}
    (hf : FractionForm digits fraction) (he : ExponentForm power exponent)
    (hne : fraction ≠ [] ∨ exponent ≠ []) (rest : List Char) :
    ∀ c ∈ (fraction ++ (exponent ++ rest)).head?, c.isDigit = false := by
  intro c hc
  cases hf with
  | absent => exact (head_exponent he (hne.resolve_left (· rfl)) rest c hc).1
  | present h =>
      cases hc
      rfl

/-- A fraction and an exponent are scanned at least as far as they reach. -/
theorem length_fraction_le {digits fraction exponent : List Char} {power : Int}
    (hf : FractionForm digits fraction) (he : ExponentForm power exponent) (rest : List Char) :
    fraction.length + exponent.length ≤
      (fractionChars (scanFraction (fraction ++ (exponent ++ rest))).1).length +
        (exponentChars
          (scanExponent (scanFraction (fraction ++ (exponent ++ rest))).2).1).length := by
  by_cases hne : exponent = []
  · subst hne
    cases hf with
    | absent => exact Nat.zero_le _
    | present h =>
        have hlength := length_fractionChars_le (length_le_takeWhile h.isDigit rest)
        rw [← (fractionForm_iff.1 (.present h)).2] at hlength
        rw [List.nil_append, List.cons_append, scanFraction_point]
        exact Nat.le_add_right_of_le hlength
  · obtain ⟨hdigits, rfl⟩ := fractionForm_iff.1 hf
    have hlength := length_exponent_le he rest
    rw [scanFraction_chars hdigits (head_exponent he hne rest)]
    exact Nat.add_le_add_left hlength _

end Numeral

/-- **Nothing longer has the form** than what is scanned. -/
theorem WrittenNumeral.length_chars_le (n : WrittenNumeral) (rest : List Char) :
    n.chars.length ≤ (Numeral.scan (n.chars ++ rest)).1.chars.length := by
  have hscan : ∀ cs, (Numeral.scan cs).1.chars.length = (cs.takeWhile Char.isDigit).length +
      ((Numeral.fractionChars (Numeral.scanFraction (cs.dropWhile Char.isDigit)).1).length +
        (Numeral.exponentChars (Numeral.scanExponent
          (Numeral.scanFraction (cs.dropWhile Char.isDigit)).2).1).length) := by
    intro cs
    simp only [Numeral.scan, Numeral.chars, List.length_append]
  have hassoc : n.chars ++ rest = n.whole ++ (n.fraction ++ (n.exponent ++ rest)) := by
    simp only [chars, List.append_assoc]
  rw [hscan, hassoc]
  simp only [chars, List.length_append]
  by_cases htail : n.fraction ≠ [] ∨ n.exponent ≠ []
  · obtain ⟨htake, hdrop⟩ := span_digits n.isDigit_whole
      (Numeral.head_fraction n.fraction_form n.exponent_form htail rest)
    rw [htake, hdrop]
    exact Nat.add_le_add_left (Numeral.length_fraction_le n.fraction_form n.exponent_form rest) _
  · obtain ⟨hfraction, hexponent⟩ : n.fraction = [] ∧ n.exponent = [] := by simpa using htail
    have hlength := length_le_takeWhile n.isDigit_whole (n.fraction ++ (n.exponent ++ rest))
    rw [hfraction, hexponent] at hlength ⊢
    exact Nat.add_le_add hlength (Nat.zero_le _)

/-- What has the form at the head of a text is the beginning of what is scanned. -/
theorem WrittenNumeral.isPrefix_scan {n : WrittenNumeral} {cs : List Char} (h : n.chars <+: cs) :
    n.chars <+: (Numeral.scan cs).1.chars := by
  obtain ⟨rest, rfl⟩ := h
  have hscan : (Numeral.scan (n.chars ++ rest)).1.chars <+: n.chars ++ rest :=
    ⟨_, Numeral.chars_scan _⟩
  exact List.prefix_of_prefix_length_le (List.prefix_append _ _) hscan (n.length_chars_le rest)

/-! ## Points and letters in front of their digits -/

/-- What stands before and behind a character that does not occur in a first part. -/
theorem exists_behind {c : Char} {front tail before after : List Char} (hc : c ∉ front)
    (h : front ++ tail = before ++ c :: after) :
    ∃ more, before = front ++ more ∧ tail = more ++ c :: after := by
  rcases List.append_eq_append_iff.1 h with ⟨more, rfl, htail⟩ | ⟨more, rfl, hmore⟩
  · exact ⟨more, rfl, htail⟩
  · cases more with
    | nil => exact ⟨[], by simp, by simpa using hmore.symm⟩
    | cons d ds =>
        cases hmore
        exact absurd (by simp) hc

/-- What stands behind a character that begins a list and does not occur again. -/
theorem eq_behind {c d : Char} {tail before after : List Char} (hc : c ∉ tail)
    (h : d :: tail = before ++ c :: after) : after = tail := by
  cases before with
  | nil =>
      cases h
      rfl
  | cons e es =>
      cases h
      exact absurd (by simp) hc

theorem IsSign.eq_of_mem {sign : List Char} (h : IsSign sign) {c : Char} (hc : c ∈ sign) :
    c = '+' ∨ c = '-' := by
  rcases h with rfl | rfl | rfl <;> simp_all

theorem Digits.not_mem {digits : List Char} (h : Digits digits) {c : Char}
    (hc : c.isDigit = false) : c ∉ digits := by
  intro hmem
  rw [h.isDigit c hmem] at hc
  cases hc

/-- Neither a point nor a letter stands behind the letter of an exponent. -/
theorem not_mem_sign_digits {sign digits : List Char} (hsign : IsSign sign) (h : Digits digits)
    {c : Char} (hc : c = '.' ∨ IsMark c) : c ∉ sign ++ digits := by
  have hdigit : c.isDigit = false := by
    rcases hc with rfl | hc
    · rfl
    · exact hc.not_isDigit
  intro hmem
  rcases List.mem_append.1 hmem with hmem | hmem
  · rcases hsign.eq_of_mem hmem with rfl | rfl
    · simp [IsMark] at hc
    · simp [IsMark] at hc
  · exact h.not_mem hdigit hmem

theorem not_point_mem_exponent {power : Int} {exponent : List Char}
    (h : ExponentForm power exponent) : '.' ∉ exponent := by
  cases h with
  | absent => exact List.not_mem_nil
  | present hmark hsign hd =>
      rw [List.mem_cons, not_or]
      exact ⟨hmark.ne_point.symm, not_mem_sign_digits hsign hd (.inl rfl)⟩

namespace WrittenNumeral

variable {n : WrittenNumeral} {before after : List Char}

/-- A point in a numeral stands in front of a digit. -/
theorem digitNext_of_point (h : n.chars = before ++ '.' :: after) : DigitNext after := by
  obtain ⟨whole, digits, fraction, power, exponent, hwhole, hfraction, hexponent⟩ := n
  have hpoint : '.' ∉ whole := fun hc => absurd (hwhole _ hc) (by decide)
  obtain ⟨more, -, htail⟩ := exists_behind hpoint h
  have hnot := not_point_mem_exponent hexponent
  cases hfraction with
  | absent => exact absurd (by rw [← List.nil_append exponent, htail]; simp) hnot
  | present hd =>
      have hrest : '.' ∉ digits ++ exponent := by
        rw [List.mem_append, not_or]
        exact ⟨hd.not_mem rfl, hnot⟩
      rw [eq_behind hrest htail]
      exact hd.digitNext exponent

/-- An exponent letter in a numeral stands in front of a digit, or of a sign and a digit. -/
theorem exponentNext_of_mark {mark : Char} (hmark : IsMark mark)
    (h : n.chars = before ++ mark :: after) : ExponentNext after := by
  obtain ⟨whole, digits, fraction, power, exponent, hwhole, hfraction, hexponent⟩ := n
  have hnot : mark ∉ whole := by
    intro hc
    have := hmark.not_isDigit
    rw [hwhole _ hc] at this
    cases this
  have hnot' : mark ∉ fraction := by
    cases hfraction with
    | absent => exact List.not_mem_nil
    | present hd =>
        rw [List.mem_cons, not_or]
        exact ⟨hmark.ne_point, hd.not_mem hmark.not_isDigit⟩
  obtain ⟨more, -, htail⟩ := exists_behind hnot h
  obtain ⟨more', -, hlast⟩ := exists_behind hnot' htail
  cases hexponent with
  | absent => simp at hlast
  | @present mark' sign ds _ hsign hd =>
      rw [eq_behind (not_mem_sign_digits hsign hd (.inr hmark)) hlast]
      exact ⟨sign, ds, rfl, hsign, by simpa using hd.digitNext []⟩

end WrittenNumeral

/-! ## Calls for the next token -/

theorem DigitNext.append {cs : List Char} (h : DigitNext cs) (more : List Char) :
    DigitNext (cs ++ more) := by
  obtain ⟨d, hd, hdigit⟩ := h
  cases cs with
  | nil => cases hd
  | cons c cs => exact ⟨d, hd, hdigit⟩

theorem ExponentNext.append {cs : List Char} (h : ExponentNext cs) (more : List Char) :
    ExponentNext (cs ++ more) := by
  obtain ⟨sign, rest, rfl, hsign, hdigit⟩ := h
  exact ⟨sign, rest ++ more, List.append_assoc .., hsign, hdigit.append more⟩

/-- A first part of a text either ends in front of a character or takes it. -/
theorem isPrefix_or_behind {c : Char} {taken rest front behind : List Char}
    (h : taken ++ rest = front ++ c :: behind) :
    taken <+: front ∨ ∃ after more, taken = front ++ c :: after ∧ behind = after ++ more := by
  rcases List.append_eq_append_iff.1 h with ⟨more, rfl, -⟩ | ⟨more, rfl, hmore⟩
  · exact .inl (List.prefix_append taken more)
  · cases more with
    | nil => exact .inl (by simp)
    | cons d ds =>
        cases hmore
        exact .inr ⟨ds, rest, rfl, rfl⟩

/-- What a call answers where a numeral begins, and where the next one goes on, by the numeral and
the text behind it. -/
inductive NumeralAnswer (start : Nat) (n : WrittenNumeral) (rest : List Char) :
    Except SyntaxError (Option Located) × Tokenizer → Prop
  | float (h : n.fraction ≠ [] ∨ n.exponent ≠ []) :
      NumeralAnswer start n rest
        (.ok (some ⟨.literal (.float n.decimal.toFloat), start, start + byteSize n.chars⟩),
          ⟨start + byteSize n.chars, rest⟩)
  | integer (h : n.chars = n.whole) {i : Int64} (hi : i.toInt = ofDigits n.whole) :
      NumeralAnswer start n rest
        (.ok (some ⟨.literal (.integer i), start, start + byteSize n.chars⟩),
          ⟨start + byteSize n.chars, rest⟩)
  | tooLarge (h : n.chars = n.whole) (hlarge : 2 ^ 63 - 1 < ofDigits n.whole) :
      NumeralAnswer start n rest
        (.error ⟨.integerTooLarge n.whole, start⟩, ⟨start + byteSize n.chars, rest⟩)

/-- A region that begins with a digit, or with a point before one, is a numeral. -/
theorem scanRegion_numeral {c : Char} {cs : List Char}
    (h : c.isDigit = true ∨ c = '.' ∧ DigitNext cs) :
    scanRegion c cs = scanNumeral (c :: cs) ∧ isBlank c = false := by
  rcases h with hdigit | ⟨rfl, d, hd, hdigit⟩
  · exact ⟨scanRegion_of_isDigit hdigit cs, isBlank_of_isDigit hdigit⟩
  · have hstarts : startsNumeral '.' cs = true := by
      cases cs with
      | nil => cases hd
      | cons e es =>
          cases hd
          simp [startsNumeral, hdigit]
    refine ⟨?_, by decide⟩
    simp [scanRegion, scanSymbol_eq_none (show Symbol.ofChar? '.' = none from rfl), hstarts]

/-- The answer by what is scanned: a float, an integer that fits, or one that does not. -/
theorem numeralAnswer_of_written {start : Nat} {n : WrittenNumeral} {m : Numeral}
    {rest : List Char} (hwhole : n.whole = m.whole) (hdecimal : n.decimal = m.value)
    (hfloat : m.isFloat = true ↔ n.fraction ≠ [] ∨ n.exponent ≠ []) :
    NumeralAnswer start n rest
      (((numeralMeaning m).mapError (·.shift start)).map fun token =>
          some ⟨token, start, start + byteSize n.chars⟩,
        ⟨start + byteSize n.chars, rest⟩) := by
  unfold numeralMeaning
  by_cases hm : m.isFloat = true
  · rw [if_pos hm, ← hdecimal]
    exact .float (hfloat.1 hm)
  · rw [if_neg hm, ← hwhole]
    have hchars : n.chars = n.whole := by
      rw [hfloat, not_or, not_not, not_not] at hm
      rw [WrittenNumeral.chars, hm.1, hm.2, List.append_nil, List.append_nil]
    cases hi : int64? (ofDigits n.whole) with
    | some i => exact .integer hchars (int64?_eq_some_iff.1 hi)
    | none =>
        have hlarge := int64?_eq_none_iff_range.1 hi
        exact .tooLarge hchars (by omega)

/-- **Numerals are scanned by their form.**  At a digit, or at a point before one, what is taken is
the longest part of the text that has the form of a numeral; a point or an exponent letter without
its digits is left where it stands.  With a fraction or an exponent the answer is the float of the
decimal that is written; without them it is the integer that the digits denote, if that fits, and
else these digits are reported at their place.  The next call goes on behind the numeral. -/
theorem Tokenizer.next_numeral {t : Tokenizer} {blanks cs : List Char} {c : Char}
    (hrest : t.rest = blanks ++ c :: cs) (hblanks : ∀ b ∈ blanks, isBlank b = true)
    (hstart : c.isDigit = true ∨ c = '.' ∧ DigitNext cs) :
    ∃ (n : WrittenNumeral) (rest : List Char), c :: cs = n.chars ++ rest ∧ n.chars ≠ [] ∧
      (∀ m : WrittenNumeral, m.chars <+: c :: cs → m.chars <+: n.chars) ∧
      (∀ front behind, c :: cs = front ++ '.' :: behind → ¬DigitNext behind →
        n.chars <+: front) ∧
      (∀ front mark behind, c :: cs = front ++ mark :: behind → IsMark mark →
        ¬ExponentNext behind → n.chars <+: front) ∧
      NumeralAnswer (t.position + byteSize blanks) n rest t.next := by
  obtain ⟨hscan, hblank⟩ := scanRegion_numeral hstart
  obtain ⟨n, hchars, hwhole, hdecimal, hfloat⟩ := Numeral.exists_written (c :: cs)
  have hsplit : c :: cs = n.chars ++ (Numeral.scan (c :: cs)).2 := by
    rw [hchars, Numeral.chars_scan]
  have hdrop : t.rest.dropWhile isBlank = c :: cs := by
    rw [hrest, List.dropWhile_append_of_pos hblanks]
    simp [hblank]
  have htake : t.rest.takeWhile isBlank = blanks := by
    rw [hrest, List.takeWhile_append_of_pos hblanks]
    simp [hblank]
  refine ⟨n, (Numeral.scan (c :: cs)).2, hsplit, ?_, ?_, ?_, ?_, ?_⟩
  · have hlexeme := lexeme_scanRegion_ne_nil c cs
    rw [hscan] at hlexeme
    rw [hchars]
    exact hlexeme
  · intro m hm
    rw [hchars]
    exact m.isPrefix_scan hm
  · intro front behind hfront hnot
    rcases isPrefix_or_behind (hsplit.symm.trans hfront) with h | ⟨after, more, htaken, rfl⟩
    · exact h
    · exact absurd ((WrittenNumeral.digitNext_of_point htaken).append more) hnot
  · intro front mark behind hfront hmark hnot
    rcases isPrefix_or_behind (hsplit.symm.trans hfront) with h | ⟨after, more, htaken, rfl⟩
    · exact h
    · exact absurd ((WrittenNumeral.exponentNext_of_mark hmark htaken).append more) hnot
  · unfold Tokenizer.next
    rw [Tokenizer.nextRegion_of_cons hdrop]
    simp only [Tokenizer.skipBlanks, htake, hscan, Region.answer, scanNumeral, ← hchars]
    exact numeralAnswer_of_written hwhole hdecimal hfloat

/-- Zeros in front do not count, and one more than the largest integer does not fit.  The point
behind it stays, because no digit follows it, and so does the exponent. -/
theorem Tokenizer.next_numeral_tooLarge :
    let digits := "0009223372036854775808".toList
    let place : Tokenizer := ⟨1, [' '] ++ (digits ++ ".e+5".toList)⟩
    (∃ (n : WrittenNumeral) (rest : List Char),
      digits ++ ".e+5".toList = n.chars ++ rest ∧ n.chars ≠ [] ∧
      (∀ m : WrittenNumeral, m.chars <+: digits ++ ".e+5".toList → m.chars <+: n.chars) ∧
      (∀ front behind, digits ++ ".e+5".toList = front ++ '.' :: behind → ¬DigitNext behind →
        n.chars <+: front) ∧
      (∀ front mark behind, digits ++ ".e+5".toList = front ++ mark :: behind → IsMark mark →
        ¬ExponentNext behind → n.chars <+: front) ∧
      NumeralAnswer 2 n rest place.next) ∧
    place.next.1 = .error ⟨.integerTooLarge digits, 2⟩ ∧ place.next.2.rest = ".e+5".toList := by
  intro digits place
  have hblank : ∀ b ∈ [' '], isBlank b = true := by
    intro b hb
    rw [List.mem_singleton.1 hb]
    rfl
  exact ⟨Tokenizer.next_numeral (t := place) rfl hblank (.inl (by decide)), by decide +kernel,
    by decide +kernel⟩

end FormulaEngine
