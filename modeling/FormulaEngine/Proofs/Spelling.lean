import Mathlib.Data.List.TakeWhile
import FormulaEngine.Grammar.ExprText
import FormulaEngine.Proofs.Carving

/-!
# How tokens are spelled

The characters that a formula writes for a literal, a name or an operator are carved into exactly
that token.

* `carve_word` -- a word is a keyword or a bare name;
* `carve_nameChars` -- a name is read back from its spelling, with brackets or without;
* `carve_quoted` -- quoting is undone by scanning, whatever the characters of the string;
* `carve_integer` -- so is writing an integer that is not negative;
* `carve_operator`, `carve_unaryOperator` -- the spelling of an operator in front of a blank, or of
  its operand.
-/

namespace FormulaEngine

/-! ## Which kind of region begins -/

private theorem ofPair?_isSome_imp {c d : Char} {s : Symbol} (h : Symbol.ofPair? c d = some s) :
    (Symbol.ofChar? c).isSome = true := by
  unfold Symbol.ofPair? at h
  split at h
  all_goals first | rfl | cases h

/-- No symbol begins with a character that is none itself. -/
theorem scanSymbol_eq_none {c : Char} (h : Symbol.ofChar? c = none) (cs : List Char) :
    scanSymbol c cs = none := by
  cases cs with
  | nil => simp [scanSymbol, h]
  | cons d cs =>
      cases hp : Symbol.ofPair? c d with
      | none => simp [scanSymbol, h, hp]
      | some s =>
          have := ofPair?_isSome_imp hp
          rw [h] at this
          cases this

/-- A character that begins a name begins no other token. -/
theorem ofChar?_of_isNameStart {c : Char} (h : isNameStart c = true) :
    Symbol.ofChar? c = none := by
  unfold Symbol.ofChar?
  split
  all_goals first | rfl | exact absurd h (by decide)

theorem ofChar?_of_isDigit {c : Char} (h : c.isDigit = true) : Symbol.ofChar? c = none := by
  unfold Symbol.ofChar?
  split
  all_goals first | rfl | exact absurd h (by decide)

/-- An ASCII letter has one of the codes from 65 to 90 or from 97 to 122. -/
theorem code_of_isAlpha {c : Char} (h : c.isAlpha = true) :
    (65 ≤ c.toNat ∧ c.toNat ≤ 90) ∨ (97 ≤ c.toNat ∧ c.toNat ≤ 122) := by
  have hrange : (decide (c.val ≥ 65 ∧ c.val ≤ 90) ||
      (decide (c.val ≥ 97) && decide (c.val ≤ 122))) = true := h
  rw [Bool.or_eq_true, Bool.and_eq_true, decide_eq_true_eq, decide_eq_true_eq,
    decide_eq_true_eq] at hrange
  exact hrange

theorem isDigit_of_isNameStart {c : Char} (h : isNameStart c = true) : c.isDigit = false := by
  cases hd : c.isDigit with
  | false => rfl
  | true =>
      have hdigit := code_of_isDigit hd
      have hlt : c.toNat < 128 := by omega
      have hletter : c.isAlpha = true ∨ c = '_' := by
        simpa [isNameStart, isLetter, hlt] using h
      rcases hletter with hl | rfl
      · have halpha := code_of_isAlpha hl
        omega
      · cases hd

/-- A region that begins like a name is a word. -/
theorem scanRegion_of_isNameStart {c : Char} (h : isNameStart c = true) (cs : List Char) :
    scanRegion c cs = scanWord c cs := by
  have hne : ∀ d, isNameStart d = false → c ≠ d := by
    intro d hd h
    subst h
    rw [h] at hd
    cases hd
  have hnum : startsNumeral c cs = false := by
    simp [startsNumeral, isDigit_of_isNameStart h, hne '.' (by decide)]
  simp [scanRegion, scanSymbol_eq_none (ofChar?_of_isNameStart h), hne '\x27' (by decide),
    hne '#' (by decide), hne '[' (by decide), hnum, h]

/-- A region that begins with a digit is a numeral. -/
theorem scanRegion_of_isDigit {c : Char} (h : c.isDigit = true) (cs : List Char) :
    scanRegion c cs = scanNumeral (c :: cs) := by
  have hne : ∀ d, Char.isDigit d = false → c ≠ d := by
    intro d hd h
    subst h
    rw [h] at hd
    cases hd
  simp [scanRegion, scanSymbol_eq_none (ofChar?_of_isDigit h), hne '\x27' (by decide),
    hne '#' (by decide), hne '[' (by decide), startsNumeral, h]

/-! ## Words and names -/

/-- No character of a name is a blank. -/
theorem isBlank_of_isNameChar {c : Char} (h : isNameChar c = true) : isBlank c = false := by
  cases hb : isBlank c with
  | false => rfl
  | true =>
      have hc : StartsBroken [c] := startsBroken_cons (by simp [isBreak, hb])
      rw [hc.isNameChar_head c rfl] at h
      cases h

/-- Whether some characters make up a word, which begins like a name and goes on like one. -/
def isWord : List Char → Bool
  | [] => false
  | c :: cs => isNameStart c && cs.all isNameChar

/-- A word is a keyword or a bare name. -/
theorem carve_word {word : List Char} (h : isWord word = true) :
    carve word = some [(Token.keyword? word).getD (.name (String.ofList word))] := by
  cases word with
  | nil => cases h
  | cons c cs =>
      obtain ⟨hc, hcs⟩ : isNameStart c = true ∧ ∀ d ∈ cs, isNameChar d = true := by
        simpa [isWord] using h
      have htake : cs.takeWhile isNameChar = cs := List.takeWhile_eq_self_iff.2 hcs
      have hdrop : cs.dropWhile isNameChar = [] := List.dropWhile_eq_nil_iff.2 hcs
      have hscan : scanRegion c cs = ⟨c :: cs, [],
          .ok ((Token.keyword? (c :: cs)).getD (.name (String.ofList (c :: cs))))⟩ := by
        rw [scanRegion_of_isNameStart hc, scanWord, htake, hdrop]
      rw [carve_of_scan (isBlank_of_isNameChar (isNameChar_of_isNameStart hc)) hscan, carve_nil]
      rfl

/-- Whether a name can be read without brackets: it is a word and no keyword. -/
def isBareName (cs : List Char) : Bool := isWord cs && !Token.isKeyword cs

theorem exists_of_isBareName {cs : List Char} (h : isBareName cs = true) :
    ∃ c rest, cs = c :: rest ∧ isNameStart c = true := by
  cases cs with
  | nil => cases h
  | cons c rest =>
      simp only [isBareName, isWord, Bool.and_eq_true] at h
      exact ⟨c, rest, rfl, h.1.1⟩

theorem carve_bareName {name : String} (h : isBareName name.toList = true) :
    carve name.toList = some [.name name] := by
  obtain ⟨hword, hkey⟩ : isWord name.toList = true ∧ Token.isKeyword name.toList = false := by
    simpa [isBareName] using h
  have hnone : Token.keyword? name.toList = none := by simpa [Token.isKeyword] using hkey
  rw [carve_word hword, hnone]
  simp

theorem isLetter_of_isAlpha {c : Char} (h : c.isAlpha = true) : isLetter c = true := by
  have halpha := code_of_isAlpha h
  have hlt : c.toNat < 128 := by omega
  simp [isLetter, hlt, h]

theorem isNumeral_of_isDigit {c : Char} (h : c.isDigit = true) : isNumeral c = true := by
  have hdigit := code_of_isDigit h
  have hlt : c.toNat < 128 := by omega
  simp [isNumeral, hlt, h]

/-- What is written without brackets can be read without them. -/
theorem isBareName_of_isPlainName {cs : List Char} (h : isPlainName cs = true) :
    isBareName cs = true := by
  cases cs with
  | nil => cases h
  | cons c cs =>
      simp only [isPlainName, Bool.and_eq_true, Bool.or_eq_true, List.all_eq_true,
        beq_iff_eq] at h
      obtain ⟨⟨hc, hcs⟩, hkey⟩ := h
      have hstart : isNameStart c = true := by
        rcases hc with hc | rfl
        · simp [isNameStart, isLetter_of_isAlpha hc]
        · rfl
      have hall : ∀ d ∈ cs, isNameChar d = true := by
        intro d hd
        rcases hcs d hd with hd | rfl
        · rcases Bool.or_eq_true_iff.1 hd with hd | hd
          · simp [isNameChar, isLetter_of_isAlpha hd]
          · simp [isNameChar, isNumeral_of_isDigit hd]
        · rfl
      simp only [isBareName, isWord, hstart, hkey, Bool.and_true, Bool.true_and, List.all_eq_true]
      exact hall

/-- A delimited region reaches to its first closing character. -/
theorem scanDelimited_of_not_mem {opening closing : Char}
    {meaning : List Char → Except SyntaxError Token} {inside : List Char}
    (h : closing ∉ inside) (rest : List Char) :
    scanDelimited opening closing meaning (inside ++ closing :: rest) =
      ⟨opening :: (inside ++ [closing]), rest, meaning inside⟩ := by
  have hall : ∀ c ∈ inside, (c != closing) = true := by
    intro c hc
    simp only [bne_iff_ne, ne_eq]
    intro h
    subst h
    exact h hc
  have hdrop : (inside ++ closing :: rest).dropWhile (· != closing) = closing :: rest := by
    rw [List.dropWhile_append_of_pos hall]
    simp
  have htake : (inside ++ closing :: rest).takeWhile (· != closing) = inside := by
    rw [List.takeWhile_append_of_pos hall]
    simp
  rw [scanDelimited, hdrop, htake]

/-- A name in brackets is read as it is. -/
theorem scanRegion_bracketed {name : String} (hne : name ≠ "") (hname : ']' ∉ name.toList)
    (rest : List Char) : scanRegion '[' (name.toList ++ ']' :: rest) =
      ⟨'[' :: (name.toList ++ [']']), rest, .ok (.name name)⟩ := by
  have hempty : name.toList.isEmpty = false := by
    rw [List.isEmpty_eq_false_iff]
    exact fun h => hne (String.toList_eq_nil_iff.1 h)
  have hsym : scanSymbol '[' (name.toList ++ ']' :: rest) = none := scanSymbol_eq_none rfl _
  have hscan : scanRegion '[' (name.toList ++ ']' :: rest) =
      scanDelimited '[' ']' nameMeaning (name.toList ++ ']' :: rest) := by
    simp [scanRegion, hsym]
  rw [hscan, scanDelimited_of_not_mem hname, nameMeaning, hempty]
  simp

/-- **A name is read back from its spelling**, unless it is empty or closes a bracket. -/
theorem carve_nameChars {name : String} (hne : name ≠ "") (hname : ']' ∉ name.toList) :
    carve (nameChars name) = some [.name name] := by
  unfold nameChars
  split
  · next h => exact carve_bareName (isBareName_of_isPlainName h)
  · rw [carve_of_scan (by decide) (scanRegion_bracketed hne hname []), carve_nil]
    rfl

/-! ## Strings -/

/-- One character of a quoted string is one item, whatever stands behind it. -/
private theorem before_quoted (c : Char) (cs : List Char) :
    ∃ item : StringItem, item.meaning = .ok c ∧
      Literal.quotedChars (c :: cs) = item.lexeme ++ Literal.quotedChars cs ∧
      ∀ rest, item.Before rest := by
  by_cases hq : c = '\x27'
  · subst hq
    exact ⟨⟨['\\', '\x27'], .ok '\x27'⟩, rfl, rfl, fun _ => .letter (by simp [letterEscapes])⟩
  by_cases hb : c = '\\'
  · subst hb
    exact ⟨⟨['\\', '\\'], .ok '\\'⟩, rfl, rfl, fun _ => .letter (by simp [letterEscapes])⟩
  by_cases hn : c = '\n'
  · subst hn
    exact ⟨⟨['\\', 'n'], .ok '\n'⟩, rfl, rfl, fun _ => .letter (by simp [letterEscapes])⟩
  by_cases hr : c = '\r'
  · subst hr
    exact ⟨⟨['\\', 'r'], .ok '\r'⟩, rfl, rfl, fun _ => .letter (by simp [letterEscapes])⟩
  by_cases ht : c = '\t'
  · subst ht
    exact ⟨⟨['\\', 't'], .ok '\t'⟩, rfl, rfl, fun _ => .letter (by simp [letterEscapes])⟩
  · exact ⟨⟨[c], .ok c⟩, rfl, by simp [Literal.quotedChars], fun _ => .plain hq hb⟩

/-- The items of a quoted string are its characters. -/
private theorem splits_quoted (cs rest : List Char) :
    ∃ items, Splits (Literal.quotedChars cs ++ '\x27' :: rest) items (some rest) ∧
      items.map (·.meaning) = cs.map .ok := by
  induction cs with
  | nil => exact ⟨[], .closed, rfl⟩
  | cons c cs ih =>
      obtain ⟨items, hitems, hmeaning⟩ := ih
      obtain ⟨item, hitem, hchars, hbefore⟩ := before_quoted c cs
      refine ⟨item :: items, ?_, by simp [hitem, hmeaning]⟩
      rw [hchars, List.append_assoc]
      exact .item (hbefore _) hitems

/-- **Quoting is undone by scanning**, whatever the characters of the string. -/
theorem carve_quoted (s : String) :
    carve (Literal.string s).chars = some [.literal (.string s)] := by
  obtain ⟨items, hsplits, hmeaning⟩ := splits_quoted s.toList []
  have hsym : ∀ cs, scanSymbol '\x27' cs = none := scanSymbol_eq_none rfl
  have hscan : scanRegion '\x27' (Literal.quotedChars s.toList ++ ['\x27']) =
      ⟨'\x27' :: (items.flatMap (·.lexeme) ++ ['\x27']), [], .ok (.literal (.string s))⟩ := by
    simp only [scanRegion, hsym, if_true, scanString, splits_iff.1 hsplits,
      itemsMeaning_eq_ok_iff.2 hmeaning]
    simp
  rw [Literal.chars, carve_of_scan (by decide) hscan, carve_nil]
  rfl

/-! ## Integers -/

theorem isDigit_of_mem_digitsOf {n : Nat} {c : Char} (h : c ∈ digitsOf n) : c.isDigit = true :=
  Nat.isDigit_of_mem_toDigits (by decide) (by decide) h

theorem ofDigits_digitsOf (n : Nat) : ofDigits (digitsOf n) = n :=
  Nat.ofDigitChars_ten_toDigits

/-- No digit is a blank. -/
theorem isBlank_of_isDigit {c : Char} (h : c.isDigit = true) : isBlank c = false :=
  isBlank_of_isNameChar (by simp [isNameChar, isNumeral_of_isDigit h])

/-- **Writing an integer is undone by scanning**, if it is not negative. -/
theorem carve_integer {i : Int64} (hi : 0 ≤ i) :
    carve (Literal.integer i).chars = some [.literal (.integer i)] := by
  have hpos : 0 ≤ i.toInt := by simpa using Int64.le_iff_toInt_le.1 hi
  have hchars : (Literal.integer i).chars = digitsOf i.toInt.natAbs := by
    rw [Literal.chars, intDigits, if_neg (by omega)]
  obtain ⟨c, cs, hcs⟩ : ∃ c cs, digitsOf i.toInt.natAbs = c :: cs :=
    List.exists_cons_of_ne_nil Nat.toDigits_ne_nil
  have hdigits : ∀ d ∈ c :: cs, d.isDigit = true := fun d hd =>
    isDigit_of_mem_digitsOf (hcs ▸ hd)
  have hc : c.isDigit = true := hdigits c (List.mem_cons_self ..)
  have hint : int64? (ofDigits (c :: cs)) = some i := by
    have hnat : (i.toInt.natAbs : Int) = i.toInt := by omega
    rw [← hcs, ofDigits_digitsOf, hnat, int64?, if_pos ⟨i.minValue_le_toInt, i.toInt_le⟩,
      Int64.ofInt_toInt]
  have hnum : Numeral.scan (c :: cs) = (⟨c :: cs, [], none⟩, []) := by
    rw [Numeral.scan, List.takeWhile_eq_self_iff.2 hdigits, List.dropWhile_eq_nil_iff.2 hdigits]
    rfl
  have hscan : scanRegion c cs = ⟨c :: cs, [], .ok (.literal (.integer i))⟩ := by
    rw [scanRegion_of_isDigit hc, scanNumeral, hnum]
    simp [numeralMeaning, Numeral.isFloat, hint, Numeral.chars, Numeral.fractionChars,
      Numeral.exponentChars]
  rw [hchars, hcs, carve_of_scan (isBlank_of_isDigit hc) hscan, carve_nil]
  rfl

/-! ## Symbols -/

/-- A region that begins with a symbol holds a symbol. -/
theorem outcome_scanRegion_of_ofChar? {c : Char} {s : Symbol} (h : Symbol.ofChar? c = some s)
    (cs : List Char) : ∃ s', (scanRegion c cs).outcome = .ok (.symbol s') := by
  obtain ⟨scan, s', hscan, hs'⟩ :
      ∃ scan s', scanSymbol c cs = some scan ∧ scan.outcome = .ok (.symbol s') := by
    cases cs with
    | nil => exact ⟨⟨[c], [], .ok (.symbol s)⟩, s, by simp [scanSymbol, h], rfl⟩
    | cons d cs =>
        cases hp : Symbol.ofPair? c d with
        | none => exact ⟨⟨[c], d :: cs, .ok (.symbol s)⟩, s, by simp [scanSymbol, h, hp], rfl⟩
        | some s' => exact ⟨⟨[c, d], cs, .ok (.symbol s')⟩, s', by simp [scanSymbol, hp], rfl⟩
  exact ⟨s', by rw [scanRegion, hscan]; exact hs'⟩

/-- A symbol of one character, unless the next one makes another symbol of it. -/
theorem carve_symbol {c : Char} {s : Symbol} {cs : List Char} (hs : Symbol.ofChar? c = some s)
    (hpair : ∀ d ∈ cs.head?, Symbol.ofPair? c d = none) (hc : isBlank c = false) :
    carve (c :: cs) = (carve cs).map (.symbol s :: ·) := by
  have hsym : scanSymbol c cs = some ⟨[c], cs, .ok (.symbol s)⟩ := by
    cases cs with
    | nil => simp [scanSymbol, hs]
    | cons d cs => simp [scanSymbol, hs, hpair d rfl]
  have hscan : scanRegion c cs = ⟨[c], cs, .ok (.symbol s)⟩ := by
    rw [scanRegion, hsym]
  rw [carve_of_scan hc hscan]

theorem carve_leftParen (cs : List Char) :
    carve ('(' :: cs) = (carve cs).map (.symbol .leftParen :: ·) :=
  carve_symbol rfl (fun _ _ => rfl) (by decide)

theorem carve_rightParen (cs : List Char) :
    carve (')' :: cs) = (carve cs).map (.symbol .rightParen :: ·) :=
  carve_symbol rfl (fun _ _ => rfl) (by decide)

theorem carve_comma (cs : List Char) :
    carve (',' :: cs) = (carve cs).map (.symbol .comma :: ·) :=
  carve_symbol rfl (fun _ _ => rfl) (by decide)

theorem carve_question (cs : List Char) :
    carve ('?' :: cs) = (carve cs).map (.symbol .question :: ·) :=
  carve_symbol rfl (fun _ _ => rfl) (by decide)

theorem carve_colon (cs : List Char) :
    carve (':' :: cs) = (carve cs).map (.symbol .colon :: ·) :=
  carve_symbol rfl (fun _ _ => rfl) (by decide)

/-- A blank in front of a text changes nothing. -/
theorem carve_space (cs : List Char) : carve (' ' :: cs) = carve cs :=
  carve_of_blank (by decide) cs

/-- The spelling of a binary operator in front of a blank. -/
theorem carve_operator (op : BinaryOp) (cs : List Char) :
    carve (op.text.toList ++ ' ' :: cs) = (carve cs).map (.symbol (.ofBinary op) :: ·) := by
  have hop : carve op.text.toList = some [.symbol (.ofBinary op)] := by
    cases op <;> decide +kernel
  rw [carve_append hop (startsBroken_cons (by decide)), carve_space]
  rfl

/-- The spelling of a unary operator in front of its operand. -/
theorem carve_unaryOperator (op : UnaryOp) {cs : List Char}
    (h : op = .not → cs.head? ≠ some '=') :
    carve (op.text.toList ++ cs) = (carve cs).map (.symbol (.ofUnary op) :: ·) := by
  cases op with
  | not =>
      have hpair : ∀ d ∈ cs.head?, Symbol.ofPair? '!' d = none := by
        intro d hd
        have hne : d ≠ '=' := by
          intro h
          subst h
          exact h rfl hd
        simp [Symbol.ofPair?, hne]
      show carve ('!' :: cs) = _
      exact carve_symbol rfl hpair (by decide)
  | negate =>
      show carve ('-' :: cs) = _
      exact carve_symbol rfl (fun _ _ => rfl) (by decide)
  | complement =>
      show carve ('~' :: cs) = _
      exact carve_symbol rfl (fun _ _ => rfl) (by decide)

end FormulaEngine
