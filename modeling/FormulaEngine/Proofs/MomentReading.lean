import FormulaEngine.Proofs.Coverage
import FormulaEngine.Proofs.Spelling

/-!
# Moments are read back from their text

The plain text of a moment fits the second of the patterns for moments and not the first, because
its year ends in front of a hyphen.  It says what a clock shows: a fraction of a second is not
written, and a leap second within a minute is written as the second behind it.

* `Moment.shown` -- the moment that a clock shows;
* `Moment.wholeSecond`, `Moment.LeapEndsMinute` -- the moment without its fraction, and when that is
  what a clock shows;
* `Moment.read?_plainChars` -- reading undoes writing, but for what a clock does not show;
* `Moment.wholeSecond_of_read?` -- nothing that is read has a fraction;
* `carve_moment` -- the text of the literal holds the moment that a clock shows;
* `Moment.tokenize_text` -- it is one token, and nothing is lost of a moment without a fraction.
-/

namespace FormulaEngine

/-! ## Numbers of a fixed width -/

theorem isDigit_of_mem_padDigits {width n : Nat} {c : Char} (h : c ∈ padDigits width n) :
    c.isDigit = true := by
  rcases List.mem_append.1 h with h | h
  · rw [List.eq_of_mem_replicate h]
    rfl
  · exact isDigit_of_mem_digitsOf h

theorem padDigits_ne_nil (width n : Nat) : padDigits width n ≠ [] := by
  intro h
  exact Nat.toDigits_ne_nil (List.append_eq_nil_iff.1 h).2

theorem ofDigits_padDigits (width n : Nat) : ofDigits (padDigits width n) = n := by
  have hzeros : ∀ k, ofDigits (List.replicate k '0') = 0 := by
    intro k
    have h : Nat.ofDigitChars 10 (List.replicate k '0') 0 = 10 ^ k * 0 :=
      Nat.ofDigitChars_replicate_zero
    simpa [ofDigits, Nat.ofDigitChars, digitValue] using h
  rw [padDigits, ofDigits_append, hzeros, ofDigits_digitsOf, Nat.mul_zero, Nat.zero_add]

/-- A number that fits its width is padded to just that width. -/
theorem length_padDigits_of_lt {width n : Nat} (hw : 0 < width) (h : n < 10 ^ width) :
    (padDigits width n).length = width := by
  have hle : (digitsOf n).length ≤ width := (Nat.length_toDigits_le_iff (by decide) hw).2 h
  rw [length_padDigits]
  omega

/-- No digit comes next. -/
private def EndsDigits (rest : List Char) : Prop := ∀ c ∈ rest.head?, c.isDigit = false

private theorem readNumber_append {most : Nat} {digits rest : List Char} (hne : digits ≠ [])
    (hdigits : ∀ c ∈ digits, c.isDigit = true) (hlen : digits.length ≤ most)
    (hrest : EndsDigits rest) :
    readNumber most (digits ++ rest) = some (ofDigits digits, rest) := by
  have hend : (rest.take (most - digits.length)).takeWhile Char.isDigit = [] := by
    cases rest with
    | nil => simp
    | cons c rest =>
        cases most - digits.length with
        | zero => rfl
        | succ k => simp [hrest c rfl]
  have htake : ((digits ++ rest).take most).takeWhile Char.isDigit = digits := by
    rw [List.take_append, List.take_of_length_le hlen, List.takeWhile_append_of_pos hdigits, hend,
      List.append_nil]
  unfold readNumber
  rw [htake]
  cases digits with
  | nil => exact absurd rfl hne
  | cons c cs => simp

private theorem readNumber_padDigits {most width n : Nat} {rest : List Char} (hw : 0 < width)
    (hn : n < 10 ^ width) (hmost : width ≤ most) (hrest : EndsDigits rest) :
    readNumber most (padDigits width n ++ rest) = some (n, rest) := by
  have hlen : (padDigits width n).length ≤ most := by
    rw [length_padDigits_of_lt hw hn]
    exact hmost
  rw [readNumber_append (padDigits_ne_nil width n) (fun _ => isDigit_of_mem_padDigits) hlen hrest,
    ofDigits_padDigits]

private theorem dropWhile_isBlank_padDigits (width n : Nat) (rest : List Char) :
    (padDigits width n ++ rest).dropWhile isBlank = padDigits width n ++ rest := by
  obtain ⟨c, cs, hcs⟩ := List.exists_cons_of_ne_nil (padDigits_ne_nil width n)
  have hc : c.isDigit = true := isDigit_of_mem_padDigits (hcs ▸ List.mem_cons_self ..)
  rw [hcs]
  simp [isBlank_of_isDigit hc]

/-! ## Years -/

/-- A year that is not padded has a sign, and is read with all its digits. -/
private theorem readYear_yearChars (year : Int) {rest : List Char} (hrest : EndsDigits rest) :
    readYear (Moment.yearChars year ++ rest) = some (year, rest) := by
  have hall : ∀ n, readNumber (padDigits 4 n ++ rest).length (padDigits 4 n ++ rest) =
      some (n, rest) := by
    intro n
    rw [readNumber_append (padDigits_ne_nil 4 n) (fun _ => isDigit_of_mem_padDigits)
      (by simp) hrest, ofDigits_padDigits]
  unfold Moment.yearChars
  split
  · next h =>
    have hfour : readNumber 4 (padDigits 4 year.natAbs ++ rest) = some (year.natAbs, rest) :=
      readNumber_padDigits (by decide) (by omega) (Nat.le_refl 4) hrest
    obtain ⟨c, cs, hcs⟩ := List.exists_cons_of_ne_nil (padDigits_ne_nil 4 year.natAbs)
    have hc : c.isDigit = true := isDigit_of_mem_padDigits (hcs ▸ List.mem_cons_self ..)
    rw [hcs, List.cons_append] at hfour ⊢
    unfold readYear
    split
    · next heq => cases heq; cases hc
    · next heq => cases heq; cases hc
    · have hyear : (year.natAbs : Int) = year := by omega
      simp only [hfour, Option.map_some, hyear]
  · next h =>
    split
    · have hyear : -(year.natAbs : Int) = year := by omega
      simp only [List.cons_append, readYear, hall, Option.map_some, hyear]
    · have hyear : (year.natAbs : Int) = year := by omega
      simp only [List.cons_append, readYear, hall, Option.map_some, hyear]

private theorem dropWhile_isBlank_yearChars (year : Int) (rest : List Char) :
    (Moment.yearChars year ++ rest).dropWhile isBlank = Moment.yearChars year ++ rest := by
  unfold Moment.yearChars
  split
  · exact dropWhile_isBlank_padDigits 4 _ rest
  · split
    · rfl
    · rfl

/-! ## What a clock shows -/

namespace Moment

/-- The moment that a clock shows. -/
def shown (m : Moment) : Moment := m.atClockSecond m.clockSecond

/-- The moment without its fraction of a second.  The leap second at the end of a minute is a second
of its own. -/
def wholeSecond (m : Moment) : Moment :=
  { m with nanosecond := if m.second = 59 then m.nanosecond / 1000000000 * 1000000000 else 0 }

/-- A leap second, if the moment lies in one, is at the end of a minute. -/
def LeapEndsMinute (m : Moment) : Prop := 1000000000 ≤ m.nanosecond → m.second = 59

instance (m : Moment) : Decidable m.LeapEndsMinute :=
  inferInstanceAs (Decidable (1000000000 ≤ m.nanosecond → m.second = 59))

variable {m : Moment}

/-- Otherwise it lies in a leap second within a minute. -/
theorem not_leapEndsMinute_iff :
    ¬m.LeapEndsMinute ↔ 1000000000 ≤ m.nanosecond ∧ m.second ≠ 59 := by
  simp [LeapEndsMinute]

/-- A clock has two digits for the second. -/
theorem clockSecond_le (h : m.Valid) : m.clockSecond ≤ 60 := by
  have hsecond := h.second_lt
  have hnano := h.nanosecond_lt
  unfold clockSecond
  omega

/-- A clock shows the moment without its fraction, if no leap second stands within a minute. -/
theorem shown_of_leapEndsMinute (h : m.Valid) (hleap : m.LeapEndsMinute) :
    m.shown = m.wholeSecond := by
  have hsecond := h.second_lt
  have hnano := h.nanosecond_lt
  unfold shown atClockSecond clockSecond wholeSecond
  by_cases hl : 1000000000 ≤ m.nanosecond
  · have h59 := hleap hl
    have hone : m.nanosecond / 1000000000 = 1 := by omega
    rw [hone, h59]
    rfl
  · have hzero : m.nanosecond / 1000000000 = 0 := by omega
    rw [hzero, if_neg (by omega)]
    simp

/-- A clock shows a leap second within a minute as the second behind it. -/
theorem shown_of_not_leapEndsMinute (h : m.Valid) (hleap : ¬m.LeapEndsMinute) :
    m.shown = { m with second := m.second + 1, nanosecond := 0 } := by
  obtain ⟨hl, h59⟩ := not_leapEndsMinute_iff.1 hleap
  have hnano := h.nanosecond_lt
  have hone : m.nanosecond / 1000000000 = 1 := by omega
  unfold shown atClockSecond clockSecond
  rw [hone, if_neg (by omega)]

/-- A clock shows the whole of a moment without a fraction, and of no other one. -/
theorem shown_eq_self_iff (h : m.Valid) : m.shown = m ↔ m.wholeSecond = m := by
  by_cases hleap : m.LeapEndsMinute
  · rw [shown_of_leapEndsMinute h hleap]
  · obtain ⟨hl, h59⟩ := not_leapEndsMinute_iff.1 hleap
    rw [shown_of_not_leapEndsMinute h hleap]
    constructor
    · intro hself
      have hsecond := congrArg Moment.second hself
      exact absurd hsecond (Nat.succ_ne_self m.second)
    · intro hself
      have hnano := congrArg Moment.nanosecond hself
      simp only [wholeSecond, if_neg h59] at hnano
      omega

/-- What a clock shows is a day and a time of day. -/
theorem valid_shown (h : m.Valid) : m.shown.Valid := by
  have hclock := clockSecond_le h
  unfold shown atClockSecond
  split
  · exact { h with second_lt := Nat.lt_succ_self 59, nanosecond_lt := by simp }
  · next hne =>
    exact { h with second_lt := Nat.lt_of_le_of_ne hclock hne, nanosecond_lt := by simp }

/-- A clock shows no fractions. -/
theorem wholeSecond_atClockSecond (m : Moment) (n : Nat) :
    (m.atClockSecond n).wholeSecond = m.atClockSecond n := by
  unfold atClockSecond
  split <;> simp [wholeSecond]

end Moment

/-! ## Patterns -/

private theorem endsDigits_cons {c : Char} (hc : c.isDigit = false) (rest : List Char) :
    EndsDigits (c :: rest) := by
  intro d hd
  cases hd
  exact hc

private theorem endsDigits_nil : EndsDigits [] := by
  intro c hc
  cases hc

theorem daysInMonth_le (year : Int) (month : Nat) : daysInMonth year month ≤ 31 := by
  unfold daysInMonth
  split
  · split <;> omega
  · split <;> omega

/-- The two digits of a field are read as the field, with blanks in front of them or none. -/
private theorem readField {n : Nat} {rest : List Char} (hn : n < 100) (hrest : EndsDigits rest) :
    readNumber 2 ((padDigits 2 n ++ rest).dropWhile isBlank) = some (n, rest) := by
  rw [dropWhile_isBlank_padDigits]
  exact readNumber_padDigits (by decide) hn (Nat.le_refl 2) hrest

namespace Moment

/-- The pattern with slashes does not fit: a hyphen follows the year. -/
private theorem readPattern_slashes (m start : Moment) (items : List PatternItem) :
    readPattern (.year :: .mark '/' :: items) start m.plainChars = none := by
  have hyear := readYear_yearChars m.year (endsDigits_cons (c := '-') rfl
    (padDigits 2 m.month ++ '-' :: padDigits 2 m.day ++ ' ' :: m.clockChars))
  simp only [plainChars, dateChars, List.append_assoc, List.cons_append] at hyear ⊢
  simp only [readPattern, PatternItem.read, dropWhile_isBlank_yearChars, hyear, Option.map_some,
    Option.bind_some]
  rfl

/-- The pattern with hyphens and a gap fits, and gives what a clock shows. -/
private theorem readPattern_hyphens {m : Moment} (h : m.Valid) :
    readPattern [.year, .mark '-', .month, .mark '-', .day, .gap, .hour, .mark ':', .minute,
        .mark ':', .second] .blank m.plainChars = some m.shown := by
  have hvalid := valid_shown h
  have hdays := daysInMonth_le m.year m.month
  have hday := h.day_le
  have hmonth := h.month_le
  have hhour := h.hour_lt
  have hminute := h.minute_lt
  have hsecond := clockSecond_le h
  have hhyphen : ∀ rest, EndsDigits ('-' :: rest) := endsDigits_cons rfl
  have hcolon : ∀ rest, EndsDigits (':' :: rest) := endsDigits_cons rfl
  have hspace : ∀ rest, EndsDigits (' ' :: rest) := endsDigits_cons rfl
  have hgap : ∀ rest, (' ' :: (padDigits 2 m.hour ++ rest)).dropWhile isBlank =
      padDigits 2 m.hour ++ rest := by
    intro rest
    rw [List.dropWhile_cons_of_pos (by decide), dropWhile_isBlank_padDigits]
  have hlast : readNumber 2 ((padDigits 2 m.clockSecond).dropWhile isBlank) =
      some (m.clockSecond, []) := by
    have hread := readField (n := m.clockSecond) (by omega) endsDigits_nil
    rwa [List.append_nil] at hread
  have hset : ∀ n, atClockSecond ⟨m.year, m.month, m.day, m.hour, m.minute, 0, 0⟩ n =
      m.atClockSecond n := fun _ => rfl
  simp only [plainChars, dateChars, clockChars, List.append_assoc, List.cons_append, readPattern,
    PatternItem.read, dropWhile_isBlank_yearChars, readYear_yearChars m.year (hhyphen _),
    readField (n := m.month) (by omega) (hhyphen _), readField (n := m.day) (by omega) (hspace _),
    hgap, readField (n := m.hour) (by omega) (hcolon _),
    readField (n := m.minute) (by omega) (hcolon _), hlast, Option.map_some, Option.bind_some,
    if_true, blank, hset]
  change (if _ && decide m.shown.Valid then some m.shown else none) = some m.shown
  simp [hvalid]

/-- The first character of a plain text is a sign or a digit. -/
private theorem dropWhile_isBlank_plainChars (m : Moment) :
    m.plainChars.dropWhile isBlank = m.plainChars := by
  have h := dropWhile_isBlank_yearChars m.year
    ('-' :: (padDigits 2 m.month ++ '-' :: padDigits 2 m.day) ++ ' ' :: m.clockChars)
  simpa only [plainChars, dateChars, List.append_assoc, List.cons_append] using h

/-- No blanks stand at the ends of a plain text. -/
private theorem trimBlanks_plainChars (m : Moment) : trimBlanks m.plainChars = m.plainChars := by
  obtain ⟨front, c, hfront⟩ : ∃ front c, padDigits 2 m.clockSecond = front ++ [c] :=
    ⟨_, _, (List.dropLast_concat_getLast (padDigits_ne_nil 2 m.clockSecond)).symm⟩
  have hc : isBlank c = false :=
    isBlank_of_isDigit (isDigit_of_mem_padDigits (hfront ▸ List.mem_append_right _ (by simp)))
  obtain ⟨text, htext⟩ : ∃ text, m.plainChars = text ++ [c] := by
    refine ⟨m.dateChars ++ ' ' :: (padDigits 2 m.hour ++ ':' :: (padDigits 2 m.minute ++
      ':' :: front)), ?_⟩
    simp only [plainChars, clockChars, hfront, List.append_assoc, List.cons_append]
  rw [trimBlanks, dropWhile_isBlank_plainChars, htext]
  simp [hc]

/-- **A moment is read back from its plain text** as a clock shows it. -/
theorem read?_plainChars {m : Moment} (h : m.Valid) : read? m.plainChars = some m.shown := by
  rw [read?, trimBlanks_plainChars, dateTimePatterns]
  simp only [List.cons_append, List.findSome?_cons, readPattern_slashes, readPattern_hyphens h]

/-- No item of a pattern leaves a fraction behind. -/
private theorem wholeSecond_of_readItem {item : PatternItem} {m next : Moment}
    {cs rest : List Char} (hm : m.wholeSecond = m) (h : item.read m cs = some (next, rest)) :
    next.wholeSecond = next := by
  have hnano := congrArg Moment.nanosecond hm
  unfold PatternItem.read at h
  cases item with
  | second =>
      obtain ⟨read, _, hset⟩ := Option.map_eq_some_iff.1 h
      cases hset
      exact wholeSecond_atClockSecond m read.1
  | mark c =>
      dsimp only at h
      split at h
      · split at h
        · cases h
          exact hm
        · cases h
      · cases h
  | gap =>
      cases h
      exact hm
  | _ =>
      obtain ⟨_, _, hset⟩ := Option.map_eq_some_iff.1 h
      cases hset
      unfold wholeSecond at hnano ⊢
      exact congrArg _ hnano

private theorem wholeSecond_of_readPattern {items : List PatternItem} :
    ∀ {start m : Moment} {cs : List Char}, start.wholeSecond = start →
      readPattern items start cs = some m → m.wholeSecond = m := by
  induction items with
  | nil =>
      intro start m cs hstart h
      simp only [readPattern, Option.ite_none_right_eq_some, Option.some.injEq] at h
      rw [← h.2]
      exact hstart
  | cons item items ih =>
      intro start m cs hstart h
      simp only [readPattern, Option.bind_eq_some_iff] at h
      obtain ⟨⟨next, rest⟩, hread, h⟩ := h
      exact ih (wholeSecond_of_readItem hstart hread) h

/-- Nothing that is read has a fraction of a second. -/
theorem wholeSecond_of_read? {cs : List Char} {m : Moment} (h : read? cs = some m) :
    m.wholeSecond = m := by
  obtain ⟨items, _, h⟩ := List.exists_of_findSome?_eq_some h
  exact wholeSecond_of_readPattern rfl h

/-- A plain text does not close the literal that it stands in. -/
theorem not_mem_plainChars (m : Moment) : '#' ∉ m.plainChars := by
  have hdigits : ∀ width n, '#' ∉ padDigits width n := by
    intro width n h
    exact absurd (isDigit_of_mem_padDigits h) (by decide)
  have hyear : '#' ∉ yearChars m.year := by
    unfold yearChars
    split
    · exact hdigits 4 _
    · split <;> simp [hdigits]
  simp [plainChars, dateChars, clockChars, hyear, hdigits]

end Moment

/-- The text of the literal is one region. -/
private theorem scanRegion_moment {m : Moment} (h : m.Valid) :
    scanRegion '#' (m.plainChars ++ ['#']) = ⟨'#' :: (m.plainChars ++ ['#']), [],
      .ok (.literal (.moment m.shown))⟩ := by
  have hsym : scanSymbol '#' (m.plainChars ++ ['#']) = none := scanSymbol_eq_none rfl _
  have hdelimited : scanRegion '#' (m.plainChars ++ ['#']) =
      scanDelimited '#' '#' momentMeaning (m.plainChars ++ ['#']) := by
    simp [scanRegion, hsym]
  rw [hdelimited, scanDelimited_of_not_mem m.not_mem_plainChars, momentMeaning,
    Moment.read?_plainChars h]

/-- The literal of a moment is read back from its text as a clock shows it. -/
theorem carve_moment {m : Moment} (h : m.Valid) :
    carve (Literal.moment m).chars = some [.literal (.moment m.shown)] := by
  rw [Literal.chars, carve_of_scan (by decide) (scanRegion_moment h), carve_nil]
  rfl

/-- The text of the literal is one token, which takes up the whole text. -/
theorem Moment.tokenize_shown {m : Moment} (h : m.Valid) :
    tokenize (Expr.literal (.moment m)).text = .ok [⟨.literal (.moment m.shown), 0,
      (Expr.literal (.moment m)).text.utf8ByteSize⟩] := by
  have hsize : (Expr.literal (.moment m)).text.utf8ByteSize =
      byteSize ('#' :: (m.plainChars ++ ['#'])) := utf8ByteSize_ofList _
  rw [hsize]
  exact tokenize_of_scan (by decide) (scanRegion_moment h)

/-- **The text of a moment denotes it**, but for its fraction of a second.  As a literal it is one
token, which takes up the whole text, for all days from year -262143 to year 262142 and for the leap
seconds at the end of a minute; a leap second within a minute is taken for the second behind it.
Between the number signs stands what is read back: the moment itself, if it has no fraction, and
never otherwise. -/
theorem Moment.tokenize_text {m : Moment} (h : m.Valid) :
    (m.LeapEndsMinute → tokenize (Expr.literal (.moment m)).text =
      .ok [⟨.literal (.moment m.wholeSecond), 0,
        (Expr.literal (.moment m)).text.utf8ByteSize⟩]) ∧
    (¬m.LeapEndsMinute → tokenize (Expr.literal (.moment m)).text =
      .ok [⟨.literal (.moment { m with second := m.second + 1, nanosecond := 0 }), 0,
        (Expr.literal (.moment m)).text.utf8ByteSize⟩]) ∧
    (read? m.plainChars = some m ↔ m.wholeSecond = m) := by
  refine ⟨fun hleap => ?_, fun hleap => ?_, ?_⟩
  · rw [tokenize_shown h, shown_of_leapEndsMinute h hleap]
  · rw [tokenize_shown h, shown_of_not_leapEndsMinute h hleap]
  · rw [read?_plainChars h, Option.some.injEq]
    exact shown_eq_self_iff h

/-- Half a leap second into the last minute of the first year, a leap day of a long year, and a leap
second within a minute. -/
theorem Moment.tokenize_text_leap :
    let first : Moment := ⟨-262143, 12, 31, 23, 59, 59, 1500000000⟩
    let leapDay : Moment := ⟨10000, 2, 29, 0, 0, 0, 0⟩
    let within : Moment := ⟨2024, 1, 31, 23, 56, 4, 1333333333⟩
    (first.Valid ∧ first.LeapEndsMinute ∧ leapDay.Valid ∧ leapDay.wholeSecond = leapDay ∧
      within.Valid ∧ ¬within.LeapEndsMinute) ∧
    tokenize "#-262143-12-31 23:59:60#" =
      .ok [⟨.literal (.moment { first with nanosecond := 1000000000 }), 0, 24⟩] ∧
    tokenize "#2024-01-31 23:56:05#" =
      .ok [⟨.literal (.moment { within with second := 5, nanosecond := 0 }), 0, 21⟩] ∧
    read? "+10000-02-29 00:00:00".toList = some leapDay := by
  intro first leapDay within
  have hfirst : first.Valid := by decide
  have hends : first.LeapEndsMinute := by decide
  have hday : leapDay.Valid := by decide
  have hwithin : within.Valid := by decide
  have hstrange : ¬within.LeapEndsMinute := by decide
  have htext : (Expr.literal (.moment first)).text = "#-262143-12-31 23:59:60#" := by
    decide +kernel
  have hwhole : first.wholeSecond = { first with nanosecond := 1000000000 } := by decide
  have hbehind : (Expr.literal (.moment within)).text = "#2024-01-31 23:56:05#" := by
    decide +kernel
  have hchars : leapDay.plainChars = "+10000-02-29 00:00:00".toList := by decide +kernel
  refine ⟨⟨hfirst, hends, hday, rfl, hwithin, hstrange⟩, ?_, ?_, ?_⟩
  · have htokens := (tokenize_text hfirst).1 hends
    rw [htext, hwhole] at htokens
    exact htokens
  · have htokens := (tokenize_text hwithin).2.1 hstrange
    rw [hbehind] at htokens
    exact htokens
  · rw [← hchars]
    exact (tokenize_text hday).2.2.2 rfl

/-- A third of a leap second behind second 4 is written as second 5, and taken for it: whatever is
left of the nanoseconds, that is not the moment without its fraction. -/
theorem Moment.not_tokenize_text_withinMinute :
    let within : Moment := ⟨2024, 1, 31, 23, 56, 4, 1333333333⟩
    within.Valid ∧ (Expr.literal (.moment within)).text = "#2024-01-31 23:56:05#" ∧
      ∀ left stop, tokenize (Expr.literal (.moment within)).text ≠
        .ok [⟨.literal (.moment { within with nanosecond := left }), 0, stop⟩] := by
  intro within
  have hvalid : within.Valid := by decide
  refine ⟨hvalid, by decide +kernel, fun left stop h => ?_⟩
  rw [tokenize_shown hvalid] at h
  simp only [Except.ok.injEq, List.cons.injEq, Located.mk.injEq, Token.literal.injEq,
    Literal.moment.injEq] at h
  have hsecond : within.shown.second = 4 := congrArg Moment.second h.1.1
  exact absurd hsecond (by decide)

end FormulaEngine
