import FormulaEngine.Number.Digits
import FormulaEngine.Text.Blank
import FormulaEngine.Time.Moment

/-!
# Moments as text

Moments are written in two forms: the exact one, `2024-01-31T10:30:15.250`, with as many groups
of three fraction digits as are needed, and the plain one, `2024-01-31 10:30:15`, without a
fraction.  A year outside 0 to 9999 has a sign.

Moments are read by a list of patterns, of which the first that fits the whole text wins.

* `dateTimePatterns`, `datePatterns` -- the patterns in their order;
* `Moment.valid_of_read?` -- what is read is a day of the calendar and a time of day.
-/

namespace FormulaEngine

namespace Moment

/-- The characters of a year: four digits, more if needed; a sign outside 0 to 9999. -/
def yearChars (year : Int) : List Char :=
  if 0 ≤ year ∧ year ≤ 9999 then padDigits 4 year.natAbs
  else (if year < 0 then '-' else '+') :: padDigits 4 year.natAbs

/-- The characters of the day. -/
def dateChars (m : Moment) : List Char :=
  yearChars m.year ++ '-' :: (padDigits 2 m.month ++ '-' :: padDigits 2 m.day)

/-- The characters of the time of day, without a fraction. -/
def clockChars (m : Moment) : List Char :=
  padDigits 2 m.hour ++ ':' :: (padDigits 2 m.minute ++ ':' :: padDigits 2 m.clockSecond)

/-- The characters of the fraction of a second: none, or three, six or nine digits. -/
def fractionChars (m : Moment) : List Char :=
  let fraction := m.nanosecond % 1000000000
  if fraction = 0 then []
  else if fraction % 1000000 = 0 then '.' :: padDigits 3 (fraction / 1000000)
  else if fraction % 1000 = 0 then '.' :: padDigits 6 (fraction / 1000)
  else '.' :: padDigits 9 fraction

/-- Day and time with a space between, the fraction dropped. -/
def plainChars (m : Moment) : List Char := m.dateChars ++ ' ' :: m.clockChars

/-- Day and time with a space between, the fraction dropped. -/
def plainText (m : Moment) : String := String.ofList m.plainChars

/-- Day and time with a `T` between, and the fraction. -/
def exactText (m : Moment) : String :=
  String.ofList (m.dateChars ++ 'T' :: (m.clockChars ++ m.fractionChars))

/-- Day and time with a space between, and the fraction. -/
def spacedText (m : Moment) : String :=
  String.ofList (m.plainChars ++ m.fractionChars)

end Moment

/-- One item of a pattern for moments. -/
inductive PatternItem where
  | year
  | month
  | day
  | hour
  | minute
  | second
  | mark (c : Char)
  | gap
deriving DecidableEq, Repr

/-- The patterns of a day with a time of day. -/
def dateTimePatterns : List (List PatternItem) :=
  [[.year, .mark '/', .month, .mark '/', .day, .gap, .hour, .mark ':', .minute, .mark ':', .second],
   [.year, .mark '-', .month, .mark '-', .day, .gap, .hour, .mark ':', .minute, .mark ':', .second],
   [.year, .mark '-', .month, .mark '-', .day, .mark 'T', .hour, .mark ':', .minute, .mark ':',
    .second],
   [.year, .mark '/', .month, .mark '/', .day, .gap, .hour, .mark ':', .minute],
   [.year, .mark '-', .month, .mark '-', .day, .gap, .hour, .mark ':', .minute]]

/-- The patterns of a day alone. -/
def datePatterns : List (List PatternItem) :=
  [[.year, .mark '/', .month, .mark '/', .day],
   [.year, .mark '-', .month, .mark '-', .day],
   [.month, .mark '/', .day, .mark '/', .year]]

/-- Midnight of the first day of year zero, the fields before anything is read. -/
def Moment.blank : Moment := ⟨0, 1, 1, 0, 0, 0, 0⟩

/-- A number of one digit up to `most` digits. -/
def readNumber (most : Nat) (cs : List Char) : Option (Nat × List Char) :=
  match (cs.take most).takeWhile Char.isDigit with
  | [] => none
  | digits => some (ofDigits digits, cs.drop digits.length)

/-- A year: up to four digits, or a sign and any number of digits. -/
def readYear (cs : List Char) : Option (Int × List Char) :=
  match cs with
  | '-' :: rest => (readNumber rest.length rest).map fun (n, rest) => (-(n : Int), rest)
  | '+' :: rest => (readNumber rest.length rest).map fun (n, rest) => ((n : Int), rest)
  | _ => (readNumber 4 cs).map fun (n, rest) => ((n : Int), rest)

/-- Read one item of a pattern.  Blanks are passed over before a number and in a gap. -/
def PatternItem.read (item : PatternItem) (m : Moment) (cs : List Char) :
    Option (Moment × List Char) :=
  let ahead := cs.dropWhile isBlank
  match item with
  | .year => (readYear ahead).map fun (n, rest) => ({ m with year := n }, rest)
  | .month => (readNumber 2 ahead).map fun (n, rest) => ({ m with month := n }, rest)
  | .day => (readNumber 2 ahead).map fun (n, rest) => ({ m with day := n }, rest)
  | .hour => (readNumber 2 ahead).map fun (n, rest) => ({ m with hour := n }, rest)
  | .minute => (readNumber 2 ahead).map fun (n, rest) => ({ m with minute := n }, rest)
  | .second => (readNumber 2 ahead).map fun (n, rest) => (m.atClockSecond n, rest)
  | .mark c =>
    match cs with
    | d :: rest => if c = d then some (m, rest) else none
    | [] => none
  | .gap => some (m, ahead)

/-- Read a whole text by a pattern. -/
def readPattern (items : List PatternItem) (m : Moment) (cs : List Char) : Option Moment :=
  match items with
  | [] => if cs.isEmpty && decide m.Valid then some m else none
  | item :: items => (item.read m cs).bind fun (m, rest) => readPattern items m rest

/-- The moment that a text denotes; blanks at its ends do not count. -/
def Moment.read? (cs : List Char) : Option Moment :=
  (dateTimePatterns ++ datePatterns).findSome? fun items =>
    readPattern items .blank (trimBlanks cs)

private theorem valid_of_readPattern {items : List PatternItem} :
    ∀ {m : Moment} {cs : List Char} {r : Moment}, readPattern items m cs = some r → r.Valid := by
  induction items with
  | nil =>
    intro m cs r h
    simp only [readPattern, Bool.and_eq_true, decide_eq_true_eq, Option.ite_none_right_eq_some,
      Option.some.injEq] at h
    exact h.2 ▸ h.1.2
  | cons item items ih =>
    intro m cs r h
    simp only [readPattern, Option.bind_eq_some_iff] at h
    obtain ⟨⟨m', rest⟩, _, h⟩ := h
    exact ih h

/-- **Only real days are read.**  A moment that is read names a day and a time of day. -/
theorem Moment.valid_of_read? {cs : List Char} {m : Moment} (h : Moment.read? cs = some m) :
    m.Valid := by
  obtain ⟨items, _, h⟩ := List.exists_of_findSome?_eq_some h
  exact valid_of_readPattern h

/-- The moment of an exact text: the day alone, or the day, a `T`, the time of day, and possibly a
fraction, of which nine digits count. -/
def Moment.readExact? (cs : List Char) : Option Moment :=
  let date := [.year, .mark '-', .month, .mark '-', .day]
  let clock := [.mark 'T', .hour, .mark ':', .minute, .mark ':', .second]
  let fraction := (cs.dropWhile (· != '.')).drop 1
  let counted := fraction.take 9
  let m :=
    (readPattern (date ++ clock) .blank (cs.takeWhile (· != '.'))).or
      (readPattern date .blank (cs.takeWhile (· != '.')))
  if fraction.all Char.isDigit then
    m.map fun m =>
      { m with nanosecond := m.nanosecond + ofDigits counted * 10 ^ (9 - counted.length) }
  else none

end FormulaEngine
