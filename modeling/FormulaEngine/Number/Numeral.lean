import FormulaEngine.Number.Shortest

/-!
# Numerals

The unsigned numerals of the formula language:

    digits* [ '.' digits+ ] [ ('e' | 'E') ['+' | '-'] digits+ ]

A numeral takes as much text as fits; a point or an exponent letter without its digits is
left where it stands.

* `chars_scan` -- scanning splits the text: the numeral's own characters, then the rest.
-/

namespace FormulaEngine

/-- The exponent part of a numeral as it is written. -/
structure ExponentPart where
  mark : Char
  sign : List Char
  digits : List Char
deriving DecidableEq, Repr

/-- A numeral as it is written; an absent fraction has no digits. -/
structure Numeral where
  whole : List Char
  fraction : List Char
  exponent : Option ExponentPart
deriving DecidableEq, Repr

namespace Numeral

/-- The characters of a fraction: a point before the digits, if there are digits. -/
def fractionChars : List Char → List Char
  | [] => []
  | digits => '.' :: digits

/-- The characters of an exponent part, if there is one. -/
def exponentChars : Option ExponentPart → List Char
  | none => []
  | some e => e.mark :: (e.sign ++ e.digits)

/-- The characters of a numeral. -/
def chars (n : Numeral) : List Char :=
  n.whole ++ (fractionChars n.fraction ++ exponentChars n.exponent)

/-- Whether a numeral denotes a float: it has a fraction or an exponent. -/
def isFloat (n : Numeral) : Bool := !n.fraction.isEmpty || n.exponent.isSome

/-- The decimal that a numeral denotes. -/
def value (n : Numeral) : Scientific :=
  let power : Int :=
    match n.exponent with
    | none => 0
    | some e => if e.sign = ['-'] then -(ofDigits e.digits : Int) else ofDigits e.digits
  ⟨ofDigits (n.whole ++ n.fraction), power - n.fraction.length⟩

/-- A point and the digits after it, if there are any. -/
def scanFraction (cs : List Char) : List Char × List Char :=
  match cs with
  | '.' :: rest =>
    match rest.takeWhile Char.isDigit with
    | [] => ([], cs)
    | digits => (digits, rest.dropWhile Char.isDigit)
  | _ => ([], cs)

/-- At most one sign. -/
def scanSign (cs : List Char) : List Char × List Char :=
  match cs with
  | '+' :: rest => (['+'], rest)
  | '-' :: rest => (['-'], rest)
  | _ => ([], cs)

/-- An exponent letter with its sign and digits, if there are digits. -/
def scanExponent (cs : List Char) : Option ExponentPart × List Char :=
  match cs with
  | mark :: rest =>
    if mark = 'e' ∨ mark = 'E' then
      let (sign, body) := scanSign rest
      match body.takeWhile Char.isDigit with
      | [] => (none, cs)
      | digits => (some ⟨mark, sign, digits⟩, body.dropWhile Char.isDigit)
    else (none, cs)
  | [] => (none, cs)

/-- The numeral at the head of a text and what follows it. -/
def scan (cs : List Char) : Numeral × List Char :=
  let whole := cs.takeWhile Char.isDigit
  let (fraction, afterFraction) := scanFraction (cs.dropWhile Char.isDigit)
  let (exponent, rest) := scanExponent afterFraction
  (⟨whole, fraction, exponent⟩, rest)

private theorem chars_scanFraction (cs : List Char) :
    fractionChars (scanFraction cs).1 ++ (scanFraction cs).2 = cs := by
  unfold scanFraction
  split
  · next rest =>
    have := List.takeWhile_append_dropWhile (p := Char.isDigit) (l := rest)
    split
    · rfl
    · cases hd : rest.takeWhile Char.isDigit with
      | nil => contradiction
      | cons d ds => rw [hd] at this; simpa [fractionChars] using this
  · rfl

private theorem append_scanSign (cs : List Char) :
    (scanSign cs).1 ++ (scanSign cs).2 = cs := by
  unfold scanSign
  split <;> rfl

private theorem chars_scanExponent (cs : List Char) :
    exponentChars (scanExponent cs).1 ++ (scanExponent cs).2 = cs := by
  cases cs with
  | nil => rfl
  | cons mark rest =>
    have hs := append_scanSign rest
    have hd := List.takeWhile_append_dropWhile (p := Char.isDigit) (l := (scanSign rest).2)
    simp only [scanExponent]
    split
    · split
      · rfl
      · simp only [exponentChars, List.cons_append, List.append_assoc, hd, hs]
    · rfl

/-- **Nothing is lost.**  The numeral's characters and the rest make up the text. -/
theorem chars_scan (cs : List Char) : (scan cs).1.chars ++ (scan cs).2 = cs := by
  have hw := List.takeWhile_append_dropWhile (p := Char.isDigit) (l := cs)
  have hf := chars_scanFraction (cs.dropWhile Char.isDigit)
  have he := chars_scanExponent (scanFraction (cs.dropWhile Char.isDigit)).2
  simp only [scan, chars, List.append_assoc, he, hf, hw]

end Numeral

end FormulaEngine
