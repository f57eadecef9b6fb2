import FormulaEngine.Number.Numeral

/-!
# Floats as text

A float is written with the digits of its shortest decimal.  What remains is the layout: which
decimal exponents are written out in positions, whether a whole number keeps `.0`, whether a
positive exponent has a plus sign, and how ties are settled.  A `FloatLayout` holds those
decisions; the three layouts of this library stand here side by side.

Reading accepts what the layouts write, and the usual variations.
-/

namespace FormulaEngine

/-- The decisions of a text format for floats. -/
structure FloatLayout where
  /-- whether a first digit at this decimal exponent is written in positions -/
  positional : Int → Bool
  /-- whether a whole number written in positions ends in `.0` -/
  keepPoint : Bool
  /-- whether a positive exponent has a plus sign -/
  plusSign : Bool
  tie : TieRule

namespace FloatLayout

/-- Floats in formulas: positions from `1e-4` up to but not including `1e16`, always with a point
or an exponent, so that the text is a float numeral. -/
def literal : FloatLayout where
  positional e := decide (-4 ≤ e) && decide (e ≤ 15)
  keepPoint := true
  plusSign := false
  tie := .away

/-- Floats inside other text: always in positions, whole numbers without a point. -/
def plain : FloatLayout where
  positional _ := true
  keepPoint := false
  plusSign := false
  tie := .away

/-- Floats in JSON: positions from `1e-5` up to but not including `1e16`, a plus sign before
positive exponents, and ties to the even digit. -/
def json : FloatLayout where
  positional e := decide (-5 ≤ e) && decide (e ≤ 15)
  keepPoint := true
  plusSign := true
  tie := .even

/-- Digits laid out around the decimal point; `lead` is the exponent of the first one. -/
def inPositions (layout : FloatLayout) (digits : List Char) (lead : Int) : List Char :=
  if lead < 0 then
    '0' :: '.' :: (List.replicate (-lead - 1).toNat '0' ++ digits)
  else
    let count := lead.toNat + 1
    let whole := digits.take count ++ List.replicate (count - digits.length) '0'
    match digits.drop count with
    | [] => if layout.keepPoint then whole ++ ['.', '0'] else whole
    | fraction => whole ++ '.' :: fraction

/-- Digits with a point after the first one, and an exponent. -/
def withExponent (layout : FloatLayout) (digits : List Char) (lead : Int) : List Char :=
  let fraction := digits.drop 1
  digits.take 1 ++ (if fraction.isEmpty then [] else '.' :: fraction) ++ 'e' ::
    ((if layout.plusSign && decide (0 ≤ lead) then ['+'] else []) ++ intDigits lead)

/-- The characters of a decimal in a layout. -/
def decimalChars (layout : FloatLayout) (d : Scientific) : List Char :=
  let digits := digitsOf d.coefficient
  let lead := d.exponent + (digits.length : Int) - 1
  if layout.positional lead then layout.inPositions digits lead
  else layout.withExponent digits lead

/-- The characters of a float in a layout. -/
def chars (layout : FloatLayout) (x : Float) : List Char :=
  if x.isNaN then ['N', 'a', 'N']
  else
    (if signBit x then ['-'] else []) ++
      if x.isInf then ['i', 'n', 'f']
      else if x == 0 then (if layout.keepPoint then ['0', '.', '0'] else ['0'])
      else layout.decimalChars (shortest layout.tie x.abs)

/-- The text of a float in a layout. -/
def write (layout : FloatLayout) (x : Float) : String := String.ofList (layout.chars x)

end FloatLayout

/-- The decimal that an unsigned text denotes; the digits of one side of the point may be
missing. -/
def readScientific (cs : List Char) : Option Scientific :=
  let whole := cs.takeWhile Char.isDigit
  let (fraction, afterFraction) :=
    match cs.dropWhile Char.isDigit with
    | '.' :: rest => (rest.takeWhile Char.isDigit, rest.dropWhile Char.isDigit)
    | rest => ([], rest)
  match Numeral.scanExponent afterFraction with
  | (exponent, []) =>
    if whole.isEmpty && fraction.isEmpty then none
    else some (Numeral.value ⟨whole, fraction, exponent⟩)
  | _ => none

/-- Read a signed text with `magnitude` for the decimals, the infinities and `NaN` included. -/
def readSigned (magnitude : Scientific → Float) (s : String) : Option Float :=
  let (sign, body) := Numeral.scanSign s.toList
  let unsigned :=
    match String.ofList (body.map Char.toLower) with
    | "inf" | "infinity" => some (1.0 / 0.0)
    | "nan" => some (0.0 / 0.0)
    | _ => (readScientific body).map magnitude
  unsigned.map fun x => if sign = ['-'] then -x else x

/-- The float that a text denotes. -/
def readFloat (s : String) : Option Float := readSigned Scientific.toFloat s

/-- The float that a text denotes when it is first rounded to single precision. -/
def readSingle (s : String) : Option Float :=
  readSigned (fun d =>
    (Float32.ofScientific d.coefficient (d.exponent < 0) d.exponent.natAbs).toFloat) s

end FormulaEngine
