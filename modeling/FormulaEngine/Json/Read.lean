import FormulaEngine.Json.Basic

/-!
# Reading JSON

A reader for JSON texts.  Arrays and objects may be nested 127 deep.  A number without a point
and an exponent is an integer if it fits into 64 bits, with or without a sign; `-0` is a float.
A float is made from at most 64 bits of its digits: those that no longer fit count as zeros
before the point and are dropped behind it.  The digits are then multiplied or divided by one
power of ten, so that the result is not always the float next to the decimal.

* `Json.read?` -- the tree of a text.
-/

namespace FormulaEngine

namespace Json

/-- The first natural number that is too large for the digits of a number. -/
def digitCapacity : Nat := 2 ^ 64

/-- Take digits into a number as long as they fit; the digits that do not fit are left. -/
def absorb (n : Nat) : List Char → Nat × List Char
  | [] => (n, [])
  | c :: rest =>
    if 10 * n + digitValue c < digitCapacity then absorb (10 * n + digitValue c) rest
    else (n, c :: rest)

/-- The float nearest to a power of ten. -/
def tenPower (n : Nat) : Float := (⟨1, n⟩ : Scientific).toFloat

/-- A float divided by ten to a power, in steps of at most 308. -/
def divideByTen (x : Float) (n : Nat) : Float :=
  if n ≤ 308 then x / tenPower n
  else if x == 0 then x
  else divideByTen (x / tenPower 308) (n - 308)
termination_by n

/-- A number times a power of ten, unless that is too large. -/
def scaleByTen (n : Nat) (exponent : Int) : Option Float :=
  let x := n.toFloat
  if exponent < 0 then some (divideByTen x exponent.natAbs)
  else if exponent ≤ 308 then
    let y := x * tenPower exponent.natAbs
    if y.isInf then none else some y
  else if n = 0 then some x
  else none

/-- A point and at least one digit, or nothing. -/
def readFraction (cs : List Char) : Option (List Char × List Char) :=
  match cs with
  | '.' :: rest =>
    if (rest.takeWhile Char.isDigit).isEmpty then none
    else some (rest.takeWhile Char.isDigit, rest.dropWhile Char.isDigit)
  | _ => some ([], cs)

/-- An exponent with at least one digit, or nothing. -/
def readExponent (cs : List Char) : Option (Option Int × List Char) :=
  match cs with
  | mark :: rest =>
    if mark = 'e' ∨ mark = 'E' then
      let (sign, body) := Numeral.scanSign rest
      let digits := body.takeWhile Char.isDigit
      if digits.isEmpty then none
      else
        let n : Int := ofDigits digits
        some (some (if sign = ['-'] then -n else n), body.dropWhile Char.isDigit)
    else some (none, cs)
  | [] => some (none, cs)

/-- A number without a point and an exponent. -/
def wholeNumber (negative : Bool) (n : Nat) : Json :=
  if negative then
    if 0 < n ∧ n ≤ 2 ^ 63 then integer (-n) else float (-n.toFloat)
  else integer n

/-- A number and the text behind it. -/
def readNumber (cs : List Char) : Option (Json × List Char) := do
  let (negative, body) :=
    match cs with
    | '-' :: rest => (true, rest)
    | _ => (false, cs)
  let whole := body.takeWhile Char.isDigit
  if whole.isEmpty || (whole.head? == some '0' && whole.length != 1) then none
  let (n, unfit) := absorb 0 whole
  let (fraction, cs) ← readFraction (body.dropWhile Char.isDigit)
  let (exponent, cs) ← readExponent cs
  if unfit.isEmpty && fraction.isEmpty && exponent.isNone then
    return (wholeNumber negative n, cs)
  else
    let (n, dropped) := absorb n fraction
    let places : Int := fraction.length - dropped.length
    let x ← scaleByTen n (exponent.getD 0 + unfit.length - places)
    return (float (if negative then -x else x), cs)

/-- The character of a code unit after `\u`, with the low half of a pair behind a high one; and
how many characters it takes from `cs`. -/
def readUnits (cs : List Char) : Option (Char × Nat) := do
  let n ← fourHex? cs
  if 0xD800 ≤ n ∧ n < 0xDC00 then
    match cs.drop 4 with
    | '\\' :: 'u' :: rest =>
      let low ← fourHex? rest
      if 0xDC00 ≤ low ∧ low < 0xE000 then
        let c ← charOfCode? (0x10000 + 0x400 * (n - 0xD800) + (low - 0xDC00))
        return (c, 10)
      else none
    | _ => none
  else
    let c ← charOfCode? n
    return (c, 4)

/-- The character that `c` and what follows it stand for, and how many characters it takes from
what follows. -/
def readChar (c : Char) (cs : List Char) : Option (Char × Nat) :=
  if c = '\\' then
    match cs with
    | [] => none
    | e :: rest =>
      match e with
      | '"' => some ('"', 1)
      | '\\' => some ('\\', 1)
      | '/' => some ('/', 1)
      | 'b' => some ('\x08', 1)
      | 'f' => some ('\x0c', 1)
      | 'n' => some ('\n', 1)
      | 'r' => some ('\r', 1)
      | 't' => some ('\t', 1)
      | 'u' => (readUnits rest).map fun (c, count) => (c, count + 1)
      | _ => none
  else if c.toNat < 32 then none
  else some (c, 0)

/-- The characters of a string up to its closing quote, and the text behind it. -/
def readString : List Char → Option (List Char × List Char)
  | [] => none
  | c :: cs =>
    if c = '"' then some ([], cs)
    else
      match readChar c cs with
      | none => none
      | some (d, count) => (readString (cs.drop count)).map fun (ds, rest) => (d :: ds, rest)
termination_by cs => cs.length
decreasing_by
  simp only [List.length_drop, List.length_cons]
  omega

/-- The text without the blanks at its start. -/
def skipBlanks (cs : List Char) : List Char :=
  cs.dropWhile fun c => c == ' ' || c == '\n' || c == '\t' || c == '\r'

/-- The text behind a word. -/
def readWord (word : String) (cs : List Char) : Option (List Char) :=
  if word.toList.isPrefixOf cs then some (cs.drop word.length) else none

/-- The items of an array up to its closing bracket, at most as many as the bound says. -/
def readItems (value : List Char → Option (Json × List Char)) :
    Nat → List Char → Option (List Json × List Char)
  | 0, _ => none
  | bound + 1, cs => do
    let (j, cs) ← value cs
    match skipBlanks cs with
    | ',' :: cs =>
      let (js, cs) ← readItems value bound cs
      return (j :: js, cs)
    | ']' :: cs => return ([j], cs)
    | _ => none

/-- The members of an object up to its closing brace, at most as many as the bound says. -/
def readMembers (value : List Char → Option (Json × List Char)) :
    Nat → List Char → Option (List (String × Json) × List Char)
  | 0, _ => none
  | bound + 1, cs =>
    match skipBlanks cs with
    | '"' :: cs => do
      let (name, cs) ← readString cs
      match skipBlanks cs with
      | ':' :: cs =>
        let (j, cs) ← value cs
        match skipBlanks cs with
        | ',' :: cs =>
          let (members, cs) ← readMembers value bound cs
          return ((String.ofList name, j) :: members, cs)
        | '\x7d' :: cs => return ([(String.ofList name, j)], cs)
        | _ => none
      | _ => none
    | _ => none

/-- An array or an object whose parts are read by `value`, or a tree without parts. -/
def readWith (value : List Char → Option (Json × List Char)) (cs : List Char) :
    Option (Json × List Char) :=
  match skipBlanks cs with
  | [] => none
  | c :: rest =>
    if c = '[' then
      match skipBlanks rest with
      | ']' :: rest => some (array [], rest)
      | rest => (readItems value rest.length rest).map fun (js, rest) => (array js, rest)
    else if c = '\x7b' then
      match skipBlanks rest with
      | '\x7d' :: rest => some (object [], rest)
      | rest =>
        (readMembers value rest.length rest).map fun (members, rest) => (object members, rest)
    else if c = '"' then
      (readString rest).map fun (s, rest) => (string (String.ofList s), rest)
    else if c = 't' then (readWord "true" (c :: rest)).map fun rest => (boolean true, rest)
    else if c = 'f' then (readWord "false" (c :: rest)).map fun rest => (boolean false, rest)
    else if c = 'n' then (readWord "null" (c :: rest)).map fun rest => (null, rest)
    else readNumber (c :: rest)

/-- A tree in which arrays and objects are nested at most so deep, and the text behind it. -/
def readNested : Nat → List Char → Option (Json × List Char)
  | 0, cs =>
    match skipBlanks cs with
    | '[' :: _ => none
    | '\x7b' :: _ => none
    | cs => readWith (fun _ => none) cs
  | levels + 1, cs => readWith (readNested levels) cs

/-- The depth to which arrays and objects may be nested. -/
def depthLimit : Nat := 127

/-- The tree of a text. -/
def read? (text : String) : Option Json := do
  let (j, cs) ← readNested depthLimit text.toList
  if (skipBlanks cs).isEmpty then some j else none

end Json

end FormulaEngine
