import FormulaEngine.Number.FloatText
import FormulaEngine.Text.Hex

/-!
# JSON

JSON trees and their text.  Integers and floats are kept apart.  The text is either compact, or
spread over lines with two blanks for each level of nesting; empty brackets stay together.
-/

namespace FormulaEngine

/-- A JSON tree. -/
inductive Json where
  | null
  | boolean (b : Bool)
  | integer (i : Int)
  | float (x : Float)
  | string (s : String)
  | array (items : List Json)
  | object (members : List (String × Json))
deriving Inhabited

namespace Json

/-- The characters that stand for a character inside a JSON string: quotes, backslashes and
control characters are escaped. -/
def escape (c : Char) : List Char :=
  if c = '"' then ['\\', '"']
  else if c = '\\' then ['\\', '\\']
  else if c = '\x08' then ['\\', 'b']
  else if c = '\x0c' then ['\\', 'f']
  else if c = '\n' then ['\\', 'n']
  else if c = '\r' then ['\\', 'r']
  else if c = '\t' then ['\\', 't']
  else if c.toNat < 32 then
    ['\\', 'u', '0', '0', hexDigitChar (c.toNat / 16), hexDigitChar (c.toNat % 16)]
  else [c]

/-- The characters of a JSON string. -/
def stringChars (s : String) : List Char := '"' :: (s.toList.flatMap escape ++ ['"'])

/-- The characters of a float; those that are not finite have none of their own. -/
def floatChars (x : Float) : List Char :=
  if x.isFinite then FloatLayout.json.chars x else "null".toList

mutual

/-- The characters of a tree on one line, without blanks. -/
def compact : Json → List Char
  | null => "null".toList
  | boolean b => if b then "true".toList else "false".toList
  | integer i => intDigits i
  | float x => floatChars x
  | string s => stringChars s
  | array items => '[' :: (compactItems items ++ [']'])
  | object members => '\x7b' :: (compactMembers members ++ ['\x7d'])

/-- The characters of items with commas between them. -/
def compactItems : List Json → List Char
  | [] => []
  | [j] => compact j
  | j :: rest => compact j ++ ',' :: compactItems rest

/-- The characters of members with commas between them. -/
def compactMembers : List (String × Json) → List Char
  | [] => []
  | [(name, j)] => stringChars name ++ ':' :: compact j
  | (name, j) :: rest => stringChars name ++ ':' :: (compact j ++ ',' :: compactMembers rest)

end

/-- A new line at a level of nesting. -/
def newline (level : Nat) : List Char := '\n' :: List.replicate (2 * level) ' '

mutual

/-- The characters of a tree that stands at a level of nesting, spread over lines. -/
def pretty (level : Nat) : Json → List Char
  | array [] => ['[', ']']
  | array (j :: rest) =>
    '[' :: (newline (level + 1) ++ pretty (level + 1) j ++ prettyItems (level + 1) rest ++
      newline level ++ [']'])
  | object [] => ['\x7b', '\x7d']
  | object ((name, j) :: rest) =>
    '\x7b' :: (newline (level + 1) ++ stringChars name ++ ':' :: ' ' :: pretty (level + 1) j ++
      prettyMembers (level + 1) rest ++ newline level ++ ['\x7d'])
  | j => compact j

/-- The characters of further items, each on its line. -/
def prettyItems (level : Nat) : List Json → List Char
  | [] => []
  | j :: rest => ',' :: (newline level ++ pretty level j ++ prettyItems level rest)

/-- The characters of further members, each on its line. -/
def prettyMembers (level : Nat) : List (String × Json) → List Char
  | [] => []
  | (name, j) :: rest =>
    ',' :: (newline level ++ stringChars name ++ ':' :: ' ' :: pretty level j ++
      prettyMembers level rest)

end

/-- The text of a tree on one line. -/
def text (j : Json) : String := String.ofList j.compact

/-- The text of a tree over several lines. -/
def prettyText (j : Json) : String := String.ofList (j.pretty 0)

end Json

end FormulaEngine
