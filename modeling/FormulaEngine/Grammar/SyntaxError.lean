import FormulaEngine.Grammar.Token

/-!
# Faults of a formula text

What can be wrong with the text of a formula, where it is wrong, and the words for it.
Positions are byte offsets into the text.
-/

namespace FormulaEngine

/-- The punctuation that a grammar rule asks for. -/
inductive Expectation where
  | colon
  | closing
  | commaOrClosing
deriving DecidableEq, Repr

/-- The words for what is asked for. -/
def Expectation.text : Expectation → String
  | .colon => "':'"
  | .closing => "')'"
  | .commaOrClosing => "',' or ')'"

/-- The levels of nesting that a formula may have. -/
def nestingLimit : Nat := 128

/-- What is wrong at a place of a text. -/
inductive Fault where
  /-- a token that cannot stand here -/
  | unexpected (token : Token)
  /-- punctuation is missing here -/
  | expected (what : Expectation)
  /-- the text ends too early -/
  | endOfInput
  /-- a character that begins no token -/
  | strayCharacter (c : Char)
  /-- digits that denote more than the largest integer -/
  | integerTooLarge (digits : List Char)
  /-- the inside of `#...#` is no moment -/
  | notADate (body : List Char)
  /-- the name `[]` -/
  | emptyName
  /-- an escape that stands for no character -/
  | badEscape (sequence : List Char)
  | unclosedString
  | unclosed (delimiter : Char)
  | nestedTooDeep
deriving DecidableEq

/-- A fault with the offset of the byte where it is found. -/
structure SyntaxError where
  fault : Fault
  position : Nat
deriving DecidableEq

namespace SyntaxError

/-- The same fault further on in the text. -/
def shift (e : SyntaxError) (offset : Nat) : SyntaxError :=
  { e with position := offset + e.position }

/-- The words for a fault. -/
def message (e : SyntaxError) : String :=
  let place := "at position " ++ toString e.position
  match e.fault with
  | .unexpected token => "Unexpected token '" ++ token.text ++ "' " ++ place
  | .expected what => "Expected " ++ what.text ++ " " ++ place
  | .endOfInput => "Unexpected end of input " ++ place
  | .strayCharacter c => "Invalid character '" ++ c.toString ++ "' " ++ place
  | .integerTooLarge digits => "Invalid integer literal " ++ place ++ ": " ++ String.ofList digits
  | .notADate body => "Invalid date literal " ++ place ++ ": " ++ String.ofList body
  | .emptyName => "Invalid identifier literal " ++ place ++ ": []"
  | .badEscape sequence => "Invalid escape sequence " ++ place ++ ": " ++ String.ofList sequence
  | .unclosedString => "Unclosed string literal starting " ++ place
  | .unclosed delimiter =>
    "Missing closing '" ++ delimiter.toString ++ "' for token starting " ++ place
  | .nestedTooDeep =>
    "Expression nested deeper than " ++ toString nestingLimit ++ " levels " ++ place

/-- The messages of several faults, one on each line. -/
def messages (errors : List SyntaxError) : String :=
  "\n".intercalate (errors.map message)

end SyntaxError

end FormulaEngine
