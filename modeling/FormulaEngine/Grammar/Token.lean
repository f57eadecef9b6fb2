import FormulaEngine.Operator
import FormulaEngine.Value.Literal

/-!
# Tokens

The words of the formula language: literals, names, and symbols.  Five words that look like
names are keywords, whatever the case of their letters: two of them are boolean literals and
three spell operators.

* `Symbol.binary?_eq_some_iff`, `Symbol.unary?_eq_some_iff` -- every operator has one symbol.
-/

namespace FormulaEngine

/-- Punctuation and operators. -/
inductive Symbol where
  | plus
  | minus
  | star
  | slash
  | percent
  | ampersand
  | pipe
  | caret
  | tilde
  | bang
  | andAnd
  | orOr
  | equal
  | notEqual
  | less
  | lessEqual
  | greater
  | greaterEqual
  | shiftLeft
  | shiftRight
  | question
  | colon
  | leftParen
  | rightParen
  | comma
deriving DecidableEq, Repr

namespace Symbol

/-- The characters of a symbol. -/
def chars : Symbol → List Char
  | plus => ['+']
  | minus => ['-']
  | star => ['*']
  | slash => ['/']
  | percent => ['%']
  | ampersand => ['&']
  | pipe => ['|']
  | caret => ['^']
  | tilde => ['~']
  | bang => ['!']
  | andAnd => ['&', '&']
  | orOr => ['|', '|']
  | equal => ['=', '=']
  | notEqual => ['!', '=']
  | less => ['<']
  | lessEqual => ['<', '=']
  | greater => ['>']
  | greaterEqual => ['>', '=']
  | shiftLeft => ['<', '<']
  | shiftRight => ['>', '>']
  | question => ['?']
  | colon => [':']
  | leftParen => ['(']
  | rightParen => [')']
  | comma => [',']

/-- The symbol written with two characters. -/
def ofPair? : Char → Char → Option Symbol
  | '&', '&' => some andAnd
  | '|', '|' => some orOr
  | '=', '=' => some equal
  | '!', '=' => some notEqual
  | '<', '=' => some lessEqual
  | '<', '>' => some notEqual
  | '<', '<' => some shiftLeft
  | '>', '=' => some greaterEqual
  | '>', '>' => some shiftRight
  | _, _ => none

/-- The symbol written with one character. -/
def ofChar? : Char → Option Symbol
  | '+' => some plus
  | '-' => some minus
  | '*' => some star
  | '/' => some slash
  | '%' => some percent
  | '&' => some ampersand
  | '|' => some pipe
  | '^' => some caret
  | '~' => some tilde
  | '!' => some bang
  | '=' => some equal
  | '<' => some less
  | '>' => some greater
  | '?' => some question
  | ':' => some colon
  | '(' => some leftParen
  | ')' => some rightParen
  | ',' => some comma
  | _ => none

/-- The binary operator that a symbol spells. -/
def binary? : Symbol → Option BinaryOp
  | plus => some .add
  | minus => some .subtract
  | star => some .multiply
  | slash => some .divide
  | percent => some .modulo
  | ampersand => some .bitAnd
  | pipe => some .bitOr
  | caret => some .bitXor
  | andAnd => some .and
  | orOr => some .or
  | equal => some .equal
  | notEqual => some .notEqual
  | less => some .less
  | lessEqual => some .lessEqual
  | greater => some .greater
  | greaterEqual => some .greaterEqual
  | shiftLeft => some .shiftLeft
  | shiftRight => some .shiftRight
  | _ => none

/-- The unary operator that a symbol spells. -/
def unary? : Symbol → Option UnaryOp
  | bang => some .not
  | minus => some .negate
  | tilde => some .complement
  | _ => none

/-- The symbol of a binary operator. -/
def ofBinary : BinaryOp → Symbol
  | .add => plus
  | .subtract => minus
  | .multiply => star
  | .divide => slash
  | .modulo => percent
  | .bitAnd => ampersand
  | .bitOr => pipe
  | .bitXor => caret
  | .and => andAnd
  | .or => orOr
  | .equal => equal
  | .notEqual => notEqual
  | .less => less
  | .lessEqual => lessEqual
  | .greater => greater
  | .greaterEqual => greaterEqual
  | .shiftLeft => shiftLeft
  | .shiftRight => shiftRight

/-- The symbol of a unary operator. -/
def ofUnary : UnaryOp → Symbol
  | .not => bang
  | .negate => minus
  | .complement => tilde

/-- A symbol spells the binary operator that it stands for, and no other symbol does. -/
theorem binary?_eq_some_iff {s : Symbol} {op : BinaryOp} :
    s.binary? = some op ↔ s = ofBinary op := by
  cases s <;> cases op <;> simp [binary?, ofBinary]

/-- A symbol spells the unary operator that it stands for, and no other symbol does. -/
theorem unary?_eq_some_iff {s : Symbol} {op : UnaryOp} :
    s.unary? = some op ↔ s = ofUnary op := by
  cases s <;> cases op <;> simp [unary?, ofUnary]

end Symbol

/-- A token. -/
inductive Token where
  | literal (l : Literal)
  | name (s : String)
  | symbol (s : Symbol)
deriving DecidableEq

namespace Token

/-- The keyword with a spelling, whatever the case of its letters. -/
def keyword? (word : List Char) : Option Token :=
  match String.ofList (word.map Char.toLower) with
  | "true" => some (literal (.boolean true))
  | "false" => some (literal (.boolean false))
  | "and" => some (symbol .andAnd)
  | "or" => some (symbol .orOr)
  | "not" => some (symbol .bang)
  | _ => none

/-- Whether a word is a keyword. -/
def isKeyword (word : List Char) : Bool := (keyword? word).isSome

/-- The binary operator that a token spells. -/
def binary? : Token → Option BinaryOp
  | symbol s => s.binary?
  | _ => none

/-- The unary operator that a token spells. -/
def unary? : Token → Option UnaryOp
  | symbol s => s.unary?
  | _ => none

/-- The text of a token in a message; strings are shown as they are. -/
def text : Token → String
  | literal (.string s) => "'" ++ s ++ "'"
  | literal (.moment m) => "#" ++ m.spacedText ++ "#"
  | literal l => String.ofList l.chars
  | name s => s
  | symbol s => String.ofList s.chars

end Token

/-- A token with the offsets of its first byte and of the byte after its last one. -/
structure Located where
  token : Token
  start : Nat
  stop : Nat
deriving DecidableEq

end FormulaEngine
