import FormulaEngine.Grammar.Expr
import FormulaEngine.Grammar.SyntaxError

/-!
# The parser of formulas

A parser goes over the tokens of a text with a cursor, which says how many tokens are behind it and
how many levels of nesting are open.  Parsing is made up of calls, one for each rule of the grammar
and one for each round of a repetition; what a call does is said by the calls that it makes in turn.

* `Parser.answer` -- what a parser answers at a cursor, if it comes back;
* `Parser.nested` -- a parser one level deeper; the level is closed again after a fault, too;
* `Parser.rule` -- what each call does;
* `Parser.within` -- a call, if this number of calls inside of one another is enough for it;
* `Parser.formula` -- the parser of a whole list of tokens.
-/

namespace FormulaEngine

/-- The tokens of a text, and the byte at which the text ends. -/
structure Input where
  tokens : Array Located
  textEnd : Nat

/-- Where a parser stands: the number of tokens behind it, and of levels of nesting that are
open. -/
structure Cursor where
  index : Nat
  depth : Nat
deriving DecidableEq, Repr

/-- The next token, if there is one. -/
def Input.current? (input : Input) (s : Cursor) : Option Located := input.tokens[s.index]?

/-- Where the next token begins, or the text ends. -/
def Input.position (input : Input) (s : Cursor) : Nat :=
  match input.current? s with
  | some t => t.start
  | none => input.textEnd

/-- A number of calls inside of one another that is enough from a cursor on. -/
def Input.allowance (input : Input) (s : Cursor) : Nat := 8 * (input.tokens.size - s.index + 1)

/-- A parser moves a cursor and may fail; what it has moved stays so when it fails.  The answer
`none` is that of a parser that does not come back. -/
abbrev Parser (α : Type) := ExceptT SyntaxError (StateT Cursor Option) α

namespace Parser

/-- What a parser answers at a cursor, with the cursor that it leaves behind. -/
def answer {α : Type} (p : Parser α) (s : Cursor) : Option (Except SyntaxError α × Cursor) :=
  p.run.run s

/-- The parser that does not come back. -/
def unanswered {α : Type} : Parser α := fun _ => none

/-- Goes past the next token. -/
def advance : Parser Unit := modify fun s => { s with index := s.index + 1 }

/-- A call of the parser of a rule, or for a round of a repetition. -/
inductive Call where
  | expression
  | conditional
  | binary (level : Nat)
  /-- the operators behind the first operand of a chain, with the left operand so far -/
  | operators (level : Nat) (left : Expr)
  | unary
  /-- the operand of a unary operator -/
  | operand
  | primary
  /-- a call of a function, from behind the opening parenthesis -/
  | function (name : String)
  /-- an argument and those behind it, with those before -/
  | arguments (name : String) (before : Array Expr)

section Rules

variable (input : Input)

/-- The next token, which stays where it is. -/
def next? : Parser (Option Located) := do
  return input.current? (← get)

/-- Goes past a symbol if it is the next token, and says whether it was. -/
def eat (sym : Symbol) : Parser Bool := do
  match ← next? input with
  | none => return false
  | some t =>
    if t.token = .symbol sym then
      advance
      return true
    else return false

/-- Goes past a symbol that must be the next token. -/
def expect (sym : Symbol) (what : Expectation) : Parser Unit := do
  match ← next? input with
  | none => throw ⟨.endOfInput, input.textEnd⟩
  | some t => if t.token = .symbol sym then advance else throw ⟨.expected what, t.start⟩

/-- One level deeper, unless all levels are open.  The level is closed again whatever the answer
is. -/
def nested {α : Type} (p : Parser α) : Parser α := fun s =>
  if nestingLimit ≤ s.depth then some (.error ⟨.nestedTooDeep, input.position s⟩, s)
  else do
    let (outcome, s) ← p.answer { s with depth := s.depth + 1 }
    return (outcome, { s with depth := s.depth - 1 })

variable (call : Call → Parser Expr)

/-- An operation, or a conditional. -/
def conditional : Parser Expr := do
  let condition ← call (.binary 1)
  if ← eat input .question then
    let yes ← call .expression
    expect input .colon .colon
    let no ← call .expression
    return .conditional condition yes no
  else return condition

/-- The loop over binary operators of at least a level. -/
def operators (level : Nat) (left : Expr) : Parser Expr := do
  match (← next? input).bind (·.token.binary?) with
  | none => return left
  | some op =>
    if op.precedence < level then return left
    else
      advance
      let right ← call (.binary (op.precedence + 1))
      call (.operators level (.binary op left right))

/-- A primary, or a unary operator with its operand. -/
def unary : Parser Expr := do
  match (← next? input).bind (·.token.unary?) with
  | none => call .primary
  | some op =>
    advance
    let e ← call .operand
    return .unary op e

/-- A literal, a parameter, a call of a function, or an expression in parentheses. -/
def primary : Parser Expr := do
  match ← next? input with
  | none => throw ⟨.endOfInput, input.textEnd⟩
  | some t =>
    advance
    match t.token with
    | .literal l => return .literal l
    | .name name =>
      if ← eat input .leftParen then call (.function name) else return .parameter name
    | .symbol sym =>
      if sym = .leftParen then
        let e ← call .expression
        expect input .rightParen .closing
        return e
      else throw ⟨.unexpected t.token, t.start⟩

/-- The loop over arguments, from behind an argument. -/
def moreArguments (name : String) (before : Array Expr) : Parser Expr := do
  if ← eat input .comma then call (.arguments name before)
  else
    expect input .rightParen .commaOrClosing
    return .call name before.toList

/-- What a call does, by the calls that it makes in turn.  Expressions and the operands of unary
operators open a level. -/
def rule : Call → Parser Expr
  | .expression => nested input (call .conditional)
  | .conditional => conditional input call
  | .binary level => do
    let first ← call .unary
    call (.operators level first)
  | .operators level left => operators input call level left
  | .unary => unary input call
  | .operand => nested input (call .unary)
  | .primary => primary input call
  | .function name => do
    if ← eat input .rightParen then return .call name [] else call (.arguments name #[])
  | .arguments name before => do
    let e ← call .expression
    moreArguments input call name (before.push e)

end Rules

/-- The parser of a call.  It does not come back where more than this number of calls inside of one
another would be needed. -/
def within (input : Input) : Nat → Call → Parser Expr
  | 0, _ => unanswered
  | calls + 1, c => rule input (within input calls) c

/-- An expression and the end of the tokens. -/
def formula (input : Input) (calls : Nat) : Parser Expr := do
  let e ← within input calls .expression
  match ← next? input with
  | none => return e
  | some t => throw ⟨.unexpected t.token, t.start⟩

end Parser

end FormulaEngine
