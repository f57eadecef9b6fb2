import FormulaEngine.Grammar.Expr
import FormulaEngine.Grammar.SyntaxError

/-!
# Readers of formulas

The grammar has one rule for each level of precedence:

    Expr    ::= Bin 1 | Bin 1 '?' Expr ':' Expr
    Bin p   ::= Bin (p + 1) (operator of level p, Bin (p + 1))*      for p from 1 to 10
    Bin 11  ::= ('!' | '-' | '~') Bin 11 | Primary
    Primary ::= literal | name | name '(' [Expr (',' Expr)*] ')' | '(' Expr ')'

Each `Expr`, the outermost one included, and each operand of a unary operator is one level of
nesting; at most `nestingLimit` levels may be open at once.  A reader for one level of nesting is
built from the readers for the level inside of it, so that reading needs no other bound.  The ten
rules for binary operators are read by one loop, which takes the lowest precedence that it may
touch.

* `climb` -- the loop over binary operators;
* `nested` -- the readers that may open a number of further levels.
-/

namespace FormulaEngine

/-- Reads something at the head of a list of tokens and returns it with the tokens behind it. -/
abbrev Reader (α : Type) := List Located → Except SyntaxError (α × List Located)

namespace Reader

/-- Where the next token begins, or the text ends. -/
def position (textEnd : Nat) : List Located → Nat
  | [] => textEnd
  | t :: _ => t.start

/-- The tokens behind a symbol, if it is the next one. -/
def accept? (s : Symbol) : List Located → Option (List Located)
  | [] => none
  | t :: rest => if t.token = .symbol s then some rest else none

/-- The tokens behind a symbol that must be the next one. -/
def expect (textEnd : Nat) (s : Symbol) (what : Expectation) (ts : List Located) :
    Except SyntaxError (List Located) :=
  match ts with
  | [] => .error ⟨.endOfInput, textEnd⟩
  | t :: rest => if t.token = .symbol s then .ok rest else .error ⟨.expected what, t.start⟩

/-- The reader that may open no level. -/
def tooDeep (textEnd : Nat) : Reader Expr := fun ts =>
  .error ⟨.nestedTooDeep, position textEnd ts⟩

/-- Repeats a step until it finds nothing to do, at most as often as the bound says. -/
def repeated {α : Type} (step : List Located → Option (Except SyntaxError (α × List Located))) :
    Nat → Reader (List α)
  | 0, ts => .ok ([], ts)
  | bound + 1, ts =>
    match step ts with
    | none => .ok ([], ts)
    | some r => do
      let (a, ts) ← r
      let (as, ts) ← repeated step bound ts
      .ok (a :: as, ts)

/-- A repetition ends where its step finds nothing to do. -/
theorem repeated_of_none {α : Type}
    {step : List Located → Option (Except SyntaxError (α × List Located))} {ts : List Located}
    (hs : step ts = none) (bound : Nat) : repeated step bound ts = .ok ([], ts) := by
  cases bound with
  | zero => rfl
  | succ bound => rw [repeated, hs]

/-- Repeats a step that takes at least one token until it finds nothing to do. -/
def many {α : Type} (step : List Located → Option (Except SyntaxError (α × List Located))) :
    Reader (List α) :=
  fun ts => repeated step ts.length ts

/-- A comma and the expression behind it. -/
def nextArgument (expression : Reader Expr) (ts : List Located) :
    Option (Except SyntaxError (Expr × List Located)) :=
  (accept? .comma ts).map expression

/-- The arguments of a call, read from behind the opening parenthesis. -/
def arguments (textEnd : Nat) (expression : Reader Expr) : Reader (List Expr) := fun ts =>
  match accept? .rightParen ts with
  | some ts => .ok ([], ts)
  | none => do
    let (first, ts) ← expression ts
    let (more, ts) ← many (nextArgument expression) ts
    let ts ← expect textEnd .rightParen .commaOrClosing ts
    .ok (first :: more, ts)

/-- A literal, a parameter, a call, or an expression in parentheses. -/
def primary (textEnd : Nat) (expression : Reader Expr) : Reader Expr
  | [] => .error ⟨.endOfInput, textEnd⟩
  | t :: ts =>
    match t.token with
    | .literal l => .ok (.literal l, ts)
    | .name name =>
      match accept? .leftParen ts with
      | none => .ok (.parameter name, ts)
      | some ts => do
        let (args, ts) ← arguments textEnd expression ts
        .ok (.call name args, ts)
    | .symbol s =>
      if s = .leftParen then do
        let (e, ts) ← expression ts
        let ts ← expect textEnd .rightParen .closing ts
        .ok (e, ts)
      else .error ⟨.unexpected t.token, t.start⟩

/-- A primary, or a unary operator with its operand. -/
def unary (textEnd : Nat) (expression operand : Reader Expr) : Reader Expr := fun ts =>
  match ts.head?.bind (·.token.unary?) with
  | none => primary textEnd expression ts
  | some op => do
    let (e, ts) ← operand ts.tail
    .ok (.unary op e, ts)

/-- A binary operator of at least a level and the operand behind it. -/
def nextOperand (level : Nat) (operand : (op : BinaryOp) → level ≤ op.precedence → Reader Expr)
    (ts : List Located) : Option (Except SyntaxError ((BinaryOp × Expr) × List Located)) :=
  match ts.head?.bind (·.token.binary?) with
  | none => none
  | some op =>
    if h : level ≤ op.precedence then
      some do
        let (e, ts) ← operand op h ts.tail
        .ok ((op, e), ts)
    else none

/-- A chain of binary operations, grouped to the left, of operators of at least a level.  The
operand behind an operator takes the operators that bind more tightly. -/
def climb (unary : Reader Expr) (level : Nat) (ts : List Located) :
    Except SyntaxError (Expr × List Located) := do
  let (first, ts) ← unary ts
  let (more, ts) ← many (nextOperand level fun op _ => climb unary (op.precedence + 1)) ts
  .ok (more.foldl (fun left (op, right) => .binary op left right) first, ts)
termination_by 11 - level
decreasing_by
  have := op.precedence_lt_unary .not
  simp only [UnaryOp.precedence] at this
  omega

/-- An operation, or a conditional. -/
def conditional (textEnd : Nat) (expression unary : Reader Expr) : Reader Expr := fun ts => do
  let (condition, ts) ← climb unary 1 ts
  match accept? .question ts with
  | none => .ok (condition, ts)
  | some ts => do
    let (yes, ts) ← expression ts
    let ts ← expect textEnd .colon .colon ts
    let (no, ts) ← expression ts
    .ok (.conditional condition yes no, ts)

/-- The readers of an expression and of the operand of a unary operator that may open this
number of levels, their own level included. -/
def nested (textEnd : Nat) : Nat → Reader Expr × Reader Expr
  | 0 => (tooDeep textEnd, tooDeep textEnd)
  | levels + 1 =>
    let inner := nested textEnd levels
    let operand := unary textEnd inner.1 inner.2
    (conditional textEnd inner.1 operand, operand)

end Reader

end FormulaEngine
