import FormulaEngine.Grammar.ParserAnswer
import FormulaEngine.Grammar.Region

/-!
# Reading formulas

The text of a formula is carved into tokens, and the parser makes a tree of them.

* `Expr.ofTokens` -- the tree of a whole list of tokens, or the first fault;
* `Expr.ofTokens_eq_nested` -- it is what the readers find that may open all levels;
* `parse` -- the tree of a text.
-/

namespace FormulaEngine

/-- The tree of a whole list of tokens; `textEnd` is the position of faults at their end. -/
def Expr.ofTokens (textEnd : Nat) (ts : List Located) : Except SyntaxError Expr :=
  let input : Input := ⟨ts.toArray, textEnd⟩
  let answer := (Parser.formula input (input.allowance ⟨0, 0⟩)).answer ⟨0, 0⟩
  (answer.get (Parser.isSome_formula_answer input)).1

/-- The tree of a list of tokens is the one that the reader of an expression finds, if no token is
left behind it. -/
theorem Expr.ofTokens_eq_nested (textEnd : Nat) (ts : List Located) : ofTokens textEnd ts = (do
    let (e, rest) ← (Reader.nested textEnd nestingLimit).1 ts
    match rest with
    | [] => .ok e
    | t :: _ => .error ⟨.unexpected t.token, t.start⟩) := by
  obtain ⟨s', h⟩ := Parser.formula_answer ⟨ts.toArray, textEnd⟩
  exact congrArg Prod.fst (Option.get_of_eq_some _ h)

/-- The tree of a text: the faults of its tokens are reported together, otherwise the first
fault of its grammar. -/
def parse (text : String) : Except (List SyntaxError) Expr := do
  let ts ← tokenize text
  (Expr.ofTokens text.utf8ByteSize ts).mapError ([·])

end FormulaEngine
