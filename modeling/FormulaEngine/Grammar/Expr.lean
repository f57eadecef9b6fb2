import FormulaEngine.Operator
import FormulaEngine.Value.Literal

/-!
# Formula trees

A formula is a tree of literals, parameters, calls, operators, and conditionals.

* `Expr.byParts` -- induction on trees;
* `Expr.parameterNames` -- the parameters of a tree, each once, in the order of their first
  occurrence; the name of a called function is no parameter.
-/

namespace FormulaEngine

/-- A formula. -/
inductive Expr where
  | literal (l : Literal)
  | parameter (name : String)
  | call (name : String) (arguments : List Expr)
  | unary (op : UnaryOp) (operand : Expr)
  | binary (op : BinaryOp) (left right : Expr)
  | conditional (condition yes no : Expr)
deriving Inhabited

/-- Induction on trees, with the hypothesis for each argument of a call. -/
@[elab_as_elim]
theorem Expr.byParts {motive : Expr → Prop} (e : Expr)
    (literal : ∀ l, motive (.literal l))
    (parameter : ∀ name, motive (.parameter name))
    (call : ∀ name arguments, (∀ e ∈ arguments, motive e) → motive (.call name arguments))
    (unary : ∀ op operand, motive operand → motive (.unary op operand))
    (binary : ∀ op left right, motive left → motive right → motive (.binary op left right))
    (conditional : ∀ condition yes no, motive condition → motive yes → motive no →
      motive (.conditional condition yes no)) : motive e := by
  refine @Expr.rec motive (fun arguments => ∀ e ∈ arguments, motive e) literal parameter call unary
    binary conditional ?_ ?_ e
  · intro e he
    cases he
  · intro e es he hes d hd
    rcases List.mem_cons.1 hd with rfl | hd
    · exact he
    · exact hes d hd

namespace Expr

mutual

/-- Whether two trees are built alike from the same literals, names and operators. -/
def same : Expr → Expr → Bool
  | literal a, literal b => a == b
  | parameter a, parameter b => a == b
  | call a as, call b bs => a == b && sameAll as bs
  | unary o a, unary p b => o == p && same a b
  | binary o a b, binary p c d => o == p && same a c && same b d
  | conditional a b c, conditional d e f => same a d && same b e && same c f
  | _, _ => false

/-- Whether two lists have the same trees in the same places. -/
def sameAll : List Expr → List Expr → Bool
  | [], [] => true
  | a :: as, b :: bs => same a b && sameAll as bs
  | _, _ => false

end

instance : BEq Expr := ⟨same⟩

mutual

/-- The names of the parameters from left to right, with repetitions. -/
def occurrences : Expr → List String
  | literal _ => []
  | parameter name => [name]
  | call _ arguments => occurrencesAll arguments
  | unary _ operand => occurrences operand
  | binary _ left right => occurrences left ++ occurrences right
  | conditional condition yes no =>
    occurrences condition ++ occurrences yes ++ occurrences no

/-- The names of the parameters of several trees. -/
def occurrencesAll : List Expr → List String
  | [] => []
  | e :: rest => occurrences e ++ occurrencesAll rest

end

/-- The names of the parameters, each once, in the order of their first occurrence. -/
def parameterNames (e : Expr) : List String := e.occurrences.eraseDups

/-- The literal, if the tree is one. -/
def literal? : Expr → Option Literal
  | literal l => some l
  | _ => none

/-- The name, if the tree is a parameter. -/
def parameter? : Expr → Option String
  | parameter name => some name
  | _ => none

end Expr

end FormulaEngine
