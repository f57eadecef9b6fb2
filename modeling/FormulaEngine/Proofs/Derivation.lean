import FormulaEngine.Grammar.Expr
import FormulaEngine.Grammar.SyntaxError

/-!
# The grammar of formulas

The rules by which tokens are phrases of the formula language, stated without a parser:

    Expr    ::= Bin 1 | Bin 1 '?' Expr ':' Expr
    Bin p   ::= Bin (p + 1) | Bin p (operator of level p) Bin (p + 1)      for p from 1 to 10
    Bin 11  ::= Unary
    Unary   ::= ('!' | '-' | '~') Unary | Primary
    Primary ::= literal | name | name '(' [Expr (',' Expr)*] ')' | '(' Expr ')'

A derivation opens one level of nesting for each `Expr`, the outermost one included, and one for
each operand of a unary operator.  It carries the largest number of levels that are open at the
same time.

* `Derives` -- the rules;
* `Derives.lower` -- an operation of a level is one of every lower level;
* `Derives.ne_nil`, `Derives.head_opens` -- no phrase is empty, and which tokens may begin one.
-/

namespace FormulaEngine

/-- The nonterminals of the grammar. -/
inductive Phrase where
  | expression
  /-- a chain of binary operators of at least a level; at level 11 there are none -/
  | operation (level : Nat)
  | unary
  | primary
  /-- the arguments of a call of a function, without the parentheses -/
  | arguments (function : String)

/-- `Derives phrase n ts e`: the tokens `ts` are a phrase with the tree `e`, and at most `n` levels
of nesting are open at once inside of it, its own included if it is an expression. -/
inductive Derives : Phrase → Nat → List Token → Expr → Prop where
  | operation {n ts e} (h : Derives (.operation 1) n ts e) : Derives .expression (n + 1) ts e
  | conditional {k m n cs ys ns c y e}
      (hc : Derives (.operation 1) k cs c)
      (hy : Derives .expression m ys y)
      (hn : Derives .expression n ns e) :
      Derives .expression (max k (max m n) + 1)
        (cs ++ .symbol .question :: (ys ++ .symbol .colon :: ns)) (.conditional c y e)
  | operand {n ts e} (h : Derives .unary n ts e) : Derives (.operation 11) n ts e
  | tighter {p n ts e} (hp : p ≤ 10) (h : Derives (.operation (p + 1)) n ts e) :
      Derives (.operation p) n ts e
  | binary {m n ls rs l r} (op : BinaryOp)
      (hl : Derives (.operation op.precedence) m ls l)
      (hr : Derives (.operation (op.precedence + 1)) n rs r) :
      Derives (.operation op.precedence) (max m n)
        (ls ++ .symbol (.ofBinary op) :: rs) (.binary op l r)
  | primary {n ts e} (h : Derives .primary n ts e) : Derives .unary n ts e
  | unary {n ts e} (op : UnaryOp) (h : Derives .unary n ts e) :
      Derives .unary (n + 1) (.symbol (.ofUnary op) :: ts) (.unary op e)
  | literal (l : Literal) : Derives .primary 0 [.literal l] (.literal l)
  | parameter (name : String) : Derives .primary 0 [.name name] (.parameter name)
  | constant (name : String) :
      Derives .primary 0 [.name name, .symbol .leftParen, .symbol .rightParen] (.call name [])
  | call {n ts e name} (h : Derives (.arguments name) n ts e) :
      Derives .primary n (.name name :: .symbol .leftParen :: (ts ++ [.symbol .rightParen])) e
  | parens {n ts e} (h : Derives .expression n ts e) :
      Derives .primary n (.symbol .leftParen :: (ts ++ [.symbol .rightParen])) e
  | argument {n ts e name} (h : Derives .expression n ts e) :
      Derives (.arguments name) n ts (.call name [e])
  | arguments {m n ts us e es name} (h : Derives .expression m ts e)
      (hs : Derives (.arguments name) n us (.call name es)) :
      Derives (.arguments name) (max m n) (ts ++ .symbol .comma :: us) (.call name (e :: es))

namespace Derives

/-- An operation of a level is an operation of every lower level. -/
theorem lower {p q n : Nat} {ts : List Token} {e : Expr} (h : Derives (.operation q) n ts e)
    (hpq : p ≤ q) (hq : q ≤ 11) : Derives (.operation p) n ts e := by
  obtain ⟨d, rfl⟩ : ∃ d, q = p + d := ⟨q - p, by omega⟩
  induction d with
  | zero => exact h
  | succ d ih =>
      have hstep : Derives (.operation (p + d)) n ts e := tighter (by omega) h
      exact ih hstep (by omega) (by omega)

/-- A primary is an operation of every level. -/
theorem ofPrimary {p n : Nat} {ts : List Token} {e : Expr} (h : Derives .primary n ts e)
    (hp : p ≤ 11) : Derives (.operation p) n ts e :=
  (operand (primary h)).lower hp (Nat.le_refl 11)

/-- Whether a phrase may begin with a token. -/
def opens : Token → Bool
  | .literal _ | .name _ => true
  | .symbol s => s = .leftParen ∨ s.unary?.isSome

/-- **Every phrase has a first token, which opens a phrase.** -/
theorem head_opens {phrase : Phrase} {n : Nat} {ts : List Token} {e : Expr}
    (h : Derives phrase n ts e) : ∃ t rest, ts = t :: rest ∧ opens t = true := by
  induction h with
  | operation _ ih | operand _ ih | tighter _ _ ih | primary _ ih | argument _ ih => exact ih
  | conditional _ _ _ ih _ _ =>
      obtain ⟨t, rest, rfl, ht⟩ := ih
      exact ⟨t, _, rfl, ht⟩
  | binary _ _ _ ih _ =>
      obtain ⟨t, rest, rfl, ht⟩ := ih
      exact ⟨t, _, rfl, ht⟩
  | arguments _ _ ih _ =>
      obtain ⟨t, rest, rfl, ht⟩ := ih
      exact ⟨t, _, rfl, ht⟩
  | unary op _ _ => exact ⟨_, _, rfl, by cases op <;> rfl⟩
  | literal l => exact ⟨_, _, rfl, rfl⟩
  | parameter name => exact ⟨_, _, rfl, rfl⟩
  | constant name => exact ⟨_, _, rfl, rfl⟩
  | call _ _ => exact ⟨_, _, rfl, rfl⟩
  | parens _ _ => exact ⟨_, _, rfl, rfl⟩

/-- No phrase is empty. -/
theorem ne_nil {phrase : Phrase} {n : Nat} {ts : List Token} {e : Expr}
    (h : Derives phrase n ts e) : ts ≠ [] := by
  obtain ⟨t, rest, rfl, _⟩ := h.head_opens
  exact List.cons_ne_nil t rest

/-- The arguments of a call make up a call of that function. -/
theorem exists_call {name : String} {n : Nat} {ts : List Token} {e : Expr}
    (h : Derives (.arguments name) n ts e) : ∃ e₁ es, e = .call name (e₁ :: es) := by
  cases h with
  | argument h => exact ⟨_, _, rfl⟩
  | arguments h hs => exact ⟨_, _, rfl⟩

end Derives

end FormulaEngine
