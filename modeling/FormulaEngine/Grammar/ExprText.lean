import FormulaEngine.Grammar.Expr
import FormulaEngine.Grammar.Token

/-!
# Formula trees as text

A tree is written so that it can be read again: an operand that is itself a binary operation or
a conditional stands in parentheses, and a name that is no ASCII word, or that is a keyword,
stands in brackets.  The name of a called function is written as it is.
-/

namespace FormulaEngine

/-- Whether a name can be written without brackets: it is an ASCII word and no keyword. -/
def isPlainName (cs : List Char) : Bool :=
  match cs with
  | [] => false
  | c :: rest =>
    (c.isAlpha || c == '_') && rest.all (fun c => c.isAlphanum || c == '_') &&
      !Token.isKeyword cs

/-- The characters of a name. -/
def nameChars (name : String) : List Char :=
  if isPlainName name.toList then name.toList else '[' :: (name.toList ++ [']'])

namespace Expr

/-- Whether a tree is put in parentheses where it is an operand. -/
def needsParens : Expr → Bool
  | binary .. => true
  | conditional .. => true
  | _ => false

/-- Characters in parentheses, where they are needed. -/
def enclose (needed : Bool) (cs : List Char) : List Char :=
  if needed then '(' :: (cs ++ [')']) else cs

mutual

/-- The characters of a tree. -/
def chars : Expr → List Char
  | literal l => l.chars
  | parameter name => nameChars name
  | call name arguments => name.toList ++ '(' :: (argumentChars arguments ++ [')'])
  | unary op operand => op.text.toList ++ enclose operand.needsParens (chars operand)
  | binary op left right =>
    enclose left.needsParens (chars left) ++ ' ' :: (op.text.toList ++
      ' ' :: enclose right.needsParens (chars right))
  | conditional condition yes no =>
    enclose condition.needsParens (chars condition) ++ ' ' :: '?' ::
      ' ' :: (enclose yes.needsParens (chars yes) ++ ' ' :: ':' ::
        ' ' :: enclose no.needsParens (chars no))

/-- The characters of arguments, with commas between them. -/
def argumentChars : List Expr → List Char
  | [] => []
  | [e] => chars e
  | e :: rest => chars e ++ ',' :: ' ' :: argumentChars rest

end

/-- The text of a tree. -/
def text (e : Expr) : String := String.ofList e.chars

end Expr

end FormulaEngine
