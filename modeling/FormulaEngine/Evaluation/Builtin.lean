/-!
# Built-in functions

The names and the argument counts of the functions that need no host.  A name is matched
exactly, or without regard to the case of ASCII letters.

* `Builtin.lookup_name` -- every function is found under its own name.
-/

namespace FormulaEngine

/-- The functions that need no host. -/
inductive Builtin where
  | abs
  | acos
  | asin
  | atan
  | ceiling
  | cos
  | exp
  | floor
  /-- the IEEE 754 remainder -/
  | remainder
  | log
  | log10
  | pow
  | round
  | sign
  | sin
  | sqrt
  | tan
  | truncate
  | max
  | min
  /-- one of two values, by a condition -/
  | choose
  /-- whether a value is among others -/
  | member
deriving DecidableEq, Repr

/-- How many arguments a function takes. -/
inductive Arity where
  | exactly (count : Nat)
  | between (least most : Nat)
  | atLeast (count : Nat)
deriving DecidableEq, Repr

namespace Arity

/-- Whether a function takes this many arguments. -/
def accepts : Arity → Nat → Bool
  | exactly n, count => count == n
  | between least most, count => decide (least ≤ count) && decide (count ≤ most)
  | atLeast n, count => decide (n ≤ count)

/-- The noun that goes with a count. -/
def noun (count : Nat) : String := if count = 1 then "argument" else "arguments"

/-- The words for a count of arguments. -/
def text : Arity → String
  | exactly n => "exactly " ++ toString n ++ " " ++ noun n
  | between least most => toString least ++ " or " ++ toString most ++ " arguments"
  | atLeast n => "at least " ++ toString n ++ " " ++ noun n

end Arity

namespace Builtin

/-- The functions in the order in which names are looked up. -/
def all : List Builtin :=
  [abs, acos, asin, atan, ceiling, cos, exp, floor, remainder, log, log10, pow, round, sign, sin,
    sqrt, tan, truncate, max, min, choose, member]

/-- The name of a function. -/
def name : Builtin → String
  | abs => "Abs"
  | acos => "Acos"
  | asin => "Asin"
  | atan => "Atan"
  | ceiling => "Ceiling"
  | cos => "Cos"
  | exp => "Exp"
  | floor => "Floor"
  | remainder => "IEEERemainder"
  | log => "Log"
  | log10 => "Log10"
  | pow => "Pow"
  | round => "Round"
  | sign => "Sign"
  | sin => "Sin"
  | sqrt => "Sqrt"
  | tan => "Tan"
  | truncate => "Truncate"
  | max => "Max"
  | min => "Min"
  | choose => "if"
  | member => "in"

/-- How many arguments a function takes. -/
def arity : Builtin → Arity
  | remainder | log | pow | max | min => .exactly 2
  | round => .between 1 2
  | choose => .exactly 3
  | member => .atLeast 2
  | _ => .exactly 1

/-- Whether the function evaluates its arguments on demand. -/
def isLazy (f : Builtin) : Bool := f == choose

/-- What a name is matched by: its characters, where case does not matter with the ASCII letters
in lower case. -/
def nameKey (name : String) (ignoreCase : Bool) : List Char :=
  if ignoreCase then name.toList.map Char.toLower else name.toList

/-- The function with a name. -/
def lookup (name : String) (ignoreCase : Bool) : Option Builtin :=
  all.find? fun f => nameKey f.name ignoreCase == nameKey name ignoreCase

/-- Every function is found under its own name, whether case matters or not. -/
theorem lookup_name (f : Builtin) (ignoreCase : Bool) :
    lookup f.name ignoreCase = some f := by
  cases ignoreCase <;> cases f <;> decide +kernel

end Builtin

end FormulaEngine
