import FormulaEngine.Formula.Basic

/-!
# Workspaces

A workspace holds numbered formulas that share one cache.  The trees that are held are those of
its formulas.

* `Workspace.ask` -- a question to a formula, which may parse its text;
* `Workspace.evaluate` -- the value of a formula;
* `Workspace.formula?_put` -- a formula is found under the number it was put under.
-/

namespace FormulaEngine

/-- Formulas that share a cache. -/
structure Workspace (m : Type → Type) where
  cache : FormulaCache := {}
  formulas : List (Nat × Formula m) := []

namespace Workspace

variable {m : Type → Type}

/-- Whether a tree is that of a formula. -/
def holds (w : Workspace m) (id : Nat) : Bool :=
  w.formulas.any fun (_, f) => f.origin.tree?.any (·.id == id)

/-- The formula with a number. -/
def formula? (w : Workspace m) (number : Nat) : Option (Formula m) := w.formulas.lookup number

/-- The workspace without the formula of a number. -/
def drop (w : Workspace m) (number : Nat) : Workspace m :=
  { w with formulas := w.formulas.filter (·.1 != number) }

/-- The workspace with a formula under a number, in the place of another. -/
def put (w : Workspace m) (number : Nat) (f : Formula m) : Workspace m :=
  { w with formulas := (number, f) :: (w.drop number).formulas }

/-- The workspace with a new formula of a tree. -/
def putTree (w : Workspace m) (number : Nat) (tree : Expr) (options : Options) : Workspace m :=
  let (t, cache) := w.cache.share tree
  { w with cache }.put number (.ofTree t options)

/-- The answer of the formula of a number to a question that may make it parse its text, and the
workspace after that; no answer if there is no such formula. -/
def ask {α : Type} (w : Workspace m) (number : Nat)
    (question : Formula m → FormulaCache → (Nat → Bool) → α × Formula m × FormulaCache) :
    Option α × Workspace m :=
  match w.formula? number with
  | none => (none, w)
  | some f =>
    let (answer, f, cache) := question f w.cache w.holds
    (some answer, { w with cache }.put number f)

/-- The value of the formula of a number, and the workspace after its evaluation; no value if there
is no such formula. -/
def evaluate [Monad m] (w : Workspace m) (number : Nat) (use : HookUse)
    (overrides : Overrides m) : m (Option (Except EvalError Value) × Workspace m) :=
  match w.formula? number with
  | none => pure (none, w)
  | some f => do
    let (result, f, cache) ← f.evaluate w.cache w.holds use overrides
    pure (some result, { w with cache }.put number f)

/-- The tree that the cache has for a text. -/
def get? (w : Workspace m) (text : String) : Option SharedTree := w.cache.get? w.holds text

/-- Switch the cache on or off. -/
def setEnabled (w : Workspace m) (enabled : Bool) : Workspace m :=
  { w with cache := w.cache.setEnabled enabled }

/-- A formula that was put under a number is found there. -/
theorem formula?_put (w : Workspace m) (number : Nat) (f : Formula m) :
    (w.put number f).formula? number = some f := by
  simp [put, formula?]

end Workspace

end FormulaEngine
