import FormulaEngine.Evaluation.Pass

/-!
# Passes over the parameters of a formula

A formula is evaluated over the parameters that it holds.  A broadcast writes the items of every
position into them and puts the parameters back in the end, also when a position has failed.

* `InPlace` -- computations that may fail and that work on parameters;
* `positionsInPlace` -- the loop over the positions, which leaves the parameters of the last one;
* `broadcastInPlace` -- the loop between a backup of the parameters and its return;
* `runInPlace` -- one evaluation, or a broadcast.
-/

namespace FormulaEngine

/-- Computations that may fail and that work on parameters.  What they have written stays when they
fail. -/
abbrev InPlace (m : Type → Type) (α : Type) := ExceptT EvalError (StateT Parameters m) α

variable {m : Type → Type} [Monad m]

/-- One evaluation under the parameters as they are. -/
def onceInPlace (once : Parameters → ExceptT EvalError m Value) : InPlace m Value := do
  let parameters ← getThe Parameters
  ExceptT.mk (StateT.lift (once parameters).run)

/-- The values at the next positions of the sequences, up to the first failure.  The items of a
position are written into the parameters, where they stay. -/
def positionsInPlace (once : Parameters → ExceptT EvalError m Value) :
    Nat → List (String × List Value) → InPlace m (List Value)
  | 0, _ => pure []
  | count + 1, sequences => do
    modifyThe Parameters (·.writeNext sequences)
    let v ← onceInPlace once
    let vs ← positionsInPlace once count (sequences.map fun (name, items) => (name, items.tail))
    return v :: vs

/-- The list of the values at all positions of the list parameters, up to the first failure.  The
parameters are put back, whatever the outcome is. -/
def broadcastInPlace (once : Parameters → ExceptT EvalError m Value) : InPlace m Value := do
  let backup ← getThe Parameters
  match backup.lists with
  | [] => return .list []
  | (_, first) :: rest =>
    if rest.all (·.2.length == first.length) then do
      let outcome ← ExceptT.lift (positionsInPlace once first.length backup.lists).run
      set backup
      let values ← ExceptT.mk (pure outcome)
      return .list values
    else throw .unequalLists

/-- One evaluation, or a broadcast if the options ask for it. -/
def runInPlace (once : Parameters → ExceptT EvalError m Value) (options : Options) :
    InPlace m Value :=
  if options.iterate then broadcastInPlace once else onceInPlace once

end FormulaEngine
