import FormulaEngine.Evaluation.Hook

/-!
# Passes

A pass holds what a tree is evaluated under: options, parameters and hooks.  With the option
to iterate, a tree is evaluated once for each position of the list parameters, which must all
have the same length.  One map serves all positions: at each of them the next item of every list
is written over what the position before left there.

* `Pass.positions` -- the loop over the positions;
* `Pass.broadcast` -- one evaluation for each position;
* `Pass.run` -- one evaluation, or a broadcast.
-/

namespace FormulaEngine

/-- The list parameters with their items. -/
def Parameters.lists (p : Parameters) : List (String × List Value) :=
  p.entries.filterMap fun (name, value) =>
    match value with
    | .list items => some (name, items)
    | _ => none

/-- The parameters with the next item of every sequence written in. -/
def Parameters.writeNext (p : Parameters) (sequences : List (String × List Value)) : Parameters :=
  sequences.foldl
    (fun p (name, items) =>
      match items with
      | item :: _ => p.insert name item
      | [] => p) p

/-- What a tree is evaluated under. -/
structure Pass (m : Type → Type) where
  options : Options := {}
  parameters : Parameters := .empty false
  hooks : Hooks m := {}

namespace Pass

variable {m : Type → Type} [Monad m]

/-- The value of a parameter: from the parameters, else from the hook. -/
def parameterValue (pass : Pass m) (name : String) : ExceptT EvalError m Value :=
  match pass.parameters.get? name with
  | some v => pure v
  | none => do
    match ← pass.hooks.parameter.consult name none with
    | some v => pure v
    | none => throw (.undefinedParameter name)

/-- The values at the next positions of the sequences, up to the first failure. -/
def positions (once : Pass m → ExceptT EvalError m Value) :
    Nat → List (String × List Value) → Pass m → ExceptT EvalError m (List Value)
  | 0, _, _ => pure []
  | count + 1, sequences, pass => do
    let pass := { pass with parameters := pass.parameters.writeNext sequences }
    let v ← once pass
    let vs ← positions once count (sequences.map fun (name, items) => (name, items.tail)) pass
    return v :: vs

/-- The list of the values at all positions of the list parameters, up to the first failure. -/
def broadcast (once : Pass m → ExceptT EvalError m Value) (pass : Pass m) :
    ExceptT EvalError m Value :=
  match pass.parameters.lists with
  | [] => pure (.list [])
  | (_, first) :: rest =>
    if rest.all (·.2.length == first.length) then do
      let values ← positions once first.length pass.parameters.lists pass
      pure (.list values)
    else throw .unequalLists

/-- One evaluation, or a broadcast if the options ask for it. -/
def run (once : Pass m → ExceptT EvalError m Value) (pass : Pass m) :
    ExceptT EvalError m Value :=
  if pass.options.iterate then broadcast once pass else once pass

end Pass

/-- Without list parameters a broadcast has no positions. -/
theorem Pass.broadcast_of_lists_eq_nil {m : Type → Type} [Monad m] {pass : Pass m}
    (once : Pass m → ExceptT EvalError m Value) (h : pass.parameters.lists = []) :
    pass.broadcast once = pure (.list []) := by
  simp [Pass.broadcast, h]

end FormulaEngine
