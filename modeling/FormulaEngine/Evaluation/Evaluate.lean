import FormulaEngine.Evaluation.BuiltinCall
import FormulaEngine.Evaluation.Pass

/-!
# Evaluation of formula trees

A tree is evaluated from left to right.  The right operand of `&&` and `||`, the branches of a
conditional and those of the function `if` are evaluated only when they are needed.  A called
function is first looked up through the function hook, which sees the arguments before they are
evaluated; the built-in functions come second.

* `Expr.eval` -- the value of a tree in one pass;
* `Expr.evaluate` -- its value under the options of the pass, one or many.
-/

namespace FormulaEngine

variable {m : Type → Type} [Monad m]

mutual

/-- The value of a tree in one pass. -/
def Expr.eval : Expr → Pass m → ExceptT EvalError m Value
  | .literal l, _ => pure l.value
  | .parameter name, pass => pass.parameterValue name
  | .call name arguments, pass => do
    let call ← pass.hooks.function.consult name ⟨lazyArguments arguments pass, none⟩
    match call.result with
    | some v => pure v
    | none =>
      match Builtin.lookup name pass.options.ignoreCase with
      | none => throw (.undefinedFunction name)
      | some f => do
        f.checkArity arguments.length
        if f.isLazy then evalChoice arguments pass
        else do
          let values ← evalAll arguments pass
          f.call pass.options values
  | .unary op operand, pass => do
    let v ← operand.eval pass
    applyUnary op v
  | .binary op left right, pass => do
    let a ← left.eval pass
    match op with
    | .and =>
      if ← a.truthy then
        let b ← right.eval pass
        return .boolean (← b.truthy)
      else return .boolean false
    | .or =>
      if ← a.truthy then return .boolean true
      else
        let b ← right.eval pass
        return .boolean (← b.truthy)
    | op => do
      let b ← right.eval pass
      applyBinary op a b
  | .conditional condition yes no, pass => do
    let c ← condition.eval pass
    if ← c.truthy then yes.eval pass else no.eval pass

/-- The values of several trees from left to right, up to the first failure. -/
def evalAll : List Expr → Pass m → ExceptT EvalError m (List Value)
  | [], _ => pure []
  | e :: rest, pass => do
    let v ← e.eval pass
    let vs ← evalAll rest pass
    return v :: vs

/-- The value of the second or the third tree, by the value of the first. -/
def evalChoice : List Expr → Pass m → ExceptT EvalError m Value
  | [condition, yes, no], pass => do
    let c ← condition.eval pass
    if ← c.truthy then yes.eval pass else no.eval pass
  | _, _ => throw (.wrongArity .choose)

/-- The arguments of a call for a hook: each is evaluated under the pass of the call, in a single
pass of its own. -/
def lazyArguments : List Expr → Pass m → List (Argument m)
  | [], _ => []
  | e :: rest, pass =>
    { tree := e
      options := pass.options.singlePass
      parameters := pass.parameters
      run := fun use options parameters =>
        Pass.run (fun p => e.eval p) ⟨options, parameters, pass.hooks.using use⟩ } ::
      lazyArguments rest pass

end

/-- The value of a tree under the options of a pass. -/
def Expr.evaluate (e : Expr) (pass : Pass m) : ExceptT EvalError m Value :=
  Pass.run (fun p => e.eval p) pass

end FormulaEngine
