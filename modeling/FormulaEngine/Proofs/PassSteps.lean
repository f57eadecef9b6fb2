import FormulaEngine.Evaluation.Evaluate
import Mathlib.Tactic.Common

/-!
# Steps of a pass

What one pass does with each sort of tree, as equations about its parts.

* `Pass.answer`, `Expr.eval_call` -- a call is left to the function hook first;
* `Expr.eval_binary`, `Expr.eval_shortCircuit` -- operators that need both operands, and the others;
* `Pass.builtinValue` -- what comes of a call of a built-in function, case by case.
-/

namespace FormulaEngine

/-! ## Operators that may leave out an operand -/

/-- Whether a truth value on the left decides the value of `&&` or of `||`. -/
def BinaryOp.decidedBy (op : BinaryOp) (c : Bool) : Bool := c == (op == .or)

/-- On values, `&&` and `||` ask for the truth of the right one unless the left one decides. -/
theorem applyBinary_shortCircuit {op : BinaryOp} (hop : op.isShortCircuit = true) (a b : Value) :
    applyBinary op a b = (do
      let c ← a.truthy
      if op.decidedBy c then return .boolean c
      else return .boolean (← b.truthy)) := by
  cases op with
  | and | or =>
      rw [applyBinary]
      congr 1
      funext c
      cases c <;> rfl
  | _ => exact nomatch hop

/-! ## Parameters, calls and operators -/

section Steps

variable {m : Type → Type} [Monad m]

/-- What the function hook answers to a call, if it does. -/
def Pass.answer (pass : Pass m) (name : String) (arguments : List Expr) :
    ExceptT EvalError m (Option Value) :=
  FunctionCall.result <$>
    pass.hooks.function.consult name ⟨lazyArguments arguments pass, none⟩

/-- The value of a call of a built-in function. -/
def Pass.builtinValue (pass : Pass m) (name : String) (arguments : List Expr) :
    ExceptT EvalError m Value :=
  match Builtin.lookup name pass.options.ignoreCase with
  | none => throw (.undefinedFunction name)
  | some f => do
    f.checkArity arguments.length
    if f.isLazy then evalChoice arguments pass
    else do
      let values ← evalAll arguments pass
      f.call pass.options values

/-- The function hook comes first. -/
theorem Expr.eval_call [LawfulMonad m] (name : String) (arguments : List Expr) (pass : Pass m) :
    (Expr.call name arguments).eval pass = pass.answer name arguments >>= fun answer =>
      match answer with
      | some v => pure v
      | none => pass.builtinValue name arguments := by
  unfold Expr.eval Pass.answer
  rw [bind_map_left]
  rfl

/-- A parameter that has a value does not need a hook. -/
theorem Pass.parameterValue_of_get? {name : String} {v : Value} {pass : Pass m}
    (h : pass.parameters.get? name = some v) : pass.parameterValue name = pure v := by
  unfold parameterValue
  rw [h]

/-- A function hook without parts answers no call. -/
theorem Pass.answer_of_no_hook [LawfulMonad m] {pass : Pass m} (h : pass.hooks.function = {})
    (name : String) (arguments : List Expr) : pass.answer name arguments = pure none := by
  unfold answer Hook.consult
  rw [h, Hook.invoke_empty]
  apply ExceptT.ext
  simp
  rfl

/-- Other operators than `&&` and `||` evaluate both operands. -/
theorem Expr.eval_binary {op : BinaryOp} (hop : ¬op.isShortCircuit = true) (left right : Expr)
    (pass : Pass m) : (Expr.binary op left right).eval pass = left.eval pass >>= fun a =>
      right.eval pass >>= fun b => (applyBinary op a b : Except EvalError Value) := by
  rw [Expr.eval]
  congr 1
  funext a
  split
  · exact absurd rfl hop
  · exact absurd rfl hop
  · rfl

/-- The operators `&&` and `||` evaluate the right operand unless the left one decides. -/
theorem Expr.eval_shortCircuit {op : BinaryOp} (hop : op.isShortCircuit = true) (left right : Expr)
    (pass : Pass m) : (Expr.binary op left right).eval pass = (do
      let a ← left.eval pass
      let c ← a.truthy
      if op.decidedBy c then return .boolean c
      else
        let b ← right.eval pass
        return .boolean (← b.truthy)) := by
  cases op with
  | and | or =>
      rw [Expr.eval]
      congr 1
      funext a
      simp only
      congr 1
      funext c
      cases c <;> rfl
  | _ => exact nomatch hop

/-- A choice from three arguments is a conditional. -/
theorem evalChoice_three (condition yes no : Expr) (pass : Pass m) :
    evalChoice [condition, yes, no] pass = (Expr.conditional condition yes no).eval pass := by
  rw [Expr.eval, evalChoice]

/-! ## Built-in functions -/

variable {name : String} {pass : Pass m} {f : Builtin} {arguments : List Expr}

theorem Pass.builtinValue_of_unknown
    (hlookup : Builtin.lookup name pass.options.ignoreCase = none) :
    pass.builtinValue name arguments = throw (.undefinedFunction name) := by
  unfold builtinValue
  rw [hlookup]

variable [LawfulMonad m]

/-- A wrong number of arguments is refused before any of them is evaluated. -/
theorem Pass.builtinValue_of_not_accepts
    (hlookup : Builtin.lookup name pass.options.ignoreCase = some f)
    (harity : f.arity.accepts arguments.length = false) :
    pass.builtinValue name arguments = throw (.wrongArity f) := by
  have hcheck : f.checkArity arguments.length = .error (.wrongArity f) := if_neg (by simp [harity])
  unfold builtinValue
  simp only [hlookup, hcheck]
  apply ExceptT.ext
  exact (pure_bind ..).trans rfl

/-- The function `if` is a conditional. -/
theorem Pass.builtinValue_choose {condition yes no : Expr}
    (hlookup : Builtin.lookup name pass.options.ignoreCase = some .choose) :
    pass.builtinValue name [condition, yes, no] =
      (Expr.conditional condition yes no).eval pass := by
  unfold builtinValue
  simp only [hlookup]
  exact (pure_bind ..).trans (evalChoice_three condition yes no pass)

/-- The other functions are applied to the values of all arguments. -/
theorem Pass.builtinValue_of_accepts
    (hlookup : Builtin.lookup name pass.options.ignoreCase = some f) (hf : f ≠ .choose)
    (harity : f.arity.accepts arguments.length = true) :
    pass.builtinValue name arguments = (do
      let values ← evalAll arguments pass
      f.call pass.options values) := by
  have hcheck : f.checkArity arguments.length = .ok () := if_pos harity
  unfold builtinValue
  simp only [hlookup, hcheck]
  rw [if_neg (by simp [Builtin.isLazy, hf])]
  exact pure_bind ..

end Steps

end FormulaEngine
