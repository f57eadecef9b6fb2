import FormulaEngine.Evaluation.BuiltinCall
import Mathlib.Tactic.Common

/-!
# Operations on values fail for their operands

Operators and built-in functions work on values that are there.  Whatever they fail for, it is not
for want of a parameter.

* `NeedsNoParameter` -- an outcome that is no such failure;
* `needsNoParameter_applyBinary`, `needsNoParameter_applyUnary`, `Builtin.needsNoParameter_call` --
  the operators and the functions.
-/

namespace FormulaEngine

variable {α β : Type}

/-- Not a failure for want of a parameter. -/
def NeedsNoParameter (x : Except EvalError α) : Prop :=
  ∀ name, x ≠ .error (.undefinedParameter name)

@[simp]
theorem needsNoParameter_ok (a : α) : NeedsNoParameter (.ok a : Except EvalError α) := by
  intro name h
  exact nomatch h

@[simp]
theorem needsNoParameter_pure (a : α) : NeedsNoParameter (pure a : Except EvalError α) :=
  needsNoParameter_ok a

@[simp]
theorem needsNoParameter_error {err : EvalError} :
    NeedsNoParameter (.error err : Except EvalError α) ↔
      ∀ name, err ≠ .undefinedParameter name := by
  simp [NeedsNoParameter]

@[simp]
theorem NeedsNoParameter.bind {x : Except EvalError α} {f : α → Except EvalError β}
    (hx : NeedsNoParameter x) (hf : ∀ a, NeedsNoParameter (f a)) : NeedsNoParameter (x >>= f) := by
  cases x with
  | ok a => exact hf a
  | error err => exact fun name h => hx name (congrArg Except.error (Except.error.inj h))

@[simp]
theorem NeedsNoParameter.map {x : Except EvalError α} (hx : NeedsNoParameter x) (f : α → β) :
    NeedsNoParameter (f <$> x) := by
  rw [← bind_pure_comp]
  exact hx.bind fun a => needsNoParameter_pure (f a)

@[simp]
theorem needsNoParameter_fitInteger (op : BinaryOp) (k : Int) :
    NeedsNoParameter (fitInteger op k) := by
  unfold fitInteger
  split <;> simp

@[simp]
theorem needsNoParameter_fitDecimal (op : BinaryOp) (d : Option Decimal) :
    NeedsNoParameter (fitDecimal op d) := by
  unfold fitDecimal
  split <;> simp

namespace Value

@[simp]
theorem needsNoParameter_truthy (v : Value) : NeedsNoParameter v.truthy := by
  unfold truthy
  split <;> simp

/-- Arithmetic fails for its operands or for its result. -/
theorem needsNoParameter_arithmetic {f : NumberPair → Except EvalError Value}
    (hf : ∀ pair, NeedsNoParameter (f pair)) (op : BinaryOp) (a b : Value) :
    NeedsNoParameter (numericOperands op a b >>= f) := by
  refine NeedsNoParameter.bind ?_ hf
  unfold numericOperands
  split <;> simp

theorem needsNoParameter_integerOperands (op : BinaryOp) (a b : Value) :
    NeedsNoParameter (integerOperands op a b) := by
  unfold integerOperands
  split <;> simp

theorem needsNoParameter_order (a b : Value) : NeedsNoParameter (a.order b) := by
  unfold order
  split
  · simp
  · simp
  · simp
  · split <;> simp

theorem needsNoParameter_expectFloat (v : Value) : NeedsNoParameter v.expectFloat := by
  unfold expectFloat
  split <;> simp

end Value

/-- No operator fails for want of a parameter. -/
theorem needsNoParameter_applyBinary (op : BinaryOp) (a b : Value) :
    NeedsNoParameter (applyBinary op a b) := by
  have hordered : ∀ accept, NeedsNoParameter (a.ordered accept b) := by
    intro accept
    exact (a.needsNoParameter_order b).bind fun _ => needsNoParameter_ok _
  have hbitwise : ∀ op f, NeedsNoParameter (a.bitwise op f b) := by
    intro op f
    exact (a.needsNoParameter_integerOperands op b).bind fun _ => needsNoParameter_ok _
  have hshift : ∀ op f, NeedsNoParameter (a.shift op f b) := by
    intro op f
    refine (a.needsNoParameter_integerOperands op b).bind fun (c, d) => ?_
    simp only
    split <;> simp
  cases op with
  | add =>
      change NeedsNoParameter (if a.isString || b.isString then _ else _)
      split
      · exact needsNoParameter_ok _
      · refine Value.needsNoParameter_arithmetic (fun pair => ?_) .add a b
        cases pair <;> simp [NumberPair.add]
  | subtract =>
      refine Value.needsNoParameter_arithmetic (fun pair => ?_) .subtract a b
      cases pair <;> simp [NumberPair.subtract]
  | multiply =>
      refine Value.needsNoParameter_arithmetic (fun pair => ?_) .multiply a b
      cases pair <;> simp [NumberPair.multiply]
  | divide =>
      refine Value.needsNoParameter_arithmetic (fun pair => ?_) .divide a b
      unfold NumberPair.divide
      split
      · split <;> simp
      · split <;> simp
      · simp
  | modulo =>
      refine Value.needsNoParameter_arithmetic (fun pair => ?_) .modulo a b
      unfold NumberPair.modulo
      split
      · split
        · simp
        · split <;> simp
      · split <;> simp
      · simp
  | equal | notEqual => exact needsNoParameter_ok _
  | less | lessEqual | greater | greaterEqual => exact hordered _
  | and =>
      refine a.needsNoParameter_truthy.bind fun c => ?_
      split
      · exact b.needsNoParameter_truthy.bind fun _ => needsNoParameter_ok _
      · exact needsNoParameter_ok _
  | or =>
      refine a.needsNoParameter_truthy.bind fun c => ?_
      split
      · exact needsNoParameter_ok _
      · exact b.needsNoParameter_truthy.bind fun _ => needsNoParameter_ok _
  | bitAnd | bitOr | bitXor => exact hbitwise _ _
  | shiftLeft | shiftRight => exact hshift _ _

theorem needsNoParameter_applyUnary (op : UnaryOp) (v : Value) :
    NeedsNoParameter (applyUnary op v) := by
  unfold applyUnary
  split
  · exact (Value.needsNoParameter_truthy _).bind fun _ => needsNoParameter_ok _
  · split <;> simp
  all_goals simp

namespace Value

@[simp]
theorem needsNoParameter_mapFloat (f : Float → Float) (v : Value) :
    NeedsNoParameter (v.mapFloat f) :=
  v.needsNoParameter_expectFloat.bind fun _ => needsNoParameter_pure _

@[simp]
theorem needsNoParameter_absolute (v : Value) : NeedsNoParameter v.absolute := by
  unfold absolute
  split
  · split <;> simp
  · simp
  · exact needsNoParameter_mapFloat _ _

@[simp]
theorem needsNoParameter_integral (onDecimal : Decimal → Decimal) (onFloat : Float → Float)
    (v : Value) : NeedsNoParameter (v.integral onDecimal onFloat) := by
  unfold integral
  split
  · simp
  · simp
  · exact needsNoParameter_mapFloat _ _

@[simp]
theorem needsNoParameter_sign (v : Value) : NeedsNoParameter v.sign := by
  unfold sign
  split
  · simp
  · simp
  · refine (needsNoParameter_expectFloat _).bind fun x => ?_
    split <;> simp

@[simp]
theorem needsNoParameter_mapFloats (f : Float → Float → Float) (v w : Value) :
    NeedsNoParameter (v.mapFloats f w) :=
  v.needsNoParameter_expectFloat.bind fun _ =>
    w.needsNoParameter_expectFloat.bind fun _ => needsNoParameter_pure _

@[simp]
theorem needsNoParameter_round (tie : TieRule) (digits : Nat) (v : Value) :
    NeedsNoParameter (v.round tie digits) := by
  unfold round
  split
  · simp
  · simp
  · exact needsNoParameter_mapFloat _ _

@[simp]
theorem needsNoParameter_roundingDigits (v : Value) : NeedsNoParameter v.roundingDigits := by
  unfold roundingDigits
  split
  · split <;> simp
  · simp

@[simp]
theorem needsNoParameter_extremum (keepFirst : Ordering → Bool) (a b : Value) :
    NeedsNoParameter (a.extremum keepFirst b) := by
  refine (a.needsNoParameter_order b).bind fun order => ?_
  cases order <;> simp

end Value

namespace Builtin

theorem needsNoParameter_checkArity (f : Builtin) (count : Nat) :
    NeedsNoParameter (f.checkArity count) := by
  unfold checkArity
  split <;> simp

/-- No function fails for want of a parameter. -/
theorem needsNoParameter_call (f : Builtin) (options : Options) (args : List Value) :
    NeedsNoParameter (f.call options args) := by
  refine (f.needsNoParameter_checkArity args.length).bind fun _ => ?_
  unfold apply
  split
  all_goals simp

end Builtin

end FormulaEngine
