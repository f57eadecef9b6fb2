import FormulaEngine.Proofs.Dependence

/-!
# Evaluation of all parts

A tree may also be evaluated by evaluating all of its parts first: both branches of a conditional,
both sides of `&&` and `||`, and all arguments of a call.  Where that succeeds, the parts that an
evaluation leaves out do not matter.

* `Expr.strict` -- the value of a tree all parts of which are evaluated;
* `Expr.eval_of_strict` -- one pass without hooks has the same value, whatever the host is;
* `Expr.outcome_of_strict` -- so has an evaluation.
-/

namespace FormulaEngine

section Strict

variable (options : Options) (p : Parameters)

mutual

/-- The value of a tree, all parts of which are evaluated first from left to right. -/
def Expr.strict : Expr → Except EvalError Value
  | .literal l => .ok l.value
  | .parameter name =>
    match p.get? name with
    | some v => .ok v
    | none => .error (.undefinedParameter name)
  | .call name arguments => do
    let values ← strictAll arguments
    match Builtin.lookup name options.ignoreCase with
    | some f => f.call options values
    | none => .error (.undefinedFunction name)
  | .unary op operand => do
    let v ← operand.strict
    applyUnary op v
  | .binary op left right => do
    let a ← left.strict
    let b ← right.strict
    applyBinary op a b
  | .conditional condition yes no => do
    let c ← condition.strict
    let y ← yes.strict
    let n ← no.strict
    if ← c.truthy then .ok y else .ok n

/-- The values of several trees from left to right, up to the first failure. -/
def strictAll : List Expr → Except EvalError (List Value)
  | [] => .ok []
  | e :: rest => do
    let v ← e.strict
    let vs ← strictAll rest
    .ok (v :: vs)

end

variable {options p}

/-- Values of several trees are one of the first and those of the rest. -/
theorem eq_cons_of_strictAll_cons {e : Expr} {rest : List Expr} {values : List Value}
    (h : strictAll options p (e :: rest) = .ok values) :
    ∃ v vs, values = v :: vs ∧ e.strict options p = .ok v ∧ strictAll options p rest = .ok vs := by
  obtain ⟨v, hv, h⟩ := bind_eq_ok_iff.1 h
  obtain ⟨vs, hvs, h⟩ := bind_eq_ok_iff.1 h
  cases h
  exact ⟨v, vs, rfl, hv, hvs⟩

/-- As many values as trees. -/
theorem length_of_strictAll {arguments : List Expr} {values : List Value}
    (h : strictAll options p arguments = .ok values) : values.length = arguments.length := by
  induction arguments generalizing values with
  | nil =>
      cases h
      rfl
  | cons e rest ih =>
      obtain ⟨v, vs, rfl, -, hvs⟩ := eq_cons_of_strictAll_cons h
      exact congrArg (· + 1) (ih hvs)

section Lazy

variable {m : Type → Type} [Monad m]

/-- A success is a result without effects. -/
theorem liftM_ok {α : Type} (a : α) :
    (liftM (Except.ok a : Except EvalError α) : ExceptT EvalError m α) = pure a := rfl

variable [LawfulMonad m]

/-- A condition that has a truth value decides between the branches. -/
theorem conditional_of_truthy {condition yes no : Expr} {c : Value} {b : Bool} {pass : Pass m}
    (hcondition : condition.eval pass = pure c) (hb : c.truthy = .ok b) :
    (Expr.conditional condition yes no).eval pass = if b then yes.eval pass else no.eval pass := by
  rw [Expr.eval, hcondition, pure_bind, hb, liftM_ok, pure_bind]

/-- Values of all arguments. -/
theorem evalAll_of_strictAll {arguments : List Expr} {pass : Pass m} {values : List Value}
    (ih : ∀ e ∈ arguments, ∀ v, e.strict options p = .ok v → e.eval pass = pure v)
    (h : strictAll options p arguments = .ok values) : evalAll arguments pass = pure values := by
  induction arguments generalizing values with
  | nil =>
      cases h
      rfl
  | cons e rest ihrest =>
      obtain ⟨v, vs, rfl, hv, hvs⟩ := eq_cons_of_strictAll_cons h
      have hrest := ihrest (fun d hd => ih d (List.mem_cons_of_mem e hd)) hvs
      rw [evalAll, ih e List.mem_cons_self v hv, pure_bind, hrest, pure_bind]

/-- The operators `&&` and `||` do not need a right operand when the left one decides. -/
theorem eval_shortCircuit_of_apply {op : BinaryOp} (hop : op.isShortCircuit = true)
    {left right : Expr} {a b v : Value} {pass : Pass m} (hleft : left.eval pass = pure a)
    (hright : right.eval pass = pure b) (h : applyBinary op a b = .ok v) :
    (Expr.binary op left right).eval pass = pure v := by
  rw [applyBinary_shortCircuit hop] at h
  obtain ⟨c, hc, h⟩ := bind_eq_ok_iff.1 h
  rw [Expr.eval_shortCircuit hop, hleft, pure_bind, hc, liftM_ok, pure_bind]
  split at h
  · next hdecided =>
      cases h
      rw [if_pos hdecided]
  · next hundecided =>
      obtain ⟨d, hd, h⟩ := bind_eq_ok_iff.1 h
      cases h
      rw [if_neg hundecided, hright, pure_bind, hd, liftM_ok, pure_bind]

/-- The function `if` has a value on three values only, the first of them a condition. -/
theorem eq_of_apply_choose {values : List Value} {v : Value}
    (h : Builtin.choose.apply options values = .ok v) :
    ∃ c y n b, values = [c, y, n] ∧ c.truthy = .ok b ∧ v = if b then y else n := by
  match values, h with
  | [c, y, n], h =>
      obtain ⟨b, hb, h⟩ := bind_eq_ok_iff.1 h
      cases h
      exact ⟨c, y, n, b, rfl, hb, rfl⟩
  | [], h => exact nomatch h
  | [_], h => exact nomatch h
  | [_, _], h => exact nomatch h
  | _ :: _ :: _ :: _ :: _, h => exact nomatch h

/-- Of its three arguments `if` needs only two. -/
theorem eval_conditional_of_apply {condition yes no : Expr} {pass : Pass m} {values : List Value}
    {v : Value}
    (ih : ∀ e ∈ [condition, yes, no], ∀ v, e.strict options p = .ok v → e.eval pass = pure v)
    (hvalues : strictAll options p [condition, yes, no] = .ok values)
    (h : Builtin.choose.apply pass.options values = .ok v) :
    (Expr.conditional condition yes no).eval pass = pure v := by
  obtain ⟨c, y, n, b, rfl, hb, rfl⟩ := eq_of_apply_choose h
  obtain ⟨_, _, hcons, hc, hvalues⟩ := eq_cons_of_strictAll_cons hvalues
  cases hcons
  obtain ⟨_, _, hcons, hy, hvalues⟩ := eq_cons_of_strictAll_cons hvalues
  cases hcons
  obtain ⟨_, _, hcons, hn, -⟩ := eq_cons_of_strictAll_cons hvalues
  cases hcons
  rw [conditional_of_truthy (ih condition (by simp) c hc) hb, ih yes (by simp) y hy,
    ih no (by simp) n hn]
  cases b <;> rfl

/-- A built-in function of arguments that all have a value. -/
theorem builtinValue_of_call {name : String} {f : Builtin} {arguments : List Expr} {pass : Pass m}
    {values : List Value} {v : Value}
    (hlookup : Builtin.lookup name pass.options.ignoreCase = some f)
    (ih : ∀ e ∈ arguments, ∀ v, e.strict options p = .ok v → e.eval pass = pure v)
    (hvalues : strictAll options p arguments = .ok values)
    (h : f.call pass.options values = .ok v) : pass.builtinValue name arguments = pure v := by
  have hlength := length_of_strictAll hvalues
  by_cases hf : f = .choose
  · subst hf
    obtain ⟨_, -, happly⟩ := bind_eq_ok_iff.1 h
    obtain ⟨c, y, n, -, rfl, -⟩ := eq_of_apply_choose happly
    obtain ⟨condition, yes, no, rfl⟩ := List.length_eq_three.1 hlength.symm
    rw [Pass.builtinValue_choose hlookup]
    exact eval_conditional_of_apply ih hvalues happly
  · have harity : f.arity.accepts arguments.length = true := by
      cases haccepts : f.arity.accepts values.length with
      | true => rwa [← hlength]
      | false => exact nomatch (Builtin.call_eq_error_of_not_accepts haccepts).symm.trans h
    rw [Pass.builtinValue_of_accepts hlookup hf harity, evalAll_of_strictAll ih hvalues, pure_bind,
      h, liftM_ok]

/-- **What has a value when all parts are evaluated has that value.**  By induction on the tree. -/
theorem Expr.eval_of_strict (e : Expr) {v : Value} (h : e.strict options p = .ok v) :
    e.eval (⟨options, p, {}⟩ : Pass m) = pure v := by
  induction e using Expr.byParts generalizing v with
  | literal l =>
      cases h
      rfl
  | parameter name =>
      unfold Expr.strict at h
      split at h
      · next hget =>
          cases h
          exact Pass.parameterValue_of_get? hget
      · cases h
  | call name arguments ih =>
      obtain ⟨values, hvalues, h⟩ := bind_eq_ok_iff.1 h
      split at h
      · next f hlookup =>
          rw [eval_call, Pass.answer_of_no_hook rfl, pure_bind]
          exact builtinValue_of_call hlookup (fun e he v => ih e he) hvalues h
      · cases h
  | unary op operand ih =>
      obtain ⟨a, ha, h⟩ := bind_eq_ok_iff.1 h
      rw [Expr.eval, ih ha, pure_bind, h, liftM_ok]
  | binary op left right ihl ihr =>
      obtain ⟨a, ha, h⟩ := bind_eq_ok_iff.1 h
      obtain ⟨b, hb, h⟩ := bind_eq_ok_iff.1 h
      by_cases hop : op.isShortCircuit = true
      · exact eval_shortCircuit_of_apply hop (ihl ha) (ihr hb) h
      · rw [eval_binary hop, ihl ha, pure_bind, ihr hb, pure_bind, h, liftM_ok]
  | conditional condition yes no ihc ihy ihn =>
      obtain ⟨c, hc, h⟩ := bind_eq_ok_iff.1 h
      obtain ⟨y, hy, h⟩ := bind_eq_ok_iff.1 h
      obtain ⟨n, hn, h⟩ := bind_eq_ok_iff.1 h
      obtain ⟨b, hb, h⟩ := bind_eq_ok_iff.1 h
      rw [conditional_of_truthy (ihc hc) hb]
      cases b with
      | true =>
          cases h
          exact ihy hy
      | false =>
          cases h
          exact ihn hn

end Lazy

/-- **Lazy evaluation agrees with strict evaluation.**  Where a tree has a value with all of its
parts evaluated, an evaluation without hooks has the same value, in one pass. -/
theorem Expr.outcome_of_strict (e : Expr) (hsingle : options.iterate = false) {v : Value}
    (h : e.strict options p = .ok v) : e.outcome options p = .ok v := by
  unfold outcome
  rw [e.evaluate_of_not_iterate hsingle, e.eval_of_strict h]
  rfl

end Strict

/-- Lazy parts within each other: a call of `if` within a conditional, with a disjunction in its
condition. -/
def choices : Expr :=
  .conditional (.binary .or (.parameter "n") (.call "in" [.parameter "n", .literal (.integer 2)]))
    (.call "IF" [.binary .and (.parameter "n") (.literal (.boolean false)), .parameter "s",
      .binary .add (.parameter "n") (.literal (.integer 1))])
    (.unary .negate (.parameter "n"))

/-- A text, which is no condition, and a number. -/
def textAndNumber : Parameters where
  entries := [("s", .string "true"), ("n", .integer 4)]
  ignoreCase := false
  distinct := by decide +kernel

/-- All parts of the choices have a value, and so have the choices. -/
theorem Expr.outcome_of_strict_choices :
    choices.strict { ignoreCase := true } textAndNumber = .ok (.integer 5) ∧
    choices.outcome { ignoreCase := true } textAndNumber = .ok (.integer 5) := by
  have hstrict : choices.strict { ignoreCase := true } textAndNumber = .ok (.integer 5) := rfl
  exact ⟨hstrict, outcome_of_strict choices rfl hstrict⟩

end FormulaEngine
