import FormulaEngine.Proofs.Broadcast
import FormulaEngine.Proofs.PassSteps
import FormulaEngine.Proofs.ValueFailures

/-!
# Evaluations side by side

Two hosts evaluate the same tree, each in a pass of its own.  If what they answer for the parameters
and the calls of the tree is related, step by step, then so are the two evaluations, however deep
the calls of a hook for its arguments go.

* `Pass.forArgument` -- the pass in which an argument is evaluated when a hook asks for it;
* `Stepwise` -- relations between the actions of two hosts that go through sequences;
* `Pass.Alike` -- hosts that answer alike;
* `Expr.eval_related`, `Expr.eval_alike` -- one pass over a tree;
* `Stepwise.run` -- one pass or a broadcast.
-/

namespace FormulaEngine

/-! ## Arguments that are evaluated later -/

/-- Two uses of hooks, one within the other. -/
def HookUse.within : HookUse → HookUse → HookUse
  | .all, use => use
  | .resolvers, _ => .resolvers

/-- A call that is evaluated without handlers has none for its arguments. -/
theorem Hooks.using_using {m : Type → Type} (h : Hooks m) (outer inner : HookUse) :
    (h.using outer).using inner = h.using (outer.within inner) := by
  cases outer <;> cases inner <;> rfl

section Lazy

variable {m : Type → Type} [Monad m]

/-- The pass of an argument that is evaluated when a hook asks for it. -/
def Pass.forArgument (pass : Pass m) (use : HookUse) : Pass m :=
  ⟨pass.options.singlePass, pass.parameters, pass.hooks.using use⟩

omit [Monad m] in
theorem Pass.forArgument_forArgument (pass : Pass m) (outer inner : HookUse) :
    (pass.forArgument outer).forArgument inner = pass.forArgument (outer.within inner) := by
  unfold forArgument
  rw [Hooks.using_using]
  rfl

/-- A tree is evaluated in a pass as if it were an argument. -/
theorem Expr.eval_forArgument_all (e : Expr) (pass : Pass m) :
    e.eval (pass.forArgument .all) = e.eval pass := e.eval_single pass

/-- An argument that is left as it is is evaluated in the pass of the call. -/
theorem evaluate_of_mem_lazyArguments {arguments : List Expr} {pass : Pass m} {a : Argument m}
    (h : a ∈ lazyArguments arguments pass) :
    ∃ e ∈ arguments, ∀ use, a.evaluate use = e.eval (pass.forArgument use) := by
  induction arguments with
  | nil => exact nomatch h
  | cons e rest ih =>
      unfold lazyArguments at h
      rcases List.mem_cons.1 h with rfl | h
      · exact ⟨e, List.mem_cons_self, fun use => rfl⟩
      · obtain ⟨d, hd, heval⟩ := ih h
        exact ⟨d, List.mem_cons_of_mem e hd, heval⟩

end Lazy

theorem Expr.mem_occurrencesAll {name : String} {arguments : List Expr} :
    name ∈ Expr.occurrencesAll arguments ↔ ∃ e ∈ arguments, name ∈ e.occurrences := by
  induction arguments with
  | nil => simp [Expr.occurrencesAll]
  | cons e rest ih => simp [Expr.occurrencesAll, ih]

/-! ## Two hosts -/

section Related

variable {m n : Type → Type} [Monad m] [Monad n]

/-- A relation between actions of two hosts that holds of equal results and of equal failures, other
than for want of a parameter, and that goes through sequences. -/
structure Stepwise (R : ∀ α : Type, ExceptT EvalError m α → ExceptT EvalError n α → Prop) :
    Prop where
  result : ∀ {α : Type} (a : α), R α (pure a) (pure a)
  failure : ∀ {α : Type} (err : EvalError), (∀ name, err ≠ .undefinedParameter name) →
    R α (throw err) (throw err)
  sequence : ∀ {α β : Type} {x : ExceptT EvalError m α} {y : ExceptT EvalError n α}
    {f : α → ExceptT EvalError m β} {g : α → ExceptT EvalError n β},
    R α x y → (∀ a, R β (f a) (g a)) → R β (x >>= f) (y >>= g)

variable {R : ∀ α : Type, ExceptT EvalError m α → ExceptT EvalError n α → Prop}

/-- Computations on values are the same on both sides. -/
theorem Stepwise.lift (hR : Stepwise R) {α : Type} {x : Except EvalError α}
    (hx : NeedsNoParameter x) : R α x x := by
  cases x with
  | ok a => exact hR.result a
  | error err => exact hR.failure err (needsNoParameter_error.1 hx)

/-- Two passes whose hosts answer alike, for the names in question and for every call whose
arguments are alike. -/
structure Pass.Alike (R : ∀ α : Type, ExceptT EvalError m α → ExceptT EvalError n α → Prop)
    (Asked : String → Prop) (p : Pass m) (q : Pass n) : Prop where
  options : p.options.singlePass = q.options.singlePass
  parameter : ∀ use name, Asked name →
    R Value ((p.forArgument use).parameterValue name) ((q.forArgument use).parameterValue name)
  answer : ∀ use name (arguments : List Expr),
    (∀ e ∈ arguments, ∀ use, R Value (e.eval (p.forArgument use)) (e.eval (q.forArgument use))) →
    R (Option Value) ((p.forArgument use).answer name arguments)
      ((q.forArgument use).answer name arguments)

/-- Alike arguments have alike values. -/
theorem Stepwise.evalAll (hR : Stepwise R) {arguments : List Expr} {p : Pass m} {q : Pass n}
    (h : ∀ e ∈ arguments, R Value (e.eval p) (e.eval q)) :
    R (List Value) (evalAll arguments p) (evalAll arguments q) := by
  induction arguments with
  | nil => exact hR.result []
  | cons e rest ih =>
      have hrest := ih fun d hd => h d (List.mem_cons_of_mem e hd)
      exact hR.sequence (h e List.mem_cons_self) fun v =>
        hR.sequence hrest fun vs => hR.result (v :: vs)

/-- A choice between alike branches by alike conditions. -/
theorem Stepwise.choice (hR : Stepwise R) {condition yes no : Expr} {p : Pass m} {q : Pass n}
    (hcondition : R Value (condition.eval p) (condition.eval q))
    (hyes : R Value (yes.eval p) (yes.eval q)) (hno : R Value (no.eval p) (no.eval q)) :
    R Value ((Expr.conditional condition yes no).eval p)
      ((Expr.conditional condition yes no).eval q) := by
  unfold Expr.eval
  refine hR.sequence hcondition fun c => hR.sequence (hR.lift c.needsNoParameter_truthy) fun b => ?_
  cases b with
  | true => exact hyes
  | false => exact hno

/-- A choice from three arguments; any other number of them fails on both sides. -/
theorem Stepwise.evalChoice (hR : Stepwise R) {arguments : List Expr} {p : Pass m} {q : Pass n}
    (h : ∀ e ∈ arguments, R Value (e.eval p) (e.eval q)) :
    R Value (evalChoice arguments p) (evalChoice arguments q) := by
  have hfailure : R Value (throw (.wrongArity .choose)) (throw (.wrongArity .choose)) :=
    hR.failure _ fun name h => nomatch h
  rcases arguments with _ | ⟨condition, _ | ⟨yes, _ | ⟨no, _ | ⟨fourth, rest⟩⟩⟩⟩
  · exact hfailure
  · exact hfailure
  · exact hfailure
  · rw [evalChoice_three, evalChoice_three]
    exact hR.choice (h condition (by simp)) (h yes (by simp)) (h no (by simp))
  · exact hfailure

/-- Built-in functions are the same on both sides. -/
theorem Stepwise.builtinValue (hR : Stepwise R) {arguments : List Expr} {p : Pass m} {q : Pass n}
    (hoptions : p.options = q.options) (name : String)
    (h : ∀ e ∈ arguments, R Value (e.eval p) (e.eval q)) :
    R Value (p.builtinValue name arguments) (q.builtinValue name arguments) := by
  unfold Pass.builtinValue
  rw [hoptions]
  split
  · exact hR.failure _ fun _ h => nomatch h
  · next f _ =>
      refine hR.sequence (hR.lift (f.needsNoParameter_checkArity _)) fun _ => ?_
      split
      · exact hR.evalChoice h
      · exact hR.sequence (hR.evalAll h) fun values => hR.lift (f.needsNoParameter_call _ values)

variable [LawfulMonad m] [LawfulMonad n]

omit [LawfulMonad m] [LawfulMonad n] in
/-- **Related parameters and calls make related evaluations.**  The induction is on the tree, for
all pairs of passes at once: how calls are related may depend on their arguments in other passes. -/
theorem Expr.eval_related (hR : Stepwise R) {ι : Type} {p : ι → Pass m} {q : ι → Pass n}
    {Asked : String → Prop}
    (hparameter : ∀ i name, Asked name →
      R Value ((p i).parameterValue name) ((q i).parameterValue name))
    (hcall : ∀ i name (arguments : List Expr),
      (∀ e ∈ arguments, ∀ i, R Value (e.eval (p i)) (e.eval (q i))) →
      R Value ((Expr.call name arguments).eval (p i)) ((Expr.call name arguments).eval (q i)))
    (e : Expr) (hasked : ∀ name ∈ e.occurrences, Asked name) (i : ι) :
    R Value (e.eval (p i)) (e.eval (q i)) := by
  induction e using Expr.byParts generalizing i with
  | literal l => exact hR.result l.value
  | parameter name => exact hparameter i name (hasked name List.mem_cons_self)
  | call name arguments ih =>
      apply hcall i name arguments
      intro e he i
      apply ih e he
      intro d hd
      exact hasked d (mem_occurrencesAll.2 ⟨e, he, hd⟩)
  | unary op operand ih =>
      exact hR.sequence (ih hasked i) fun v => hR.lift (needsNoParameter_applyUnary op v)
  | binary op left right ihl ihr =>
      have hleft := ihl (fun d hd => hasked d (List.mem_append_left _ hd)) i
      have hright := ihr (fun d hd => hasked d (List.mem_append_right _ hd)) i
      have htruthy := fun v : Value => hR.lift v.needsNoParameter_truthy
      by_cases hop : op.isShortCircuit = true
      · rw [eval_shortCircuit hop, eval_shortCircuit hop]
        refine hR.sequence hleft fun a => hR.sequence (htruthy a) fun c => ?_
        cases op.decidedBy c with
        | true => exact hR.result _
        | false => exact hR.sequence hright fun b => hR.sequence (htruthy b) fun _ => hR.result _
      · rw [eval_binary hop, eval_binary hop]
        exact hR.sequence hleft fun a => hR.sequence hright fun b =>
          hR.lift (needsNoParameter_applyBinary op a b)
  | conditional condition yes no ihc ihy ihn =>
      have hyes : ∀ name ∈ yes.occurrences, Asked name := fun d hd =>
        hasked d (List.mem_append_left _ (List.mem_append_right _ hd))
      have hcondition : ∀ name ∈ condition.occurrences, Asked name := fun d hd =>
        hasked d (List.mem_append_left _ (List.mem_append_left _ hd))
      have hno : ∀ name ∈ no.occurrences, Asked name := fun d hd =>
        hasked d (List.mem_append_right _ hd)
      exact hR.choice (ihc hcondition i) (ihy hyes i) (ihn hno i)

/-- **Hosts that answer alike make related evaluations**, for all uses of the hooks at once: a hook
may evaluate an argument with or without the handlers, within a call that is evaluated in either way
itself. -/
theorem Expr.eval_alike (hR : Stepwise R) {Asked : String → Prop} {p : Pass m} {q : Pass n}
    (h : p.Alike R Asked q) (e : Expr) (hasked : ∀ name ∈ e.occurrences, Asked name)
    (use : HookUse) : R Value (e.eval (p.forArgument use)) (e.eval (q.forArgument use)) := by
  refine e.eval_related hR h.parameter ?_ hasked use
  intro use name arguments hparts
  rw [eval_call, eval_call]
  refine hR.sequence (h.answer use name arguments hparts) fun answer => ?_
  cases answer with
  | some v => exact hR.result v
  | none => exact hR.builtinValue h.options name fun e he => hparts e he use

/-! ## Broadcasts -/

section Broadcast

variable (p : Pass m) (q : Pass n) (once : Pass m → ExceptT EvalError m Value)
  (once' : Pass n → ExceptT EvalError n Value)

omit [LawfulMonad m] [LawfulMonad n]

/-- Loops over related passes are related. -/
theorem Stepwise.positions (hR : Stepwise R)
    (h : ∀ parameters, R Value (once { p with parameters }) (once' { q with parameters }))
    (count : Nat) (sequences : List (String × List Value)) (parameters : Parameters) :
    R (List Value) (Pass.positions once count sequences { p with parameters })
      (Pass.positions once' count sequences { q with parameters }) := by
  induction count generalizing sequences parameters with
  | zero => exact hR.result []
  | succ count ih =>
      unfold Pass.positions
      exact hR.sequence (h _) fun v => hR.sequence (ih _ _) fun vs => hR.result (v :: vs)

/-- Over the same parameters, related passes make related evaluations, in one pass or in many. -/
theorem Stepwise.run (hR : Stepwise R) (hoptions : p.options = q.options)
    (hparameters : p.parameters = q.parameters)
    (h : ∀ parameters, R Value (once { p with parameters }) (once' { q with parameters })) :
    R Value (p.run once) (q.run once') := by
  have hloop := hR.positions p q once once' h
  obtain ⟨options, parameters, hooks⟩ := p
  obtain ⟨options', parameters', hooks'⟩ := q
  obtain rfl : options = options' := hoptions
  obtain rfl : parameters = parameters' := hparameters
  unfold Pass.run Pass.broadcast
  simp only
  split
  · split
    · exact hR.result _
    · split
      · exact hR.sequence (hloop _ _ parameters) fun values => hR.result _
      · exact hR.failure _ fun _ h => nomatch h
  · exact h parameters

end Broadcast

end Related

end FormulaEngine
