import FormulaEngine.Proofs.Dependence

/-!
# The names that an evaluation asks for

A host may answer for parameters with a handler and a resolver.  One pass asks it for the parameters
that it comes to and that have no value: from left to right, without the parts that are left out,
and up to the first name that has no answer.

* `ParameterHost.answer` -- what a handler and a resolver make of a name;
* `Expr.Asks`, `AsksAll` -- the names that are asked for, and the outcome, rule by rule;
* `Gives` -- the calls and the outcome of a run;
* `Expr.follows` -- a pass calls the handler and the resolver once for each of the names;
* `Expr.exists_asks` -- the rules cover every tree;
* `Reached`, `Expr.orderly` -- the order of the names, and what ends them;
* `Expr.asked_names` -- all calls of an evaluation.
-/

namespace FormulaEngine

/-- A host that answers for parameters.  Its handler and its resolver turn the result so far into
another one; the resolver may also fail. -/
structure ParameterHost where
  handler : String → Option Value → Option Value
  resolver : String → Option Value → Except EvalError (Option Value)

namespace ParameterHost

/-- The value of a name by the result that is left for it in the end. -/
def orUndefined (name : String) : Option Value → Except EvalError Value
  | some v => .ok v
  | none => .error (.undefinedParameter name)

/-- The calls of a host for a name. -/
def callsFor (name : String) : List HostCall :=
  [⟨.parameter, .handler, name⟩, ⟨.parameter, .resolver, name⟩]

variable (host : ParameterHost)

/-- What the host answers for a name.  The handler begins without a result, and the resolver with
that of the handler; it replaces the result, leaves it alone or fails. -/
def answer (name : String) : Except EvalError Value :=
  host.resolver name (host.handler name none) >>= orUndefined name

/-- The resolver and the result that it leaves. -/
def resolved (name : String) (result : Option Value) : Except EvalError Unit × Option Value :=
  match host.resolver name result with
  | .ok next => (.ok (), next)
  | .error err => (.error err, result)

/-- The host as a hook. -/
def hook : Hook Id (Option Value) where
  handler := some fun name => modify (host.handler name)
  resolver := some fun name => ExceptT.mk (host.resolved name)

/-- A pass with no other hook, in which the calls of the host are noted. -/
def pass (options : Options) (p : Parameters) : Pass (Noting Id) :=
  ⟨options, p, Hooks.noting { parameter := host.hook.overNotes }⟩

end ParameterHost

/-! ## The rules -/

section Rules

variable (host : ParameterHost) (options : Options) (p : Parameters)

mutual

/-- One pass over a tree asks the host for these names, in this order, and has this outcome. -/
inductive Expr.Asks : Expr → List String → Except EvalError Value → Prop where
  | literal {l : Literal} : Expr.Asks (.literal l) [] (.ok l.value)
  | defined {name : String} {v : Value} : p.get? name = some v →
      Expr.Asks (.parameter name) [] (.ok v)
  /-- a parameter without a value has the answer of the host -/
  | asked {name : String} : p.get? name = none →
      Expr.Asks (.parameter name) [name] (host.answer name)
  | unary {op : UnaryOp} {operand : Expr} {names : List String} {o : Except EvalError Value} :
      Expr.Asks operand names o → Expr.Asks (.unary op operand) names (o >>= applyUnary op)
  /-- no operator goes on without its left operand -/
  | leftFails {op : BinaryOp} {left right : Expr} {names : List String} {err : EvalError} :
      Expr.Asks left names (.error err) → Expr.Asks (.binary op left right) names (.error err)
  | operands {op : BinaryOp} {left right : Expr} {names more : List String} {a : Value}
      {o : Except EvalError Value} : ¬op.isShortCircuit = true →
      Expr.Asks left names (.ok a) → Expr.Asks right more o →
      Expr.Asks (.binary op left right) (names ++ more) (o >>= applyBinary op a)
  /-- the left operand of `&&` or `||` is no truth value -/
  | noTruth {op : BinaryOp} {left right : Expr} {names : List String} {a : Value}
      {err : EvalError} : op.isShortCircuit = true → Expr.Asks left names (.ok a) →
      a.truthy = .error err → Expr.Asks (.binary op left right) names (.error err)
  /-- the left operand decides, and the right one is left out -/
  | decided {op : BinaryOp} {left right : Expr} {names : List String} {a : Value} {c : Bool} :
      op.isShortCircuit = true → Expr.Asks left names (.ok a) → a.truthy = .ok c →
      op.decidedBy c = true → Expr.Asks (.binary op left right) names (.ok (.boolean c))
  | undecided {op : BinaryOp} {left right : Expr} {names more : List String} {a : Value}
      {c : Bool} {o : Except EvalError Value} : op.isShortCircuit = true →
      Expr.Asks left names (.ok a) → a.truthy = .ok c → op.decidedBy c = false →
      Expr.Asks right more o →
      Expr.Asks (.binary op left right) (names ++ more)
        (o >>= fun b => Value.boolean <$> b.truthy)
  /-- without a truth value of the condition no branch is taken -/
  | noBranch {condition yes no : Expr} {names : List String} {o : Except EvalError Value}
      {err : EvalError} : Expr.Asks condition names o → o >>= Value.truthy = .error err →
      Expr.Asks (.conditional condition yes no) names (.error err)
  /-- the second branch is left out -/
  | first {condition yes no : Expr} {names more : List String} {c : Value}
      {o : Except EvalError Value} : Expr.Asks condition names (.ok c) → c.truthy = .ok true →
      Expr.Asks yes more o → Expr.Asks (.conditional condition yes no) (names ++ more) o
  /-- the first branch is left out -/
  | second {condition yes no : Expr} {names more : List String} {c : Value}
      {o : Except EvalError Value} : Expr.Asks condition names (.ok c) → c.truthy = .ok false →
      Expr.Asks no more o → Expr.Asks (.conditional condition yes no) (names ++ more) o
  /-- the arguments of an unknown function are left out -/
  | unknown {name : String} {arguments : List Expr} :
      Builtin.lookup name options.ignoreCase = none →
      Expr.Asks (.call name arguments) [] (.error (.undefinedFunction name))
  /-- a wrong number of arguments is refused before any of them is evaluated -/
  | refused {name : String} {f : Builtin} {arguments : List Expr} :
      Builtin.lookup name options.ignoreCase = some f →
      f.arity.accepts arguments.length = false →
      Expr.Asks (.call name arguments) [] (.error (.wrongArity f))
  | choice {name : String} {condition yes no : Expr} {names : List String}
      {o : Except EvalError Value} : Builtin.lookup name options.ignoreCase = some .choose →
      Expr.Asks (.conditional condition yes no) names o →
      Expr.Asks (.call name [condition, yes, no]) names o
  | arguments {name : String} {f : Builtin} {arguments : List Expr} {names : List String}
      {o : Except EvalError (List Value)} : Builtin.lookup name options.ignoreCase = some f →
      f ≠ .choose → f.arity.accepts arguments.length = true → AsksAll arguments names o →
      Expr.Asks (.call name arguments) names (o >>= f.call options)

/-- One pass over several trees, from left to right. -/
inductive AsksAll : List Expr → List String → Except EvalError (List Value) → Prop where
  | nil : AsksAll [] [] (.ok [])
  | fails {e : Expr} {rest : List Expr} {names : List String} {err : EvalError} :
      Expr.Asks e names (.error err) → AsksAll (e :: rest) names (.error err)
  | cons {e : Expr} {rest : List Expr} {names more : List String} {v : Value}
      {o : Except EvalError (List Value)} : Expr.Asks e names (.ok v) → AsksAll rest more o →
      AsksAll (e :: rest) (names ++ more) ((v :: ·) <$> o)

end

end Rules

/-! ## Runs of a host that does nothing but note its calls -/

section Gives

variable {α β : Type}

/-- The calls that a run adds to the notes, whatever stands there, and its outcome. -/
def Gives (x : ExceptT EvalError (Noting Id) α) (calls : List HostCall) (o : Except EvalError α) :
    Prop :=
  ∀ before, x.run.run before = (o, before ++ calls)

variable {x : ExceptT EvalError (Noting Id) α} {f : α → ExceptT EvalError (Noting Id) β}
  {calls more : List HostCall}

/-- What depends on values only calls no host. -/
theorem gives_lift (o : Except EvalError α) : Gives (liftM o) [] o := by
  intro before
  rw [List.append_nil]
  cases o <;> rfl

theorem Gives.bind {a : α} {o : Except EvalError β} (hx : Gives x calls (.ok a))
    (hf : Gives (f a) more o) : Gives (x >>= f) (calls ++ more) o := by
  intro before
  rw [ExceptT.run_bind, StateT.run_bind, hx, ← List.append_assoc]
  exact hf (before ++ calls)

/-- After a failure nothing is called. -/
theorem Gives.bind_error {err : EvalError} (hx : Gives x calls (.error err)) :
    Gives (x >>= f) calls (.error err) := by
  intro before
  rw [ExceptT.run_bind, StateT.run_bind, hx]
  rfl

/-- A second step may call no host. -/
theorem Gives.bind_value {a : α} {o : Except EvalError β} (hx : Gives x calls (.ok a))
    (hf : Gives (f a) [] o) : Gives (x >>= f) calls o := by
  have h := hx.bind hf
  rwa [List.append_nil] at h

theorem Gives.bind_lift {o : Except EvalError α} (hx : Gives x calls o)
    (g : α → Except EvalError β) : Gives (x >>= fun a => liftM (g a)) calls (o >>= g) := by
  cases o with
  | ok a => exact hx.bind_value (f := fun a => liftM (g a)) (gives_lift (g a))
  | error err => exact hx.bind_error

/-- A first step may call no host. -/
theorem gives_lift_bind {a : α} {first : Except EvalError α} {o : Except EvalError β}
    (h : first = .ok a) (hf : Gives (f a) calls o) : Gives (liftM first >>= f) calls o := by
  subst h
  exact (gives_lift (.ok a)).bind hf

end Gives

section Host

variable {host : ParameterHost} {options : Options} {p : Parameters}

namespace ParameterHost

/-- The hook calls the handler and then the resolver. -/
theorem gives_consult (name : String) (result : Option Value) :
    Gives ((host.pass options p).hooks.parameter.consult name result)
      (callsFor name) (host.resolver name (host.handler name result)) := by
  intro before
  have hrun : ((host.pass options p).hooks.parameter.consult name result).run.run before =
      (((host.resolved name (host.handler name result)).1.map fun _ =>
        (host.resolved name (host.handler name result)).2),
        before ++ [⟨.parameter, .handler, name⟩] ++ [⟨.parameter, .resolver, name⟩]) := rfl
  rw [hrun, List.append_assoc]
  unfold resolved
  cases host.resolver name (host.handler name result) <;> rfl

/-- A parameter without a value has the answer of the host. -/
theorem gives_parameterValue {name : String} (h : p.get? name = none) :
    Gives ((host.pass options p).parameterValue name) (callsFor name) (host.answer name) := by
  have hget : (host.pass options p).parameters.get? name = none := h
  have hconsult : Gives ((host.pass options p).hooks.parameter.consult name none) _ _ :=
    host.gives_consult name none
  have hvalue : Gives _ (callsFor name) (host.answer name) :=
    hconsult.bind_lift (orUndefined name)
  unfold Pass.parameterValue
  rw [hget]
  convert hvalue using 2
  funext result
  cases result <;> rfl

/-- There is no hook for functions. -/
theorem eval_call (name : String) (arguments : List Expr) :
    (Expr.call name arguments).eval (host.pass options p) =
      (host.pass options p).builtinValue name arguments := by
  rw [Expr.eval_call, Pass.answer_of_no_hook rfl, pure_bind]

end ParameterHost

variable (host options p) in
/-- A tree whose runs follow the rules. -/
def Expr.Follows (e : Expr) : Prop :=
  ∀ {names : List String} {o : Except EvalError Value}, e.Asks host options p names o →
    Gives (e.eval (host.pass options p)) (names.flatMap ParameterHost.callsFor) o

theorem Expr.follows_binary {op : BinaryOp} {left right : Expr}
    (hleft : left.Follows host options p) (hright : right.Follows host options p) :
    (Expr.binary op left right).Follows host options p := by
  intro names o h
  cases h with
  | leftFails hl =>
      rw [Expr.eval]
      exact (hleft hl).bind_error
  | operands hop hl hr =>
      rw [eval_binary hop, List.flatMap_append]
      exact (hleft hl).bind ((hright hr).bind_lift (applyBinary op _))
  | noTruth hop hl ht =>
      have htruth := (hleft hl).bind_lift Value.truthy
      change Gives _ _ (Value.truthy _) at htruth
      rw [ht] at htruth
      rw [eval_shortCircuit hop, ← bind_assoc]
      exact htruth.bind_error
  | decided hop hl ht hd =>
      rw [eval_shortCircuit hop]
      refine (hleft hl).bind_value (gives_lift_bind ht ?_)
      rw [if_pos hd]
      exact gives_lift (.ok _)
  | undecided hop hl ht hd hr =>
      rw [eval_shortCircuit hop, List.flatMap_append]
      refine (hleft hl).bind (gives_lift_bind ht ?_)
      rw [if_neg (by simp [hd])]
      convert (hright hr).bind_lift fun b => Value.boolean <$> b.truthy using 2
      funext b
      cases b.truthy <;> rfl

theorem Expr.follows_conditional {condition yes no : Expr}
    (hcondition : condition.Follows host options p) (hyes : yes.Follows host options p)
    (hno : no.Follows host options p) :
    (Expr.conditional condition yes no).Follows host options p := by
  intro names o h
  cases h with
  | noBranch hc ht =>
      have htruth := (hcondition hc).bind_lift Value.truthy
      rw [ht] at htruth
      rw [Expr.eval, ← bind_assoc]
      exact htruth.bind_error
  | first hc ht hy =>
      rw [Expr.eval, List.flatMap_append]
      exact (hcondition hc).bind (gives_lift_bind ht (hyes hy))
  | second hc ht hn =>
      rw [Expr.eval, List.flatMap_append]
      exact (hcondition hc).bind (gives_lift_bind ht (hno hn))

theorem AsksAll.gives {arguments : List Expr} {names : List String}
    {o : Except EvalError (List Value)} (h : AsksAll host options p arguments names o)
    (hfollows : ∀ e ∈ arguments, e.Follows host options p) :
    Gives (evalAll arguments (host.pass options p)) (names.flatMap ParameterHost.callsFor) o := by
  induction arguments generalizing names o with
  | nil =>
      cases h
      exact gives_lift (.ok _)
  | cons e rest ih =>
      have he : e.Follows host options p := hfollows e List.mem_cons_self
      cases h with
      | fails hfails => exact (he hfails).bind_error
      | cons hvalue hrest =>
          have hvalues := ih hrest fun d hd => hfollows d (List.mem_cons_of_mem e hd)
          rw [List.flatMap_append, evalAll]
          refine (he hvalue).bind ?_
          rw [← bind_pure_comp]
          exact hvalues.bind_lift fun vs => .ok (_ :: vs)

theorem Expr.follows_call {name : String} {arguments : List Expr}
    (hfollows : ∀ e ∈ arguments, e.Follows host options p) :
    (Expr.call name arguments).Follows host options p := by
  intro names o h
  rw [host.eval_call]
  cases h with
  | unknown hlookup =>
      rw [Pass.builtinValue_of_unknown hlookup]
      exact gives_lift (.error _)
  | refused hlookup harity =>
      rw [Pass.builtinValue_of_not_accepts hlookup harity]
      exact gives_lift (.error _)
  | @choice _ condition yes no _ _ hlookup hchoice =>
      rw [Pass.builtinValue_choose hlookup]
      exact follows_conditional (hfollows condition (by simp)) (hfollows yes (by simp))
        (hfollows no (by simp)) hchoice
  | arguments hlookup hf harity hall =>
      rw [Pass.builtinValue_of_accepts hlookup hf harity]
      exact (hall.gives hfollows).bind_lift _

/-- **A pass over a tree calls the handler and the resolver once for each of the names.** -/
theorem Expr.follows (e : Expr) : e.Follows host options p := by
  induction e using Expr.byParts with
  | literal l =>
      intro names o h
      cases h
      exact gives_lift (.ok _)
  | parameter name =>
      intro names o h
      rw [Expr.eval]
      cases h with
      | defined hget =>
          rw [Pass.parameterValue_of_get? hget]
          exact gives_lift (.ok _)
      | asked hget =>
          rw [List.flatMap_singleton]
          exact ParameterHost.gives_parameterValue hget
  | call name arguments ih => exact follows_call fun e he => ih e he
  | unary op operand ih =>
      intro names o h
      cases h with
      | unary h => exact (ih h).bind_lift (applyUnary op)
  | binary op left right ihl ihr => exact follows_binary ihl ihr
  | conditional condition yes no ihc ihy ihn => exact follows_conditional ihc ihy ihn

/-! ## Every tree has its names -/

/-- Names with the same calls are the same. -/
theorem ParameterHost.flatMap_callsFor_injective :
    Function.Injective fun names : List String => names.flatMap callsFor := by
  intro names
  induction names with
  | nil =>
      intro names' h
      cases names' with
      | nil => rfl
      | cons name rest => exact nomatch h
  | cons name rest ih =>
      intro names' h
      cases names' with
      | nil => exact nomatch h
      | cons name' rest' =>
          simp only [List.flatMap_cons] at h
          obtain ⟨hcalls, hrest⟩ := List.append_inj h rfl
          cases hcalls
          exact congrArg (name :: ·) (ih hrest)

/-- A tree asks for one list of names only, and has one outcome. -/
theorem Expr.Asks.unique {e : Expr} {names names' : List String} {o o' : Except EvalError Value}
    (h : e.Asks host options p names o) (h' : e.Asks host options p names' o') :
    names' = names ∧ o' = o := by
  have hrun := (e.follows h' []).symm.trans (e.follows h [])
  obtain ⟨ho, hcalls⟩ := Prod.mk.inj hrun
  exact ⟨ParameterHost.flatMap_callsFor_injective hcalls, ho⟩

theorem Expr.exists_asks_conditional {condition yes no : Expr}
    (hcondition : ∃ names o, condition.Asks host options p names o)
    (hyes : ∃ names o, yes.Asks host options p names o)
    (hno : ∃ names o, no.Asks host options p names o) :
    ∃ names o, (Expr.conditional condition yes no).Asks host options p names o := by
  obtain ⟨names, o, hcondition⟩ := hcondition
  obtain ⟨yesNames, _, hyes⟩ := hyes
  obtain ⟨noNames, _, hno⟩ := hno
  cases ht : o >>= Value.truthy with
  | error err => exact ⟨names, _, .noBranch hcondition ht⟩
  | ok b =>
      obtain ⟨c, rfl, ht⟩ := bind_eq_ok_iff.1 ht
      cases b with
      | true => exact ⟨names ++ yesNames, _, .first hcondition ht hyes⟩
      | false => exact ⟨names ++ noNames, _, .second hcondition ht hno⟩

theorem Expr.exists_asks_binary {op : BinaryOp} {left right : Expr}
    (hleft : ∃ names o, left.Asks host options p names o)
    (hright : ∃ names o, right.Asks host options p names o) :
    ∃ names o, (Expr.binary op left right).Asks host options p names o := by
  obtain ⟨names, o, hleft⟩ := hleft
  obtain ⟨more, _, hright⟩ := hright
  cases o with
  | error err => exact ⟨names, _, .leftFails hleft⟩
  | ok a =>
      by_cases hop : op.isShortCircuit = true
      · cases ht : a.truthy with
        | error err => exact ⟨names, _, .noTruth hop hleft ht⟩
        | ok c =>
            cases hd : op.decidedBy c with
            | true => exact ⟨names, _, .decided hop hleft ht hd⟩
            | false => exact ⟨names ++ more, _, .undecided hop hleft ht hd hright⟩
      · exact ⟨names ++ more, _, .operands hop hleft hright⟩

theorem exists_asksAll {arguments : List Expr}
    (h : ∀ e ∈ arguments, ∃ names o, e.Asks host options p names o) :
    ∃ names o, AsksAll host options p arguments names o := by
  induction arguments with
  | nil => exact ⟨[], _, .nil⟩
  | cons e rest ih =>
      obtain ⟨names, o, he⟩ := h e List.mem_cons_self
      obtain ⟨more, _, hrest⟩ := ih fun d hd => h d (List.mem_cons_of_mem e hd)
      cases o with
      | error err => exact ⟨names, _, .fails he⟩
      | ok v => exact ⟨names ++ more, _, .cons he hrest⟩

theorem Expr.exists_asks_call {name : String} {arguments : List Expr}
    (h : ∀ e ∈ arguments, ∃ names o, e.Asks host options p names o) :
    ∃ names o, (Expr.call name arguments).Asks host options p names o := by
  cases hlookup : Builtin.lookup name options.ignoreCase with
  | none => exact ⟨[], _, .unknown hlookup⟩
  | some f =>
      cases harity : f.arity.accepts arguments.length with
      | false => exact ⟨[], _, .refused hlookup harity⟩
      | true =>
          by_cases hf : f = .choose
          · subst hf
            obtain ⟨condition, yes, no, rfl⟩ := List.length_eq_three.1 (eq_of_beq harity)
            obtain ⟨names, o, hconditional⟩ := exists_asks_conditional (h condition (by simp))
              (h yes (by simp)) (h no (by simp))
            exact ⟨names, o, .choice hlookup hconditional⟩
          · obtain ⟨names, _, hall⟩ := exists_asksAll h
            exact ⟨names, _, .arguments hlookup hf harity hall⟩

/-- The rules cover every tree. -/
theorem Expr.exists_asks (host : ParameterHost) (options : Options) (p : Parameters) (e : Expr) :
    ∃ names o, e.Asks host options p names o := by
  induction e using Expr.byParts with
  | literal l => exact ⟨[], _, .literal⟩
  | parameter name =>
      cases hget : p.get? name with
      | some v => exact ⟨[], _, .defined hget⟩
      | none => exact ⟨[name], _, .asked hget⟩
  | call name arguments ih => exact exists_asks_call ih
  | unary op operand ih =>
      obtain ⟨names, _, h⟩ := ih
      exact ⟨names, _, .unary h⟩
  | binary op left right ihl ihr => exact exists_asks_binary ihl ihr
  | conditional condition yes no ihc ihy ihn => exact exists_asks_conditional ihc ihy ihn

end Host

/-! ## Their order and their end -/

/-- Names that are asked for stand in a tree in this order, and have no value.  The first one
without an answer is the last one, and its failure is the outcome. -/
structure Reached {α : Type} (host : ParameterHost) (p : Parameters)
    (occurrences names : List String) (o : Except EvalError α) : Prop where
  sublist : names.Sublist occurrences
  undefined : ∀ name ∈ names, p.get? name = none
  stops : ∀ front name after err, names = front ++ name :: after →
    host.answer name = .error err → after = [] ∧ o = .error err

namespace Reached

variable {host : ParameterHost} {p : Parameters} {α β : Type}
  {occurrences occurrences' names more : List String} {o : Except EvalError α}
  {o' : Except EvalError β}

/-- No names at all. -/
theorem nil : Reached host p occurrences [] o where
  sublist := List.nil_sublist _
  undefined := fun _ h => nomatch h
  stops := by
    intro front name after err h
    exact absurd h.symm (by simp)

theorem answer {name : String} (h : p.get? name = none) :
    Reached host p [name] [name] (host.answer name) where
  sublist := List.Sublist.refl _
  undefined := by
    intro other hother
    rwa [List.mem_singleton.1 hother]
  stops := by
    intro front other after err hsplit herr
    obtain ⟨rfl, hsplit⟩ | ⟨rest, rfl, hsplit⟩ := List.cons_eq_append_iff.1 hsplit
    · cases hsplit
      exact ⟨rfl, herr⟩
    · exact absurd hsplit.symm (by simp)

/-- More may stand in the tree, and a later step keeps a failure. -/
theorem imp (h : Reached host p occurrences names o) (hsub : occurrences.Sublist occurrences')
    (ho : ∀ err, o = .error err → o' = .error err) : Reached host p occurrences' names o' where
  sublist := h.sublist.trans hsub
  undefined := h.undefined
  stops := by
    intro front name after err hsplit herr
    obtain ⟨hafter, hfail⟩ := h.stops front name after err hsplit herr
    exact ⟨hafter, ho err hfail⟩

theorem bind (h : Reached host p occurrences names o) (f : α → Except EvalError β) :
    Reached host p occurrences names (o >>= f) := by
  refine h.imp (.refl _) fun err hfail => ?_
  rw [hfail]
  rfl

/-- A second step is reached when the first one has a value, which means answers to all names. -/
theorem append {a : α} (h : Reached host p occurrences names (.ok a : Except EvalError α))
    (h' : Reached host p occurrences' more o') :
    Reached host p (occurrences ++ occurrences') (names ++ more) o' where
  sublist := h.sublist.append h'.sublist
  undefined := by
    intro name hname
    rcases List.mem_append.1 hname with hname | hname
    · exact h.undefined name hname
    · exact h'.undefined name hname
  stops := by
    intro front name after err hsplit herr
    obtain ⟨rest, rfl, hrest⟩ | ⟨rest, hnames, hrest⟩ := List.append_eq_append_iff.1 hsplit
    · exact h'.stops rest name after err hrest herr
    · cases rest with
      | nil => exact h'.stops [] name after err hrest.symm herr
      | cons first rest =>
          cases hrest
          exact nomatch (h.stops front name rest err hnames herr).2

end Reached

section Order

variable {host : ParameterHost} {options : Options} {p : Parameters}

variable (host options p) in
/-- A tree in which names are reached by the rules. -/
def Expr.Orderly (e : Expr) : Prop :=
  ∀ {names : List String} {o : Except EvalError Value}, e.Asks host options p names o →
    Reached host p e.occurrences names o

theorem Expr.orderly_binary {op : BinaryOp} {left right : Expr}
    (hleft : left.Orderly host options p) (hright : right.Orderly host options p) :
    (Expr.binary op left right).Orderly host options p := by
  intro names o h
  cases h with
  | leftFails hl => exact (hleft hl).imp (List.sublist_append_left ..) fun err h => h
  | operands hop hl hr => exact ((hleft hl).append (hright hr)).bind _
  | noTruth hop hl ht =>
      exact (hleft hl).imp (List.sublist_append_left ..) fun err h => nomatch h
  | decided hop hl ht hd =>
      exact (hleft hl).imp (List.sublist_append_left ..) fun err h => nomatch h
  | undecided hop hl ht hd hr => exact ((hleft hl).append (hright hr)).bind _

theorem Expr.orderly_conditional {condition yes no : Expr}
    (hcondition : condition.Orderly host options p) (hyes : yes.Orderly host options p)
    (hno : no.Orderly host options p) :
    (Expr.conditional condition yes no).Orderly host options p := by
  intro names o h
  cases h with
  | noBranch hc ht =>
      have htruth := (hcondition hc).bind Value.truthy
      rw [ht] at htruth
      refine htruth.imp ?_ fun err h => congrArg Except.error (Except.error.inj h)
      exact (List.sublist_append_left ..).trans (List.sublist_append_left _ _)
  | first hc ht hy =>
      exact ((hcondition hc).append (hyes hy)).imp (List.sublist_append_left ..) fun err h => h
  | second hc ht hn =>
      refine ((hcondition hc).append (hno hn)).imp ?_ fun err h => h
      exact (List.sublist_append_left ..).append (.refl _)

theorem AsksAll.reached {arguments : List Expr} {names : List String}
    {o : Except EvalError (List Value)} (h : AsksAll host options p arguments names o)
    (horderly : ∀ e ∈ arguments, e.Orderly host options p) :
    Reached host p (Expr.occurrencesAll arguments) names o := by
  induction arguments generalizing names o with
  | nil =>
      cases h
      exact .nil
  | cons e rest ih =>
      have he : e.Orderly host options p := horderly e List.mem_cons_self
      cases h with
      | fails hfails =>
          refine (he hfails).imp (List.sublist_append_left ..) fun err h => ?_
          exact congrArg Except.error (Except.error.inj h)
      | cons hvalue hrest =>
          have hvalues := ih hrest fun d hd => horderly d (List.mem_cons_of_mem e hd)
          exact ((he hvalue).append hvalues).imp (.refl _) fun err h => map_eq_error_iff.2 h

theorem Expr.orderly_call {name : String} {arguments : List Expr}
    (horderly : ∀ e ∈ arguments, e.Orderly host options p) :
    (Expr.call name arguments).Orderly host options p := by
  intro names o h
  cases h with
  | unknown hlookup => exact .nil
  | refused hlookup harity => exact .nil
  | @choice _ condition yes no _ _ hlookup hchoice =>
      have hconditional := orderly_conditional (horderly condition (by simp))
        (horderly yes (by simp)) (horderly no (by simp)) hchoice
      refine hconditional.imp ?_ fun err h => h
      simp [occurrences, occurrencesAll]
  | arguments hlookup hf harity hall => exact (hall.reached horderly).bind _

/-- The names that a tree asks for are reached in it. -/
theorem Expr.orderly (e : Expr) : e.Orderly host options p := by
  induction e using Expr.byParts with
  | literal l =>
      intro names o h
      cases h
      exact .nil
  | parameter name =>
      intro names o h
      cases h with
      | defined hget => exact .nil
      | asked hget => exact .answer hget
  | call name arguments ih => exact orderly_call fun e he => ih e he
  | unary op operand ih =>
      intro names o h
      cases h with
      | unary h => exact (ih h).bind _
  | binary op left right ihl ihr => exact orderly_binary ihl ihr
  | conditional condition yes no ihc ihy ihn => exact orderly_conditional ihc ihy ihn

end Order

/-- **The calls of a host that answers for parameters.**  Of a handler and a resolver, and with no
function hook, one pass over a tree calls first the handler and then the resolver, each once, for
the names that the rules give: there is one list of them for every tree.  They stand in the tree in
this order, as far as evaluation comes to them, and have no value of their own.  The first one to
which the resolver fails, or that both leave without a result, is the last one, and ends the
evaluation with this failure. -/
theorem Expr.asked_names (e : Expr) (host : ParameterHost) (options : Options)
    (hsingle : options.iterate = false) (p : Parameters) :
    ∃ names o, e.Asks host options p names o ∧
      (∀ names' o', e.Asks host options p names' o' → names' = names ∧ o' = o) ∧
      (∀ before, (e.evaluate (host.pass options p)).run.run before =
        (o, before ++ names.flatMap ParameterHost.callsFor)) ∧
      names.Sublist e.occurrences ∧
      (∀ name ∈ names, p.get? name = none) ∧
      ∀ front name after err, names = front ++ name :: after → host.answer name = .error err →
        after = [] ∧ o = .error err := by
  obtain ⟨names, o, h⟩ := e.exists_asks host options p
  obtain ⟨hsublist, hundefined, hstops⟩ := e.orderly h
  refine ⟨names, o, h, fun names' o' h' => h.unique h', ?_, hsublist, hundefined, hstops⟩
  rw [e.evaluate_of_not_iterate hsingle]
  exact e.follows h

/-- A sum of a conditional and a call; its second branch and the last argument are left out. -/
def fourNames : Expr :=
  .binary .add (.conditional (.parameter "x") (.parameter "y") (.parameter "z"))
    (.call "Max" [.parameter "q", .parameter "x"])

/-- A host whose handler has a one for every name, and whose resolver replaces that of `y` and fails
for `q`. -/
def onesButTwo : ParameterHost where
  handler := fun _ _ => some (.integer 1)
  resolver := fun name result =>
    if name = "q" then .error (.resolver "no answer")
    else if name = "y" then .ok (some (.integer 7))
    else .ok result

/-- Three names are asked for, each with two calls; the failure for the third one is the outcome. -/
theorem Expr.asked_names_fourNames :
    fourNames.Asks onesButTwo {} (.empty false) ["x", "y", "q"]
      (.error (.resolver "no answer")) ∧
    (fourNames.evaluate (onesButTwo.pass {} (.empty false))).run.run [] =
      (.error (.resolver "no answer"), ["x", "y", "q"].flatMap ParameterHost.callsFor) ∧
    ["x", "y", "q"].Sublist fourNames.occurrences := by
  obtain ⟨names, o, h, -, hcalls, hsublist, -, -⟩ := asked_names fourNames onesButTwo {} rfl
    (.empty false)
  have hrun : (fourNames.evaluate (onesButTwo.pass {} (.empty false))).run.run [] =
      (.error (.resolver "no answer"), ["x", "y", "q"].flatMap ParameterHost.callsFor) := rfl
  obtain ⟨ho, hnames⟩ := Prod.mk.inj (hrun.symm.trans (hcalls []))
  obtain rfl := ParameterHost.flatMap_callsFor_injective hnames
  subst ho
  exact ⟨h, hrun, hsublist⟩

end FormulaEngine
