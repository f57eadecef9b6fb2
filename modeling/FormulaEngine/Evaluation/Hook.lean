import FormulaEngine.Evaluation.Options
import FormulaEngine.Evaluation.EvalError
import FormulaEngine.Evaluation.Parameters
import FormulaEngine.Grammar.Expr

/-!
# Hooks

A host answers for names that a formula leaves open through hooks.  A hook has two parts: a
handler, which cannot fail, and a resolver, which can.  Both change the same state, the handler
first; whatever they leave there is the answer.  The effects of the host are those of a monad
`m`.

* `Hook.invoke` -- the handler, then the resolver;
* `Argument` -- an argument of a call that is evaluated when a hook asks for it.
-/

namespace FormulaEngine

/-- The two parts of a hook, which work on a state of type `α`. -/
structure Hook (m : Type → Type) (α : Type) where
  handler : Option (String → StateT α m Unit) := none
  resolver : Option (String → ExceptT EvalError (StateT α m) Unit) := none

/-- Which parts of a hook run. -/
inductive HookPolicy where
  | handlerOnly
  | resolverOnly
  | both
deriving DecidableEq, Repr

namespace Hook

variable {m : Type → Type} {α : Type}

instance : Inhabited (Hook m α) := ⟨{}⟩

/-- Whether a hook has no part. -/
def isEmpty (h : Hook m α) : Bool := h.handler.isNone && h.resolver.isNone

/-- Which parts run, if there are any. -/
def policy (h : Hook m α) : Option HookPolicy :=
  match h.handler, h.resolver with
  | some _, some _ => some .both
  | some _, none => some .handlerOnly
  | none, some _ => some .resolverOnly
  | none, none => none

/-- The hook without its handler. -/
def resolverOnly (h : Hook m α) : Hook m α := { h with handler := none }

/-- The hook with another resolver, if one is given. -/
def overridden (h : Hook m α)
    (resolver : Option (String → ExceptT EvalError (StateT α m) Unit)) : Hook m α :=
  { h with resolver := resolver.or h.resolver }

variable [Monad m]

/-- Run the handler, then the resolver. -/
def invoke (h : Hook m α) (name : String) : ExceptT EvalError (StateT α m) Unit := do
  if let some handler := h.handler then
    ExceptT.lift (handler name)
  if let some resolver := h.resolver then
    resolver name

/-- The state that a hook leaves, unless its resolver fails. -/
def consult (h : Hook m α) (name : String) (a : α) : ExceptT EvalError m α :=
  ExceptT.mk do
    let (outcome, a) ← (h.invoke name).run.run a
    return outcome.map fun _ => a

end Hook

/-- Which hooks take part when an argument is evaluated. -/
inductive HookUse where
  /-- those of the call, as they are -/
  | all
  /-- those of the call without their handlers -/
  | resolvers
deriving DecidableEq, Repr

/-- An argument of a call, not evaluated yet, with the options and the parameters that it will be
evaluated under. -/
structure Argument (m : Type → Type) where
  tree : Expr
  options : Options
  parameters : Parameters
  run : HookUse → Options → Parameters → ExceptT EvalError m Value

/-- What a function hook works on: the arguments and the result, once there is one. -/
structure FunctionCall (m : Type → Type) where
  arguments : List (Argument m)
  result : Option Value := none

/-- The value of an argument. -/
def Argument.evaluate {m : Type → Type} (a : Argument m) (use : HookUse) :
    ExceptT EvalError m Value :=
  a.run use a.options a.parameters

/-- The argument with a parameter set for its evaluation. -/
def Argument.set {m : Type → Type} (a : Argument m) (name : String) (value : Value) :
    Argument m :=
  { a with parameters := a.parameters.insert name value }

/-- The values of all arguments from left to right, up to the first failure. -/
def FunctionCall.evaluateArguments {m : Type → Type} [Monad m] (call : FunctionCall m) :
    ExceptT EvalError m (List Value) :=
  call.arguments.mapM (·.evaluate .all)

/-- The hooks for parameters and for functions. -/
structure Hooks (m : Type → Type) where
  parameter : Hook m (Option Value) := {}
  function : Hook m (FunctionCall m) := {}

/-- Both hooks without their handlers. -/
def Hooks.resolverOnly {m : Type → Type} (h : Hooks m) : Hooks m :=
  ⟨h.parameter.resolverOnly, h.function.resolverOnly⟩

/-- Both hooks as an evaluation uses them. -/
def Hooks.using {m : Type → Type} (h : Hooks m) : HookUse → Hooks m
  | .all => h
  | .resolvers => h.resolverOnly

/-- A hook without parts changes nothing. -/
theorem Hook.invoke_empty {m : Type → Type} {α : Type} [Monad m] (name : String) :
    (({} : Hook m α).invoke name) = pure () := rfl

end FormulaEngine
