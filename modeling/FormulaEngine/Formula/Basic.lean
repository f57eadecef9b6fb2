import FormulaEngine.Evaluation.Evaluate
import FormulaEngine.Evaluation.InPlace
import FormulaEngine.Formula.Cache
import FormulaEngine.Grammar.ExprText

/-!
# Formulas

A formula is a text or a tree, with its options, its parameters and its hooks.  A text is parsed
when its outcome is first needed; the tree or the faults are then kept.  Operations that need the
outcome return the formula and the cache as they are afterwards.

* `Formula.hasErrors` -- the first parse, through the cache;
* `Formula.resolveTree` -- the tree, or why there is none;
* `Formula.run` -- one evaluation or a broadcast, over the parameters of the formula itself;
* `Formula.evaluate` -- the same with all hooks of the formula or with resolvers only;
* `Formula.pass_hasErrors` -- parsing leaves options, parameters and hooks alone.
-/

namespace FormulaEngine

/-- Where the tree of a formula comes from, as far as it is known. -/
structure Origin where
  /-- the text, if the formula was made from one -/
  source? : Option String := none
  /-- the tree, once there is one -/
  tree? : Option SharedTree := none
  /-- the faults of the text, once they are found -/
  errors? : Option (List SyntaxError) := none

/-- A formula with what it is evaluated under. -/
structure Formula (m : Type → Type) where
  origin : Origin
  pass : Pass m

/-- Resolvers that take the place of those of a formula for one evaluation. -/
structure Overrides (m : Type → Type) where
  parameter : Option (String → ExceptT EvalError (StateT (Option Value) m) Unit) := none
  function : Option (String → ExceptT EvalError (StateT (FunctionCall m) m) Unit) := none

namespace Formula

variable {m : Type → Type}

/-- A formula with options and nothing else. -/
def ofOrigin (origin : Origin) (options : Options) : Formula m :=
  ⟨origin, { options, parameters := .empty options.ignoreCase }⟩

/-- The formula of a text, which must not be empty. -/
def ofText (text : String) (options : Options) : Except EvalError (Formula m) :=
  if text.isEmpty then .error .emptyText else .ok (ofOrigin { source? := some text } options)

/-- The formula of a tree. -/
def ofTree (t : SharedTree) (options : Options) : Formula m :=
  ofOrigin { tree? := some t } options

/-- The formula with a parameter set. -/
def set (f : Formula m) (name : String) (value : Value) : Formula m :=
  { f with pass := { f.pass with parameters := f.pass.parameters.insert name value } }

/-- The formula with its parameters changed. -/
def mapParameters (f : Formula m) (g : Parameters → Parameters) : Formula m :=
  { f with pass := { f.pass with parameters := g f.pass.parameters } }

/-- The formula under other options; the parameters follow the rule for the case of names. -/
def setOptions (f : Formula m) (options : Options) : Formula m :=
  { f with pass := { f.pass with
      options, parameters := f.pass.parameters.setIgnoreCase options.ignoreCase } }

/-- The formula with other hooks. -/
def setHooks (f : Formula m) (hooks : Hooks m) : Formula m :=
  { f with pass := { f.pass with hooks } }

/-- Whether the text has faults.  It is parsed if neither a tree nor faults are known, and what
comes out is kept. -/
def hasErrors (f : Formula m) (c : FormulaCache) (held : Nat → Bool) :
    Bool × Formula m × FormulaCache :=
  if f.origin.tree?.isSome then (false, f, c)
  else if f.origin.errors?.isSome then (true, f, c)
  else
    match f.origin.source? with
    | none => (false, f, c)
    | some source =>
      match c.compile held source f.pass.options.bypassCache with
      | (.ok t, c) => (false, { f with origin := { f.origin with tree? := some t } }, c)
      | (.error errors, c) =>
        (true, { f with origin := { f.origin with errors? := some errors } }, c)

/-- The words for the faults that were found. -/
def error? (f : Formula m) : Option String := f.origin.errors?.map SyntaxError.messages

/-- The tree, unless the text has faults. -/
def parsed? (f : Formula m) (c : FormulaCache) (held : Nat → Bool) :
    Option SharedTree × Formula m × FormulaCache :=
  let (faulty, f, c) := f.hasErrors c held
  (if faulty then none else f.origin.tree?, f, c)

/-- The tree, or why there is none. -/
def resolveTree (f : Formula m) (c : FormulaCache) (held : Nat → Bool) :
    Except EvalError SharedTree × Formula m × FormulaCache :=
  let (faulty, f, c) := f.hasErrors c held
  if faulty then (.error (.unparsed (f.origin.errors?.getD [])), f, c)
  else
    match f.origin.tree? with
    | some t => (.ok t, f, c)
    | none => (.error .noTree, f, c)

/-- The names of the parameters that the formula refers to. -/
def referencedParameters (f : Formula m) (c : FormulaCache) (held : Nat → Bool) :
    Except EvalError (List String) × Formula m × FormulaCache :=
  let (outcome, f, c) := f.resolveTree c held
  (outcome.map (·.tree.parameterNames), f, c)

/-- The text of a formula: its source, or else its tree. -/
def text (f : Formula m) : String :=
  match f.origin.source?, f.origin.tree? with
  | some source, _ => source
  | none, some t => t.tree.text
  | none, none => ""

/-- The hooks of an evaluation with overrides. -/
def hooksFor (f : Formula m) (use : HookUse) (overrides : Overrides m) : Hooks m :=
  let hooks := f.pass.hooks.using use
  ⟨hooks.parameter.overridden overrides.parameter, hooks.function.overridden overrides.function⟩

variable [Monad m]

/-- The value of a formula under some hooks. -/
def run (f : Formula m) (c : FormulaCache) (held : Nat → Bool) (hooks : Hooks m) :
    m (Except EvalError Value × Formula m × FormulaCache) :=
  match f.resolveTree c held with
  | (.error err, f, c) => pure (.error err, f, c)
  | (.ok t, f, c) => do
    let once := fun parameters => t.tree.eval { f.pass with parameters, hooks }
    let (result, parameters) ← (runInPlace once f.pass.options).run.run f.pass.parameters
    pure (result, f.mapParameters fun _ => parameters, c)

/-- The value of a formula, with the formula and the cache as the evaluation leaves them. -/
def evaluate (f : Formula m) (c : FormulaCache) (held : Nat → Bool) (use : HookUse)
    (overrides : Overrides m) : m (Except EvalError Value × Formula m × FormulaCache) :=
  f.run c held (f.hooksFor use overrides)

/-- The value of a formula that shares its cache with no other. -/
def value (f : Formula m) (use : HookUse) (overrides : Overrides m) : ExceptT EvalError m Value :=
  ExceptT.mk (Prod.fst <$> f.evaluate {} (fun _ => false) use overrides)

end Formula

/-- Parsing changes nothing that the formula is evaluated under. -/
theorem Formula.pass_hasErrors {m : Type → Type} (f : Formula m) (c : FormulaCache)
    (held : Nat → Bool) : (f.hasErrors c held).2.1.pass = f.pass := by
  unfold Formula.hasErrors
  split
  · rfl
  · split
    · rfl
    · split
      · rfl
      · split <;> rfl

end FormulaEngine
