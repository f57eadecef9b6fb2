import FormulaEngine.Proofs.Frame
import FormulaEngine.Proofs.HostCalls

/-!
# Evaluations that call resolvers only

A formula may be evaluated with its resolvers alone, some of them replaced for this evaluation.  Its
handlers are then never called: neither for the tree, nor for an argument that a resolver evaluates,
at any position of a broadcast.

* `Overrides.part` -- the resolver that answers for names of a kind;
* `Formula.keeps_hooksFor` -- the hooks of such an evaluation;
* `Formula.hooksFor_eq_of_no_handlers` -- without handlers there is nothing to leave out;
* `Formula.calls_of_resolvers` -- what every such evaluation calls.
-/

namespace FormulaEngine

namespace Overrides

section Part

variable {m : Type → Type}

/-- The resolver that answers for names of a kind. -/
def part (o : Overrides m) : HookKind → HookPart
  | .parameter => if o.parameter.isSome then .override else .resolver
  | .function => if o.function.isSome then .override else .resolver

/-- Overrides as hooks of their own. -/
def hooks (o : Overrides m) : Hooks m := ⟨{ resolver := o.parameter }, { resolver := o.function }⟩

end Part

variable {n : Type → Type} [Monad n]

/-- Overrides whose calls are noted. -/
def noting (o : Overrides (Noting n)) : Overrides (Noting n) where
  parameter := o.parameter.map (notingResolver .parameter .override)
  function := o.function.map (notingResolver .function .override)

end Overrides

/-- The formula whose hooks note their calls. -/
def Formula.noting {n : Type → Type} [Monad n] (f : Formula (Noting n)) : Formula (Noting n) :=
  f.setHooks f.pass.hooks.noting

section Calls

variable {n : Type → Type} [Monad n] [LawfulMonad n] {α : Type} {P : HostCall → Prop}
  {arguments : α → List (Argument (Noting n))}

/-- A hook without its handler calls the override, if there is one, or else its resolver. -/
theorem Hook.Discreet.keeps_overridden {h : Hook (Noting n) α} (hh : h.Discreet arguments)
    {o : Option (String → ExceptT EvalError (StateT α (Noting n)) Unit)}
    (ho : Hook.Discreet arguments ({ resolver := o } : Hook (Noting n) α)) {kind : HookKind}
    {name : String} (hcall : P ⟨kind, if o.isSome then .override else .resolver, name⟩) :
    ((h.noting kind).resolverOnly.overridden (o.map (notingResolver kind .override))).Keeps P
      arguments name where
  handler := fun _ hhandler => nomatch hhandler
  resolver := by
    intro noted hnoted
    cases o with
    | some resolver =>
        cases hnoted
        exact minds_notingResolver ((ho P name).resolver resolver rfl) hcall
    | none =>
        obtain ⟨resolver, hresolver, rfl⟩ := Option.map_eq_some_iff.1 hnoted
        exact minds_notingResolver ((hh P name).resolver resolver hresolver) hcall

/-- With overrides and without handlers, the hooks of a formula call one resolver of each kind. -/
theorem Formula.keeps_hooksFor {f : Formula (Noting n)} {overrides : Overrides (Noting n)}
    (hhooks : f.pass.hooks.Discreet) (hoverrides : overrides.hooks.Discreet)
    (hcall : ∀ kind name, P ⟨kind, overrides.part kind, name⟩) :
    (f.noting.hooksFor .resolvers overrides.noting).Keeps P fun _ => True where
  parameter := fun name _ =>
    hhooks.parameter.keeps_overridden hoverrides.parameter (hcall .parameter name)
  function := fun name =>
    hhooks.function.keeps_overridden hoverrides.function (hcall .function name)

/-- What is evaluated in the end decides what is noted: the first parse calls no host. -/
theorem Formula.notesOnly_evaluate {f : Formula (Noting n)} {use : HookUse}
    {overrides : Overrides (Noting n)}
    (h : (f.hooksFor use overrides).Keeps P fun _ => True) (c : FormulaCache)
    (held : Nat → Bool) : NotesOnly P (f.evaluate c held use overrides) := by
  have hvalue : NotesOnly P (valueOf (f.resolveTree c held).1
      { f.pass with hooks := f.hooksFor use overrides }) := by
    unfold valueOf
    split
    · next t _ => exact t.tree.notesOnly_evaluate h
    · exact Adds.pure trivial
  unfold evaluate
  rw [run_eq_map, ← bind_pure_comp]
  exact hvalue.bind fun _ _ => Adds.pure trivial

omit [Monad n] [LawfulMonad n] in
/-- Without handlers there is nothing to leave out. -/
theorem Formula.hooksFor_eq_of_no_handlers {f : Formula n}
    (hparameter : f.pass.hooks.parameter.handler = none)
    (hfunction : f.pass.hooks.function.handler = none) (overrides : Overrides n) :
    f.hooksFor .all overrides = f.hooksFor .resolvers overrides := by
  have hall : ∀ {α : Type} (h : Hook n α), h.handler = none → h.resolverOnly = h := by
    intro α h hnone
    obtain ⟨handler, resolver⟩ := h
    cases hnone
    rfl
  have hsame : f.pass.hooks.resolverOnly = f.pass.hooks := by
    unfold Hooks.resolverOnly
    rw [hall _ hparameter, hall _ hfunction]
  unfold hooksFor
  change _ = (⟨f.pass.hooks.resolverOnly.parameter.overridden overrides.parameter,
    f.pass.hooks.resolverOnly.function.overridden overrides.function⟩ : Hooks n)
  rw [hsame]
  rfl

/-- **An evaluation with resolvers calls no handler.**  In one pass or in a broadcast, for the tree
and for every argument that a hook evaluates: what is called is the override for names of its kind,
if there is one, and else the resolver of the formula.  A formula without handlers is evaluated in
the same way with all its hooks: with the same result and the same calls. -/
theorem Formula.calls_of_resolvers (f : Formula (Noting n)) (c : FormulaCache) (held : Nat → Bool)
    (overrides : Overrides (Noting n)) :
    (f.pass.hooks.Discreet → overrides.hooks.Discreet →
      NotesOnly (fun call => call.part ≠ .handler ∧ call.part = overrides.part call.kind)
        (f.noting.evaluate c held .resolvers overrides.noting)) ∧
    (f.pass.hooks.parameter.handler = none → f.pass.hooks.function.handler = none →
      f.noting.evaluate c held .all {} = f.noting.evaluate c held .resolvers {}) := by
  constructor
  · intro hhooks hoverrides
    have hpart : ∀ kind, overrides.part kind ≠ .handler := by
      intro kind
      cases kind with
      | parameter => cases h : overrides.parameter <;> simp [Overrides.part, h]
      | function => cases h : overrides.function <;> simp [Overrides.part, h]
    exact notesOnly_evaluate
      (keeps_hooksFor hhooks hoverrides fun kind _ => ⟨hpart kind, rfl⟩) c held
  · intro hparameter hfunction
    have hnoting : f.noting.hooksFor .all {} = f.noting.hooksFor .resolvers {} := by
      apply hooksFor_eq_of_no_handlers
      · exact Option.map_eq_none_iff.2 hparameter
      · exact Option.map_eq_none_iff.2 hfunction
    unfold evaluate
    rw [hnoting]

end Calls

/-! ## A broadcast with one override -/

/-- The items of a column, and what a function makes of a name that has no value. -/
def columnWithCall : Expr := .binary .add (.parameter "c") (.call "last" [.parameter "x"])

/-- A column of two. -/
def columnOfTwo : Parameters where
  entries := [("c", .list [.integer 100, .integer 200])]
  ignoreCase := false
  distinct := by decide +kernel

/-- Hooks whose handlers fill in a one. -/
def handlersAndResolvers : Hooks (Noting Id) where
  parameter := Hook.overNotes
    { handler := some fun _ => modify fun _ => some (.integer 1)
      resolver := some fun _ => modify fun _ => some (.integer 2) }
  function :=
    { handler := some fun _ => modify fun call => { call with result := some (.integer 1) }
      resolver := some (answering fun _ values => values.getLast?) }

theorem discreet_handlersAndResolvers : handlersAndResolvers.Discreet where
  parameter := Hook.discreet_overNotes _
  function := by
    intro P name
    refine ⟨?_, (discreet_answering _ P name).resolver⟩
    intro handler hhandler
    cases hhandler
    exact fun call _ => Adds.pure rfl

/-- A broadcast over the column with some hooks. -/
def columnFormula (hooks : Hooks (Noting Id)) : Formula (Noting Id) :=
  ((Formula.ofTree ⟨0, columnWithCall⟩ { iterate := true }).mapParameters
    fun _ => columnOfTwo).setHooks hooks

/-- A resolver with thirty for all parameters. -/
def thirty : Hook Id (Option Value) where
  resolver := some fun _ => modify fun _ => some (.integer 30)

/-- The resolver in place of that of a formula. -/
def thirtyInstead : Overrides (Noting Id) where
  parameter := thirty.overNotes.resolver

theorem discreet_thirtyInstead : thirtyInstead.hooks.Discreet where
  parameter := thirty.discreet_overNotes
  function := Hook.discreet_empty _

/-- The broadcast with the override. -/
def withThirty : Except EvalError Value × List HostCall :=
  let run := ((columnFormula handlersAndResolvers).noting.evaluate {} (fun _ => false) .resolvers
    thirtyInstead.noting).run []
  (run.1.1, run.2)

/-- At both positions the override answers for the name in the argument, and the resolver of the
formula for the function; no handler is called.  Without handlers nothing is left out. -/
theorem Formula.calls_of_resolvers_columnFormula :
    withThirty = (.ok (.list [.integer 130, .integer 230]),
      [⟨.function, .resolver, "last"⟩, ⟨.parameter, .override, "x"⟩,
        ⟨.function, .resolver, "last"⟩, ⟨.parameter, .override, "x"⟩]) ∧
    (∀ call ∈ withThirty.2, call.part ≠ .handler ∧ call.part = thirtyInstead.part call.kind) ∧
    (columnFormula handlersAndResolvers.resolverOnly).noting.evaluate {} (fun _ => false) .all {} =
      (columnFormula handlersAndResolvers.resolverOnly).noting.evaluate {} (fun _ => false)
        .resolvers {} := by
  have hcalls := (calls_of_resolvers (columnFormula handlersAndResolvers) {} (fun _ => false)
    thirtyInstead).1 discreet_handlersAndResolvers discreet_thirtyInstead
  have hsame := (calls_of_resolvers (columnFormula handlersAndResolvers.resolverOnly) {}
    (fun _ => false) {}).2 rfl rfl
  exact ⟨rfl, hcalls.of_noted, hsame⟩

end FormulaEngine
