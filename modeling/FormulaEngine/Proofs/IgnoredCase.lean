import FormulaEngine.Proofs.Dependence
import FormulaEngine.Proofs.OrderedEntries
import FormulaEngine.Proofs.WithoutHooks

/-!
# Names without regard to case

To ignore the case of names changes nothing that has a value already, as long as no two parameters
fall together: their names are folded in one way and those of functions in another, but either way
a name that was found is found again, and it means the same.

* `Parameters.entries_setIgnoreCase` -- the entries are set again as they were;
* `Parameters.setIgnoreCase_setIgnoreCase` -- and so they are when case is regarded again;
* `Parameters.get?_setIgnoreCase` -- a name is found in any case;
* `Builtin.lookup_ignoringCase` -- a function is found under the same name;
* `Extends` -- a computation has the value that another one has;
* `Expr.outcome_ignoringCase` -- one pass, and a broadcast;
* `Formula.evaluate_ignoringCase` -- the formula with its options set, and set back.
-/

namespace FormulaEngine

/-! ## Parameters -/

namespace Parameters

variable {p q : Parameters} {name : String} {v : Value}

/-- The names of parameters are distinct in lower case. -/
def Apart (p : Parameters) : Prop := (p.entries.map fun entry => lowercase entry.1).Nodup

/-- Parameters that do not fall together stay as they are. -/
theorem entries_setIgnoreCase (hcase : p.ignoreCase = false) (h : p.Apart) :
    (p.setIgnoreCase true).entries = p.entries := by
  unfold setIgnoreCase
  rw [if_neg (by simp [hcase])]
  exact entries_insertAll_of_nodup (empty true) p.entries h

/-- When case is regarded again the map is what it was. -/
theorem setIgnoreCase_setIgnoreCase (hcase : p.ignoreCase = false) (h : p.Apart) :
    (p.setIgnoreCase true).setIgnoreCase false = p := by
  have hentries := entries_setIgnoreCase hcase h
  have hignored := p.ignoreCase_setIgnoreCase true
  generalize p.setIgnoreCase true = q at hentries hignored ⊢
  unfold setIgnoreCase
  rw [if_neg (by simp [hignored])]
  refine eq_of_entries_eq ?_ ?_
  · rw [ignoreCase_insertAll, hcase]
    rfl
  · rw [entries_insertAll_of_distinct q, hentries]

/-- A name that is found where case is regarded is found among the same entries under either
rule. -/
theorem get?_of_entries_eq (hcase : p.ignoreCase = false) (hentries : q.entries = p.entries)
    (h : p.get? name = some v) : q.get? name = some v := by
  obtain ⟨entry, hmem, hkey, hvalue⟩ := get?_eq_some_iff.1 h
  refine get?_eq_some_iff.2 ⟨entry, hentries ▸ hmem, ?_, hvalue⟩
  have hname : entry.1 = name := by
    simpa [key, foldName, hcase] using hkey
  rw [hname]

/-- A name that is found where case is regarded is found in every case where it is not. -/
theorem get?_setIgnoreCase (hcase : p.ignoreCase = false) (h : p.Apart) {other : String}
    (hother : lowercase other = lowercase name) (hfound : p.get? name = some v) :
    (p.setIgnoreCase true).get? other = some v := by
  have hignored := p.ignoreCase_setIgnoreCase true
  have hname := get?_of_entries_eq hcase (entries_setIgnoreCase hcase h) hfound
  have hkey : (p.setIgnoreCase true).key other = (p.setIgnoreCase true).key name := by
    simpa [key, foldName, hignored] using hother
  rw [get?_eq_some_iff] at hname ⊢
  rw [hkey]
  exact hname

end Parameters

/-! ## Functions -/

/-- A function that is found is found under the same name without regard to case.  The table has no
two names that are equal so. -/
theorem Builtin.lookup_ignoringCase {name : String} {f : Builtin}
    (h : lookup name false = some f) : lookup name true = some f := by
  have hkey := List.find?_some h
  have hname : f.name = name := String.toList_inj.1 (eq_of_beq hkey)
  rw [← hname]
  exact lookup_name f true

/-- The options without regard to case. -/
def Options.ignoringCase (o : Options) : Options := { o with ignoreCase := true }

/-- What a function does to values is not a matter of case. -/
theorem Builtin.call_ignoringCase (f : Builtin) (options : Options) (args : List Value) :
    f.call options.ignoringCase args = f.call options args := by
  unfold Builtin.call Builtin.apply
  rfl

/-! ## Evaluations -/

/-- A computation without a host has the value that another one has, if that has one. -/
def Extends {α : Type} (x y : ExceptT EvalError Id α) : Prop :=
  ∀ a, x.run.run = .ok a → y.run.run = .ok a

theorem extends_throw {α : Type} (err : EvalError) (y : ExceptT EvalError Id α) :
    Extends (throw err) y := fun _ h => nomatch h

theorem stepwise_extends : Stepwise fun (α : Type) (x y : ExceptT EvalError Id α) =>
    Extends x y where
  result _ _ h := h
  failure err _ := extends_throw err _
  sequence := by
    intro α β x y f g hx hf b h
    rw [run_bind_id, bind_eq_ok_iff] at h
    obtain ⟨a, ha, hb⟩ := h
    rw [run_bind_id, bind_eq_ok_iff]
    exact ⟨a, hx a ha, hf a b hb⟩

section Evaluation

variable {options : Options} {p q : Parameters}

/-- Parameters that are found are found again. -/
theorem extends_parameterValue (hcase : p.ignoreCase = false) (hentries : q.entries = p.entries)
    (name : String) : Extends ((Expr.alone options p).parameterValue name)
      ((Expr.alone options.ignoringCase q).parameterValue name) := by
  have hvalue := Expr.parameterValue_alone options p .all name
  change (Expr.alone options p).parameterValue name = _ at hvalue
  rw [hvalue]
  cases hget : p.get? name with
  | none => exact extends_throw _ _
  | some v =>
      have hagain : (Expr.alone options.ignoringCase q).parameters.get? name = some v :=
        Parameters.get?_of_entries_eq hcase hentries hget
      rw [Pass.parameterValue_of_get? hagain]
      exact stepwise_extends.result v

/-- Functions that are found are found again, and are applied to the same values. -/
theorem extends_builtinValue (hoptions : options.ignoreCase = false) (name : String)
    {arguments : List Expr}
    (h : ∀ e ∈ arguments, Extends (e.eval (Expr.alone options p))
      (e.eval (Expr.alone options.ignoringCase q))) :
    Extends ((Expr.alone options p).builtinValue name arguments)
      ((Expr.alone options.ignoringCase q).builtinValue name arguments) := by
  have hR := stepwise_extends
  have hignored : options.ignoringCase.ignoreCase = true := rfl
  unfold Pass.builtinValue
  simp only [Expr.alone, hoptions, hignored]
  cases hlookup : Builtin.lookup name false with
  | none => exact extends_throw _ _
  | some f =>
      rw [Builtin.lookup_ignoringCase hlookup]
      simp only
      refine hR.sequence (hR.lift (f.needsNoParameter_checkArity _)) fun _ => ?_
      split
      · exact hR.evalChoice h
      · refine hR.sequence (hR.evalAll h) fun values => ?_
        rw [Builtin.call_ignoringCase]
        exact hR.lift (f.needsNoParameter_call options values)

/-- **A pass without regard to case has the value of a pass with it.** -/
theorem Expr.eval_ignoringCase (e : Expr) (hoptions : options.ignoreCase = false)
    (hcase : p.ignoreCase = false) (hentries : q.entries = p.entries) :
    Extends (e.eval (alone options p)) (e.eval (alone options.ignoringCase q)) := by
  have hcall (name : String) (arguments : List Expr)
      (hparts : ∀ e ∈ arguments, ∀ _ : Unit,
        Extends (e.eval (alone options p)) (e.eval (alone options.ignoringCase q))) :
      Extends ((Expr.call name arguments).eval (alone options p))
        ((Expr.call name arguments).eval (alone options.ignoringCase q)) := by
    rw [eval_call, eval_call, Pass.answer_of_no_hook rfl, Pass.answer_of_no_hook rfl, pure_bind,
      pure_bind]
    exact extends_builtinValue hoptions name fun e he => hparts e he ()
  exact e.eval_related stepwise_extends (p := fun _ : Unit => alone options p)
    (q := fun _ => alone options.ignoringCase q)
    (fun _ name (_ : True) => extends_parameterValue hcase hentries name)
    (fun _ name arguments => hcall name arguments) (fun _ _ => trivial) ()

/-! ## Broadcasts -/

/-- The list parameters of a map: there is none, or two have different lengths, or all have one. -/
theorem Parameters.lists_cases (p : Parameters) :
    (∀ name items, (name, Value.list items) ∉ p.entries) ∨
    (∃ a as b bs, (a, Value.list as) ∈ p.entries ∧ (b, Value.list bs) ∈ p.entries ∧
      as.length ≠ bs.length) ∨
    ∃ n, (∃ name items, (name, Value.list items) ∈ p.entries) ∧
      ∀ name items, (name, Value.list items) ∈ p.entries → items.length = n := by
  by_cases hsome : ∃ name items, (name, Value.list items) ∈ p.entries
  · obtain ⟨name, items, hmem⟩ := hsome
    by_cases hlength : ∀ other others, (other, Value.list others) ∈ p.entries →
        others.length = items.length
    · exact .inr (.inr ⟨items.length, ⟨name, items, hmem⟩, hlength⟩)
    · simp only [not_forall] at hlength
      obtain ⟨other, others, hother, hne⟩ := hlength
      exact .inr (.inl ⟨other, others, name, items, hother, hmem, hne⟩)
  · simp only [not_exists] at hsome
    exact .inl hsome

/-- A single evaluation without regard to case has the value of one with it. -/
theorem Expr.outcome_ignoringCase_of_single (e : Expr) (hsingle : options.iterate = false)
    (hoptions : options.ignoreCase = false) (hcase : p.ignoreCase = false)
    (hentries : q.entries = p.entries) {v : Value} (h : e.outcome options p = .ok v) :
    e.outcome options.ignoringCase q = .ok v := by
  have hsingle' : options.ignoringCase.iterate = false := hsingle
  unfold outcome at h ⊢
  rw [e.evaluate_of_not_iterate hsingle] at h
  rw [e.evaluate_of_not_iterate hsingle']
  exact e.eval_ignoringCase hoptions hcase hentries v h

/-- **An evaluation without regard to case has the value of one with it**, in one pass or at all
positions of the list parameters. -/
theorem Expr.outcome_ignoringCase (e : Expr) (hoptions : options.ignoreCase = false)
    (hcase : p.ignoreCase = false) (hentries : q.entries = p.entries) {v : Value}
    (h : e.outcome options p = .ok v) : e.outcome options.ignoringCase q = .ok v := by
  cases hiterate : options.iterate with
  | false => exact e.outcome_ignoringCase_of_single hiterate hoptions hcase hentries h
  | true =>
      have hiterate' : options.ignoringCase.iterate = true := hiterate
      rcases p.lists_cases with hnone | ⟨a, as, b, bs, ha, hb, hne⟩ | ⟨n, hsome, hlength⟩
      · rw [e.outcome_of_no_lists hiterate hnone] at h
        rw [← hentries] at hnone
        rwa [e.outcome_of_no_lists hiterate' hnone]
      · rw [e.outcome_of_length_ne hiterate ha hb hne] at h
        exact nomatch h
      · rw [e.outcome_eq_mapM hiterate hsome hlength, map_eq_ok_iff] at h
        rw [← hentries] at hsome hlength
        rw [e.outcome_eq_mapM hiterate' hsome hlength, map_eq_ok_iff]
        obtain ⟨vs, hvs, hv⟩ := h
        obtain ⟨hcount, hat⟩ := mapM_range_eq_ok_iff.1 hvs
        refine ⟨vs, mapM_range_eq_ok_iff.2 ⟨hcount, fun k hk => ?_⟩, hv⟩
        have hoptions' : options.singlePass.ignoreCase = false := hoptions
        have hcase' : (p.atPosition k).ignoreCase = false := hcase
        have hentries' : (q.atPosition k).entries = (p.atPosition k).entries :=
          congrArg (List.map fun entry : String × Value => (entry.1, entry.2.atPosition k)) hentries
        exact e.outcome_ignoringCase_of_single rfl hoptions' hcase' hentries' (hat k hk)

end Evaluation

/-! ## Formulas -/

namespace Formula

section FirstParse

variable {m : Type → Type}

/-- Under options that agree on the use of the cache the first parse is the same. -/
theorem hasErrors_setOptions (f : Formula m) {options : Options}
    (h : options.bypassCache = f.pass.options.bypassCache) (c : FormulaCache)
    (held : Nat → Bool) :
    (f.setOptions options).hasErrors c held =
      ((f.hasErrors c held).1, (f.hasErrors c held).2.1.setOptions options,
        (f.hasErrors c held).2.2) := by
  have hpass := f.pass_hasErrors c held
  have hset : (f.hasErrors c held).2.1.setOptions options =
      (f.hasErrors c held).2.1.withPass (f.setOptions options).pass := by
    unfold setOptions withPass
    rw [hpass]
  have hcache : (f.setOptions options).pass.options.bypassCache = f.pass.options.bypassCache := h
  rw [hset]
  exact f.hasErrors_withPass hcache c held

end FirstParse

section Options

variable {f : Formula Id} (hhooks : f.pass.hooks = {})
  (hoptions : f.pass.options.ignoreCase = false)
  (hcase : f.pass.parameters.ignoreCase = false) (hapart : f.pass.parameters.Apart)

include hoptions hcase hapart in
/-- The formula is the same when its options are set back. -/
theorem setOptions_setOptions :
    (f.setOptions f.pass.options.ignoringCase).setOptions f.pass.options = f := by
  have hback := Parameters.setIgnoreCase_setIgnoreCase hcase hapart
  obtain ⟨origin, options, parameters, hooks⟩ := f
  simp only [setOptions, Options.ignoringCase] at hoptions hback ⊢
  rw [hoptions, hback]

include hhooks hoptions hcase hapart in
/-- The first parse is the same, and the tree has the same value. -/
theorem evaluate_setOptions {g : Formula Id} {c d : FormulaCache} {held : Nat → Bool}
    {use : HookUse} {v : Value} (h : f.evaluate c held use {} = (.ok v, g, d)) :
    (f.setOptions f.pass.options.ignoringCase).evaluate c held use {} =
      (.ok v, g.setOptions f.pass.options.ignoringCase, d) := by
  have hentries := Parameters.entries_setIgnoreCase hcase hapart
  rw [evaluate_of_no_hooks hhooks] at h
  obtain ⟨houtcome, hstate⟩ := Prod.mk.inj h
  have hhooks' : (f.setOptions f.pass.options.ignoringCase).pass.hooks = {} := hhooks
  have hcache : f.pass.options.ignoringCase.bypassCache = f.pass.options.bypassCache := rfl
  have hcache' : (f.setOptions f.pass.options.ignoringCase).pass.options.bypassCache =
      f.pass.options.bypassCache := rfl
  have htree : ((f.setOptions f.pass.options.ignoringCase).resolveTree c held).1 =
      (f.resolveTree c held).1 := f.resolveTree_withPass hcache' c held
  rw [evaluate_of_no_hooks hhooks', f.hasErrors_setOptions hcache, htree, hstate]
  obtain ⟨t, hfound, hvalue⟩ := bind_eq_ok_iff.1 houtcome
  rw [hfound]
  have hagain := t.tree.outcome_ignoringCase hoptions hcase hentries hvalue
  exact congrArg (fun outcome => (outcome, g.setOptions f.pass.options.ignoringCase, d)) hagain

end Options

/-- **To ignore case is a conservative extension.**  No hooks take part, and no two parameters have
names that are equal in lower case.  To set options means that the formula has them and that its
parameters follow their rule for the case of names: if case is ignored, what was found under a name
is found under it in any case.  Then a formula that has a value, in one pass or in a broadcast, has
the same value when its options are set to ignore case, whether it was evaluated before or not; its
parameters keep their order and their spellings meanwhile, and when the options are set back the
formula is the one it was. -/
theorem evaluate_ignoringCase (f : Formula Id) (hhooks : f.pass.hooks = {})
    (hoptions : f.pass.options.ignoreCase = false)
    (hcase : f.pass.parameters.ignoreCase = false)
    (hapart : (f.pass.parameters.entries.map fun entry => lowercase entry.1).Nodup) :
    (∀ options, (f.setOptions options).pass.options = options ∧
      (f.setOptions options).pass.parameters.ignoreCase = options.ignoreCase) ∧
    (∀ name v, f.pass.parameters.get? name = some v →
      ∀ other, lowercase other = lowercase name →
        (f.setOptions f.pass.options.ignoringCase).pass.parameters.get? other = some v) ∧
    (∀ c held use v g d, f.evaluate c held use {} = (.ok v, g, d) →
      (f.setOptions f.pass.options.ignoringCase).evaluate c held use {} =
          (.ok v, g.setOptions f.pass.options.ignoringCase, d) ∧
        (∀ later live use,
          (g.setOptions f.pass.options.ignoringCase).evaluate later live use {} =
            (.ok v, g.setOptions f.pass.options.ignoringCase, later)) ∧
        (g.setOptions f.pass.options.ignoringCase).setOptions f.pass.options = g) ∧
    (f.setOptions f.pass.options.ignoringCase).pass.parameters.entries =
      f.pass.parameters.entries ∧
    (f.setOptions f.pass.options.ignoringCase).setOptions f.pass.options = f := by
  refine ⟨fun options => ?_, ?_, fun c held use v g d h => ⟨?_, ?_, ?_⟩, ?_, ?_⟩
  · exact ⟨rfl, f.pass.parameters.ignoreCase_setIgnoreCase options.ignoreCase⟩
  · intro name v hfound other hother
    exact Parameters.get?_setIgnoreCase hcase hapart hother hfound
  · exact evaluate_setOptions hhooks hoptions hcase hapart h
  · intro later live use
    obtain ⟨hpass, hagain⟩ := evaluate_again hhooks h
    rw [← hpass] at hhooks hoptions hcase hapart ⊢
    exact evaluate_setOptions hhooks hoptions hcase hapart (hagain later live use)
  · obtain ⟨hpass, -⟩ := evaluate_again hhooks h
    rw [← hpass] at hoptions hcase hapart ⊢
    exact setOptions_setOptions hoptions hcase hapart
  · exact Parameters.entries_setIgnoreCase hcase hapart
  · exact setOptions_setOptions hoptions hcase hapart

/-- A column and a number under names of mixed case. -/
def columnAndNumber : Parameters where
  entries := [("Column", .list [.integer (-1), .integer 2]), ("n", .integer 3)]
  ignoreCase := false
  distinct := by decide +kernel

/-- The products of the absolute values of a column by a number. -/
def products : Formula Id :=
  (ofTree ⟨0, .binary .multiply (.call "Abs" [.parameter "Column"]) (.parameter "n")⟩
    { iterate := true }).mapParameters fun _ => columnAndNumber

/-- A broadcast finds the column, the number and the function again, and the spellings stay; and the
number is found under a name in upper case, which means nothing before. -/
theorem evaluate_ignoringCase_products :
    ((products.setOptions { iterate := true, ignoreCase := true }).evaluate {} (fun _ => false)
      .all {}).1 = .ok (.list [.integer 3, .integer 6]) ∧
    (products.pass.parameters.get? "N" = none ∧
      (products.setOptions { iterate := true, ignoreCase := true }).pass.parameters.get? "N" =
        some (.integer 3)) ∧
    (products.setOptions { iterate := true, ignoreCase := true }).setOptions { iterate := true } =
      products := by
  obtain ⟨-, hname, hvalue, -, hback⟩ :=
    products.evaluate_ignoringCase rfl rfl rfl (by decide +kernel)
  have hfirst : products.evaluate {} (fun _ => false) .all {} =
      (.ok (.list [.integer 3, .integer 6]), products, {}) := rfl
  exact ⟨congrArg Prod.fst (hvalue _ _ _ _ _ _ hfirst).1,
    ⟨rfl, hname "n" (.integer 3) rfl "N" (by decide +kernel)⟩, hback⟩

end Formula

end FormulaEngine
