import FormulaEngine.Proofs.Frame

/-!
# Formulas without hooks

Without hooks an evaluation of a formula has the outcome of its tree, if one is found, although it
writes over the parameters of the formula.  What is found depends on the text and the cache, and not
on what the formula is evaluated under.

* `Formula.hasErrors_withPass`, `Formula.resolveTree_withPass` -- the first parse is the same under
  other parameters and options;
* `Formula.evaluate_of_no_hooks` -- an evaluation by the outcome of the tree;
* `Formula.evaluate_again` -- and the one after it;
* `Formula.evaluate_broadcast` -- a broadcast by evaluations in one pass.
-/

namespace FormulaEngine

namespace Formula

section FirstParse

variable {m : Type → Type}

/-- The formula under other options, parameters and hooks. -/
def withPass (f : Formula m) (pass : Pass m) : Formula m := { f with pass }

/-- The first parse is the same, as long as the use of the cache is. -/
theorem hasErrors_withPass (f : Formula m) {pass : Pass m}
    (h : pass.options.bypassCache = f.pass.options.bypassCache) (c : FormulaCache)
    (held : Nat → Bool) :
    (f.withPass pass).hasErrors c held =
      ((f.hasErrors c held).1, (f.hasErrors c held).2.1.withPass pass,
        (f.hasErrors c held).2.2) := by
  rcases f.hasErrors_cases c held with ⟨t, ht, heq⟩ | ⟨errors, ht, herrors, heq⟩ | ⟨ho, heq⟩ |
    ⟨text, t, d, ho, hcompile, heq⟩ | ⟨text, errors, d, ho, hcompile, heq⟩
  · rw [heq, hasErrors_eq_of_known (.inl (by simp [withPass, ht]))]
    simp [withPass, ht]
  · rw [heq, hasErrors_eq_of_known (.inr (by simp [withPass, herrors]))]
    simp [withPass, ht]
  · rw [heq]
    simp [hasErrors, withPass, ho]
  · rw [heq]
    rw [← h] at hcompile
    simp [hasErrors, withPass, ho, hcompile]
  · rw [heq]
    rw [← h] at hcompile
    simp [hasErrors, withPass, ho, hcompile]

/-- And so is the tree that it finds. -/
theorem resolveTree_withPass (f : Formula m) {pass : Pass m}
    (h : pass.options.bypassCache = f.pass.options.bypassCache) (c : FormulaCache)
    (held : Nat → Bool) :
    ((f.withPass pass).resolveTree c held).1 = (f.resolveTree c held).1 := by
  unfold resolveTree
  rw [f.hasErrors_withPass h]
  rcases f.hasErrors c held with ⟨faulty, ⟨⟨source?, tree?, errors?⟩, rest⟩, d⟩
  cases faulty with
  | true => rfl
  | false => cases tree? <;> rfl

/-- Without hooks there are none for an evaluation either. -/
theorem hooksFor_of_no_hooks {f : Formula m} (h : f.pass.hooks = {}) (use : HookUse) :
    f.hooksFor use {} = {} := by
  unfold hooksFor
  rw [h]
  cases use <;> rfl

end FirstParse

variable {f g : Formula Id}

/-- An evaluation without hooks has the outcome of the tree, if one is found. -/
theorem evaluate_of_no_hooks (h : f.pass.hooks = {}) (c : FormulaCache) (held : Nat → Bool)
    (use : HookUse) :
    f.evaluate c held use {} =
      ((f.resolveTree c held).1.bind fun t =>
        t.tree.outcome f.pass.options f.pass.parameters, (f.hasErrors c held).2) := by
  unfold evaluate
  rw [run_eq_map, hooksFor_of_no_hooks h]
  cases (f.resolveTree c held).1 <;> rfl

/-- What is left by an evaluation without hooks is evaluated to the same outcome, whatever cache it
is given. -/
theorem evaluate_again {c d : FormulaCache} {held : Nat → Bool} {use : HookUse}
    {outcome : Except EvalError Value} (hhooks : f.pass.hooks = {})
    (h : f.evaluate c held use {} = (outcome, g, d)) :
    g.pass = f.pass ∧ ∀ (later : FormulaCache) (live : Nat → Bool) (use : HookUse),
      g.evaluate later live use {} = (outcome, g, later) := by
  rw [evaluate_of_no_hooks hhooks] at h
  obtain ⟨houtcome, hstate⟩ := Prod.mk.inj h
  have hg : (f.hasErrors c held).2.1 = g := congrArg Prod.fst hstate
  have hpass := f.pass_hasErrors c held
  rw [hg] at hpass
  refine ⟨hpass, fun later live use => ?_⟩
  have htree := f.resolveTree_resolveTree c later held live
  have hfaults := f.hasErrors_hasErrors c later held live
  rw [resolveTree_snd, hg] at htree
  rw [hg] at hfaults
  rw [evaluate_of_no_hooks (hpass ▸ hhooks), htree, hfaults, hpass, ← houtcome]

/-! ## Broadcasts -/

/-- The formula for one pass over the parameters of a position. -/
def atPosition (f : Formula Id) (k : Nat) : Formula Id :=
  f.withPass { f.pass with
    options := f.pass.options.singlePass, parameters := f.pass.parameters.atPosition k }

/-- **A broadcast of a formula is the pointwise map of its evaluations in one pass.**  The formula
has a tree and no hooks.  Without lists among its parameters the outcome is the empty list, lists of
different lengths are refused, and lists of one length are gone through together: the outcome is the
list of the values at all positions, or the failure of the first position that fails. -/
theorem evaluate_broadcast {t : SharedTree} {c : FormulaCache} {held : Nat → Bool}
    (htree : (f.resolveTree c held).1 = .ok t) (hhooks : f.pass.hooks = {})
    (hiterate : f.pass.options.iterate = true) (use : HookUse) :
    ((∀ name items, (name, Value.list items) ∉ f.pass.parameters.entries) →
      (f.evaluate c held use {}).1 = .ok (.list [])) ∧
    (∀ a as b bs, (a, Value.list as) ∈ f.pass.parameters.entries →
      (b, Value.list bs) ∈ f.pass.parameters.entries → as.length ≠ bs.length →
        (f.evaluate c held use {}).1 = .error .unequalLists) ∧
    (∀ n, (∃ name items, (name, Value.list items) ∈ f.pass.parameters.entries) →
      (∀ name items, (name, Value.list items) ∈ f.pass.parameters.entries → items.length = n) →
      (∀ v, (f.evaluate c held use {}).1 = .ok v ↔
        ∃ vs : List Value, v = .list vs ∧ vs.length = n ∧
          ∀ k (h : k < vs.length), ((f.atPosition k).evaluate c held use {}).1 = .ok vs[k]) ∧
      (∀ err, (f.evaluate c held use {}).1 = .error err ↔
        ∃ k < n, ((f.atPosition k).evaluate c held use {}).1 = .error err ∧
          ∀ j < k, ∃ v, ((f.atPosition j).evaluate c held use {}).1 = .ok v)) := by
  have hall : (f.evaluate c held use {}).1 =
      t.tree.outcome f.pass.options f.pass.parameters := by
    rw [evaluate_of_no_hooks hhooks, htree]
    rfl
  have hone : ∀ k, ((f.atPosition k).evaluate c held use {}).1 =
      t.tree.outcome f.pass.options.singlePass (f.pass.parameters.atPosition k) := by
    intro k
    have hcache : (f.atPosition k).pass.options.bypassCache = f.pass.options.bypassCache := rfl
    have hsame : ((f.atPosition k).resolveTree c held).1 = (f.resolveTree c held).1 :=
      f.resolveTree_withPass hcache c held
    have hhooks' : (f.atPosition k).pass.hooks = {} := hhooks
    rw [evaluate_of_no_hooks hhooks', hsame, htree]
    rfl
  simp only [hall, hone]
  exact t.tree.outcome_broadcast f.pass.options f.pass.parameters hiterate

/-- A column of three numbers and a factor, whose names are compared without regard to case. -/
def columnAndFactor : Parameters where
  entries := [("A", .list [.integer 1, .integer 2, .integer 3]), ("b", .integer 10)]
  ignoreCase := true
  distinct := by decide +kernel

/-- The column times the factor, under other spellings of their names. -/
def columnTimesFactor : Formula Id :=
  (ofTree ⟨0, .binary .multiply (.parameter "a") (.parameter "B")⟩
    { iterate := true, ignoreCase := true }).mapParameters fun _ => columnAndFactor

/-- The product of a column and a factor is the column of the products. -/
theorem evaluate_broadcast_product :
    columnTimesFactor.pass.hooks = {} ∧ columnTimesFactor.pass.options.iterate = true ∧
      (columnTimesFactor.evaluate {} (fun _ => false) .all {}).1 =
        .ok (.list [.integer 10, .integer 20, .integer 30]) := by
  have hlength : ∀ name items, (name, Value.list items) ∈ columnAndFactor.entries →
      items.length = 3 := by
    intro name items hmem
    rcases List.mem_cons.1 hmem with h | h
    · cases h
      rfl
    · cases List.mem_singleton.1 h
  have htree : (columnTimesFactor.resolveTree {} fun _ => false).1 =
      .ok ⟨0, .binary .multiply (.parameter "a") (.parameter "B")⟩ := rfl
  have hpositions := (evaluate_broadcast htree rfl rfl .all).2.2 3 ⟨"A", _, List.mem_cons_self⟩
    hlength
  refine ⟨rfl, rfl, (hpositions.1 _).2 ⟨_, rfl, rfl, ?_⟩⟩
  intro k hk
  match k, hk with
  | 0, _ => rfl
  | 1, _ => rfl
  | 2, _ => rfl

end Formula

end FormulaEngine
