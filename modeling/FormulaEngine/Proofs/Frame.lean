import FormulaEngine.Proofs.Broadcast
import FormulaEngine.Formula.Basic

/-!
# An evaluation leaves the formula as it was

A broadcast writes over the parameters of the formula at every position, and a failure ends it at
any of them.  The outcome is still that of a broadcast over copies, and the parameters are those of
before.  So an evaluation changes a formula only by what its first parse finds.

* `run_runInPlace` -- over the parameters themselves as over a copy, which is left as it was;
* `Formula.hasErrors_cases` -- what a question for the outcome of a parse can do;
* `Formula.run_eq_map` -- the parse comes first; the formula it leaves is the one that stays;
* `Formula.evaluate_restores` -- an evaluation changes nothing that it or a later one reads.
-/

namespace FormulaEngine

/-! ## Over the parameters themselves -/

section InPlace

variable {m : Type → Type} [Monad m] {α β : Type}

/-- Two steps: what the first one has written is there for the second, or stays if it fails. -/
theorem run_bind_inPlace (x : InPlace m α) (f : α → InPlace m β) (p : Parameters) :
    (x >>= f).run.run p = x.run.run p >>= fun r =>
      match r.1 with
      | .ok a => (f a).run.run r.2
      | .error err => pure (.error err, r.2) := by
  rw [ExceptT.run_bind, StateT.run_bind]
  congr 1
  funext r
  rcases r with ⟨r, q⟩
  cases r <;> rfl

variable [LawfulMonad m]

theorem run_getThe_inPlace (p : Parameters) :
    (getThe Parameters : InPlace m Parameters).run.run p = pure (.ok p, p) := by
  change (Except.ok <$> (get : StateT Parameters m Parameters)).run p = _
  simp

theorem run_modifyThe_inPlace (g : Parameters → Parameters) (p : Parameters) :
    (modifyThe Parameters g : InPlace m PUnit).run.run p = pure (.ok ⟨⟩, g p) := by
  change (Except.ok <$> (modify g : StateT Parameters m PUnit)).run p = _
  simp

theorem run_set_inPlace (q p : Parameters) :
    (set q : InPlace m PUnit).run.run p = pure (.ok ⟨⟩, q) := by
  change (Except.ok <$> (set q : StateT Parameters m PUnit)).run p = _
  simp

theorem run_lift_inPlace (x : StateT Parameters m α) (p : Parameters) :
    (ExceptT.lift x : InPlace m α).run.run p = (fun r => (.ok r.1, r.2)) <$> x.run p := by
  change (Except.ok <$> x).run p = _
  simp

/-- An evaluation under the parameters as they are leaves them so. -/
theorem run_onceInPlace (once : Parameters → ExceptT EvalError m Value) (p : Parameters) :
    (onceInPlace once).run.run p = (fun r => (r, p)) <$> (once p).run := by
  unfold onceInPlace
  rw [run_bind_inPlace, run_getThe_inPlace, pure_bind]
  change (StateT.lift (once p).run).run p = _
  simp

/-- The loop has the outcome of the loop over copies, whatever it leaves in the parameters. -/
theorem fst_run_positionsInPlace (once : Pass m → ExceptT EvalError m Value) (pass : Pass m)
    (count : Nat) (sequences : List (String × List Value)) (p : Parameters) :
    Prod.fst <$> (positionsInPlace (fun parameters => once { pass with parameters }) count
        sequences).run.run p =
      (Pass.positions once count sequences { pass with parameters := p }).run := by
  induction count generalizing sequences p with
  | zero => simp [positionsInPlace, Pass.positions]
  | succ count ih =>
      unfold positionsInPlace Pass.positions
      rw [run_bind_inPlace, run_modifyThe_inPlace, pure_bind]
      simp only
      rw [run_bind_inPlace, run_onceInPlace, ExceptT.run_bind, bind_map_left, map_bind]
      congr 1
      funext r
      cases r with
      | error err => simp
      | ok v =>
          -- Both loops go on from the parameters of this position.
          simp only
          rw [run_bind_inPlace, ExceptT.run_bind, ← ih, bind_map_left, map_bind]
          congr 1
          funext s
          rcases s with ⟨s, q⟩
          cases s <;> simp

/-- **The parameters are put back after the loop**, at whatever position it ended, and a broadcast
that is refused has not touched them. -/
theorem run_broadcastInPlace (once : Pass m → ExceptT EvalError m Value) (pass : Pass m) :
    (broadcastInPlace fun parameters => once { pass with parameters }).run.run pass.parameters =
      (fun r => (r, pass.parameters)) <$> (pass.broadcast once).run := by
  unfold broadcastInPlace Pass.broadcast
  rw [run_bind_inPlace, run_getThe_inPlace, pure_bind]
  simp only
  cases pass.parameters.lists with
  | nil => simp
  | cons s rest =>
      obtain ⟨name, first⟩ := s
      simp only
      split
      · have hloop := fst_run_positionsInPlace once pass first.length ((name, first) :: rest)
          pass.parameters
        rw [run_bind_inPlace, run_lift_inPlace, bind_map_left, ExceptT.run_bind, ← hloop,
          bind_map_left, map_bind]
        congr 1
        funext r
        obtain ⟨outcome, left⟩ := r
        simp only
        rw [run_bind_inPlace, run_set_inPlace, pure_bind]
        cases outcome <;> simp
      · simp

/-- **An evaluation over the parameters of a formula is one over a copy**, and leaves them as they
were. -/
theorem run_runInPlace (once : Pass m → ExceptT EvalError m Value) (pass : Pass m) :
    (runInPlace (fun parameters => once { pass with parameters }) pass.options).run.run
        pass.parameters = (fun r => (r, pass.parameters)) <$> (pass.run once).run := by
  unfold runInPlace Pass.run
  split
  · exact run_broadcastInPlace once pass
  · exact run_onceInPlace _ pass.parameters

end InPlace

/-! ## The first parse -/

namespace Formula

variable {m : Type → Type}

/-- **What a question for faults can do.**  A tree or faults that are known answer it; else the text
is parsed through the cache, and the outcome is kept. -/
theorem hasErrors_cases (f : Formula m) (c : FormulaCache) (held : Nat → Bool) :
    (∃ t, f.origin.tree? = some t ∧ f.hasErrors c held = (false, f, c)) ∨
    (∃ errors, f.origin.tree? = none ∧ f.origin.errors? = some errors ∧
      f.hasErrors c held = (true, f, c)) ∨
    (f.origin = {} ∧ f.hasErrors c held = (false, f, c)) ∨
    (∃ text t d, f.origin = { source? := some text } ∧
      c.compile held text f.pass.options.bypassCache = (.ok t, d) ∧
      f.hasErrors c held = (false, ⟨{ source? := some text, tree? := some t }, f.pass⟩, d)) ∨
    (∃ text errors d, f.origin = { source? := some text } ∧
      c.compile held text f.pass.options.bypassCache = (.error errors, d) ∧
      f.hasErrors c held =
        (true, ⟨{ source? := some text, errors? := some errors }, f.pass⟩, d)) := by
  obtain ⟨⟨source?, tree?, errors?⟩, pass⟩ := f
  cases tree? with
  | some t => exact .inl ⟨t, rfl, rfl⟩
  | none =>
      cases errors? with
      | some errors => exact .inr (.inl ⟨errors, rfl, rfl, rfl⟩)
      | none =>
          cases source? with
          | none => exact .inr (.inr (.inl ⟨rfl, rfl⟩))
          | some text =>
              rcases h : c.compile held text pass.options.bypassCache with ⟨outcome, d⟩
              cases outcome with
              | ok t =>
                  refine .inr (.inr (.inr (.inl ⟨text, t, d, rfl, h, ?_⟩)))
                  simp [hasErrors, h]
              | error errors =>
                  refine .inr (.inr (.inr (.inr ⟨text, errors, d, rfl, h, ?_⟩)))
                  simp [hasErrors, h]

/-- A formula whose outcome is known is left as it is. -/
theorem hasErrors_eq_of_known {f : Formula m}
    (h : f.origin.tree?.isSome = true ∨ f.origin.errors?.isSome = true) (c : FormulaCache)
    (held : Nat → Bool) : f.hasErrors c held = (f.origin.tree?.isNone, f, c) := by
  obtain ⟨⟨source?, tree?, errors?⟩, pass⟩ := f
  cases tree? with
  | some t => rfl
  | none =>
      cases errors? with
      | some errors => rfl
      | none => simp at h

/-- **The outcome of the first parse is kept.**  Any later question has the same answer, and changes
neither the formula nor the cache of its time. -/
theorem hasErrors_hasErrors (f : Formula m) (c d : FormulaCache) (held live : Nat → Bool) :
    (f.hasErrors c held).2.1.hasErrors d live =
      ((f.hasErrors c held).1, (f.hasErrors c held).2.1, d) := by
  rcases f.hasErrors_cases c held with ⟨t, ht, h⟩ | ⟨errors, ht, he, h⟩ | ⟨ho, h⟩ |
    ⟨text, t, e, -, -, h⟩ | ⟨text, errors, e, -, -, h⟩
  · rw [h, hasErrors_eq_of_known (.inl (by rw [ht]; rfl)), ht]
    rfl
  · rw [h, hasErrors_eq_of_known (.inr (by rw [he]; rfl)), ht]
    rfl
  · rw [h]
    unfold hasErrors
    rw [ho]
    rfl
  · rw [h]
    rfl
  · rw [h]
    rfl

/-- The tree is asked for by asking for faults. -/
theorem resolveTree_snd (f : Formula m) (c : FormulaCache) (held : Nat → Bool) :
    (f.resolveTree c held).2 = (f.hasErrors c held).2 := by
  unfold resolveTree
  rcases f.hasErrors c held with ⟨faulty, g, d⟩
  simp only
  split
  · rfl
  · split <;> rfl

/-- The tree that was found once is found again. -/
theorem resolveTree_resolveTree (f : Formula m) (c d : FormulaCache) (held live : Nat → Bool) :
    (f.resolveTree c held).2.1.resolveTree d live =
      ((f.resolveTree c held).1, (f.resolveTree c held).2.1, d) := by
  have h := f.hasErrors_hasErrors c d held live
  rw [resolveTree_snd]
  unfold resolveTree
  rw [h]
  rcases f.hasErrors c held with ⟨faulty, g, e⟩
  simp only
  split
  · rfl
  · split <;> rfl

/-! ## An evaluation -/

section Evaluation

variable [Monad m]

/-- The value of the tree that was found, if one was. -/
def valueOf (found : Except EvalError SharedTree) (pass : Pass m) : m (Except EvalError Value) :=
  match found with
  | .ok t => (t.tree.evaluate pass).run
  | .error err => pure (.error err)

/-- **The parse comes first; the formula and the cache that it leaves are those that stay.** -/
theorem run_eq_map [LawfulMonad m] (f : Formula m) (c : FormulaCache) (held : Nat → Bool)
    (hooks : Hooks m) :
    f.run c held hooks = (fun r => (r, (f.hasErrors c held).2)) <$>
      valueOf (f.resolveTree c held).1 { f.pass with hooks } := by
  have hstate := f.resolveTree_snd c held
  have hpass := f.pass_hasErrors c held
  rw [← hstate] at hpass ⊢
  unfold run valueOf
  generalize f.resolveTree c held = outcome at hpass ⊢
  obtain ⟨found, g, d⟩ := outcome
  cases found with
  | error err => simp
  | ok t =>
      change g.pass = f.pass at hpass
      have hrun := run_runInPlace (fun p => t.tree.eval p) { g.pass with hooks }
      rw [← hpass]
      simp only at hrun ⊢
      rw [hrun, bind_map_left, bind_pure_comp]
      rfl

/-- **An evaluation changes nothing but the outcome of the first parse.**  Whatever resolvers it is
given, in one pass or in a broadcast, with or without success: the formula keeps its parameters, its
options, its hooks and its text, and stays wholly the same once its tree or its faults are known.
The same evaluation of what it leaves is the same action of the host, and leaves it unchanged; so
with hooks that are functions its result is the same. -/
theorem evaluate_restores [LawfulMonad m] (f : Formula m) (c : FormulaCache) (held : Nat → Bool)
    (use : HookUse) (overrides : Overrides m) :
    ∃ (result : m (Except EvalError Value)) (g : Formula m) (d : FormulaCache),
      f.evaluate c held use overrides = (fun r => (r, g, d)) <$> result ∧
      g.pass = f.pass ∧ g.origin.source? = f.origin.source? ∧
      (f.origin.tree?.isSome = true ∨ f.origin.errors?.isSome = true → g = f) ∧
      ∀ (later : FormulaCache) (live : Nat → Bool),
        g.evaluate later live use overrides = (fun r => (r, g, later)) <$> result := by
  have hpass := f.pass_hasErrors c held
  refine ⟨valueOf (f.resolveTree c held).1 { f.pass with hooks := f.hooksFor use overrides },
    (f.hasErrors c held).2.1, (f.hasErrors c held).2.2, ?_, hpass, ?_, ?_, ?_⟩
  · exact f.run_eq_map c held (f.hooksFor use overrides)
  · rcases f.hasErrors_cases c held with ⟨t, -, h⟩ | ⟨errors, -, -, h⟩ | ⟨-, h⟩ |
      ⟨text, t, e, ho, -, h⟩ | ⟨text, errors, e, ho, -, h⟩
    · rw [h]
    · rw [h]
    · rw [h]
    · rw [h, ho]
    · rw [h, ho]
  · intro hknown
    rw [hasErrors_eq_of_known hknown]
  · intro later live
    have htree := f.resolveTree_resolveTree c later held live
    have hfaults := f.hasErrors_hasErrors c later held live
    have hhooks : (f.hasErrors c held).2.1.hooksFor use overrides = f.hooksFor use overrides := by
      unfold hooksFor
      rw [hpass]
    unfold evaluate
    rw [run_eq_map, hfaults, hhooks, hpass]
    rw [resolveTree_snd] at htree
    rw [htree]

end Evaluation

/-- A column with a zero at its second position. -/
def columnWithZero : Parameters := .ofList [("A", .list [.integer 4, .integer 0, .integer 3])]

/-- The remainders of a number, which is not among the parameters, by the column. -/
def remainders : Formula Id :=
  (ofTree ⟨0, .binary .modulo (.parameter "b") (.parameter "A")⟩ { iterate := true }).mapParameters
    fun _ => columnWithZero

/-- A resolver with ten for every name. -/
def tenForAll : Overrides Id where
  parameter := some fun _ => modify fun _ => some (.integer 10)

/-- The second of three positions fails, and the formula is the same as before: the column is back
in its parameters, and it has not kept the resolver. -/
theorem evaluate_restores_remainders :
    ∃ d, remainders.evaluate {} (fun _ => false) .resolvers tenForAll =
        (.error .divisionByZero, remainders, d) ∧
      ∀ (later : FormulaCache) (live : Nat → Bool),
        remainders.evaluate later live .resolvers tenForAll =
          (.error .divisionByZero, remainders, later) := by
  obtain ⟨result, g, d, hfirst, -, -, hsame, hsecond⟩ :=
    remainders.evaluate_restores {} (fun _ => false) .resolvers tenForAll
  obtain rfl : g = remainders := hsame (.inl rfl)
  have hresult : result = .error .divisionByZero := (congrArg Prod.fst hfirst).symm.trans rfl
  subst hresult
  exact ⟨d, hfirst, hsecond⟩

/-- The loop alone leaves the item of the position that has failed. -/
example :
    ((positionsInPlace (fun parameters =>
        remainders.origin.tree?.elim (pure .null) fun t => t.tree.eval
          { remainders.pass with parameters, hooks := remainders.hooksFor .resolvers tenForAll })
      3 columnWithZero.lists).run.run columnWithZero).2.entries = [("A", .integer 0)] := rfl

end Formula

end FormulaEngine
