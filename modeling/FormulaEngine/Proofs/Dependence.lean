import FormulaEngine.Proofs.HostCalls

/-!
# The parameters that a tree depends on

The names of the parameters of a tree are all that an evaluation asks for, of a map or of a host.

* `Expr.outcome_eq` -- maps that agree on them have the same outcome;
* `Expr.undefined_of_outcome` -- what is missing is one of them;
* `Expr.notesOnly_asked` -- a hook is called for those without a value;
* `Expr.parameterNames_complete` -- all of this for every tree.
-/

namespace FormulaEngine

namespace Expr

theorem mem_parameterNames {e : Expr} {name : String} :
    name ∈ e.parameterNames ↔ name ∈ e.occurrences := List.mem_eraseDups

section Effects

variable {m : Type → Type} [Monad m]

/-- Without the option to iterate, an evaluation is one pass. -/
theorem evaluate_of_not_iterate (e : Expr) {pass : Pass m} (h : pass.options.iterate = false) :
    e.evaluate pass = e.eval pass := if_neg (by simp [h])

end Effects

/-! ## Without hooks -/

section NoHooks

variable (options : Options) (p q : Parameters) (use : HookUse) (name : String)

/-- A pass of no host. -/
def alone : Pass Id := { options, parameters := p }

theorem parameterValue_alone : ((alone options p).forArgument use).parameterValue name =
    match p.get? name with
    | some v => pure v
    | none => throw (.undefinedParameter name) := by
  cases use <;> rfl

theorem answer_alone (arguments : List Expr) :
    ((alone options p).forArgument use).answer name arguments = pure none := by
  cases use <;> rfl

variable {options p q} {e : Expr}

/-- Maps that answer alike are alike for an evaluation without hooks. -/
theorem outcome_eq (hsingle : options.iterate = false)
    (h : ∀ name ∈ e.parameterNames, p.get? name = q.get? name) :
    e.outcome options p = e.outcome options q := by
  have hequal : Stepwise fun (α : Type) (x y : ExceptT EvalError Id α) => x = y :=
    ⟨fun _ => rfl, fun _ _ => rfl, fun hx hf => by rw [hx, funext hf]⟩
  have hmaps : (alone options p).Alike (fun (α : Type) (x y : ExceptT EvalError Id α) => x = y)
      (· ∈ e.parameterNames) (alone options q) := by
    refine ⟨rfl, ?_, ?_⟩
    · intro use name hname
      rw [parameterValue_alone, parameterValue_alone, h name hname]
    · intro use name arguments _
      rw [answer_alone, answer_alone]
  have heval := e.eval_alike hequal hmaps (fun _ => mem_parameterNames.2) .all
  rw [eval_forArgument_all, eval_forArgument_all] at heval
  unfold outcome
  rw [e.evaluate_of_not_iterate hsingle, e.evaluate_of_not_iterate hsingle]
  exact congrArg (fun x => x.run.run) heval

/-- A failure for want of a parameter is for one of these names, which has no value. -/
def MissesOnly (p : Parameters) (names : List String) {α : Type} (x : ExceptT EvalError Id α) :
    Prop :=
  ∀ name, x.run.run = .error (.undefinedParameter name) → name ∈ names ∧ p.get? name = none

theorem stepwise_missesOnly (p : Parameters) (names : List String) :
    Stepwise fun (α : Type) (x _ : ExceptT EvalError Id α) => MissesOnly p names x where
  result := by
    intro α a name h
    exact nomatch h
  failure := by
    intro α err herr name h
    exact absurd (Except.error.inj h) (herr name)
  sequence := by
    intro α β x y f g hx hf name h
    rw [run_bind_id] at h
    cases hrun : x.run.run with
    | ok a =>
        rw [hrun] at h
        exact hf a name h
    | error err =>
        rw [hrun] at h
        cases h
        exact hx name hrun

/-- Without hooks a tree fails for want of one of its own parameters only. -/
theorem undefined_of_outcome (hsingle : options.iterate = false)
    (h : e.outcome options p = .error (.undefinedParameter name)) :
    name ∈ e.parameterNames ∧ p.get? name = none := by
  have hmap : (alone options p).Alike (fun (α : Type) (x _ : ExceptT EvalError Id α) =>
      MissesOnly p e.parameterNames x) (· ∈ e.parameterNames) (alone options p) := by
    refine ⟨rfl, ?_, ?_⟩
    · intro use asked hasked name h
      rw [parameterValue_alone] at h
      cases hget : p.get? asked with
      | some v =>
          rw [hget] at h
          exact nomatch h
      | none =>
          rw [hget] at h
          cases h
          exact ⟨hasked, hget⟩
    · intro use asked arguments _ name h
      rw [answer_alone] at h
      exact nomatch h
  have heval := e.eval_alike (stepwise_missesOnly p e.parameterNames) hmap
    (fun _ => mem_parameterNames.2) .all
  rw [eval_forArgument_all] at heval
  unfold outcome at h
  rw [e.evaluate_of_not_iterate hsingle] at h
  exact heval name h

end NoHooks

/-! ## With hooks -/

/-- The hook is asked for parameters of the tree that have no value. -/
theorem notesOnly_asked {n : Type → Type} [Monad n] [LawfulMonad n] {e : Expr} {options : Options}
    (hsingle : options.iterate = false) (p : Parameters) {hooks : Hooks (Noting n)}
    (h : hooks.Discreet) :
    NotesOnly (fun call => call.kind = .parameter →
        call.name ∈ e.parameterNames ∧ p.get? call.name = none)
      (e.evaluate ⟨options, p, hooks.noting⟩).run := by
  rw [e.evaluate_of_not_iterate hsingle]
  apply e.notesOnly_eval
  constructor
  · intro name hname
    exact h.parameter.keeps_noting fun part _ => ⟨mem_parameterNames.2 hname.1, hname.2⟩
  · intro name
    exact h.function.keeps_noting fun part hkind => nomatch hkind

/-- **The names of the parameters of a tree are all that its evaluation depends on**, in one pass.
Maps with the same values for them have the same outcome; where a parameter is missing, it is one of
them; and whatever the hooks do, as long as they leave the arguments of a call as they are, the
parameter hook is called for those of them that have no value, and for nothing else. -/
theorem parameterNames_complete (e : Expr) (options : Options) (hsingle : options.iterate = false) :
    (∀ p q : Parameters, (∀ name ∈ e.parameterNames, p.get? name = q.get? name) →
      e.outcome options p = e.outcome options q) ∧
    (∀ (p : Parameters) (name : String), e.outcome options p = .error (.undefinedParameter name) →
      name ∈ e.parameterNames ∧ p.get? name = none) ∧
    ∀ (n : Type → Type) [Monad n] [LawfulMonad n] (p : Parameters) (hooks : Hooks (Noting n)),
      hooks.Discreet →
        NotesOnly (fun call => call.kind = .parameter →
            call.name ∈ e.parameterNames ∧ p.get? call.name = none)
          (e.evaluate ⟨options, p, hooks.noting⟩).run :=
  ⟨fun _ _ => outcome_eq hsingle, fun _ name => undefined_of_outcome name hsingle,
    fun _ _ _ p _ => notesOnly_asked hsingle p⟩

/-- A number and what a function makes of another one. -/
def sumWithCall : Expr :=
  .binary .add (.parameter "x") (.call "last" [.literal (.boolean true), .parameter "y"])

/-- A map with a value that the sum does not need. -/
def needless : Parameters where
  entries := [("z", .integer 3)]
  ignoreCase := false
  distinct := by decide +kernel

/-- Hooks with the value five for all parameters; calls have the value of their last argument. -/
def fiveAndLast : Hooks (Noting Id) where
  parameter := Hook.overNotes { resolver := some fun _ => modify fun _ => some (.integer 5) }
  function := { resolver := some (answering fun _ values => values.getLast?) }

theorem discreet_fiveAndLast : fiveAndLast.Discreet :=
  ⟨Hook.discreet_overNotes _, discreet_answering _⟩

/-- The sum has the same outcome under the empty map, and is ten with two calls of the parameter
hook, one of them for an argument. -/
theorem parameterNames_complete_sumWithCall :
    sumWithCall.outcome {} needless = sumWithCall.outcome {} (.empty false) ∧
    sumWithCall.outcome {} needless = .error (.undefinedParameter "x") ∧
    ("x" ∈ sumWithCall.parameterNames ∧ needless.get? "x" = none) ∧
    (sumWithCall.evaluate ⟨{}, needless, fiveAndLast.noting⟩).run.run [] =
      (.ok (.integer 10), [⟨.parameter, .resolver, "x"⟩, ⟨.function, .resolver, "last"⟩,
        ⟨.parameter, .resolver, "y"⟩]) ∧
    ∀ call ∈ ((sumWithCall.evaluate ⟨{}, needless, fiveAndLast.noting⟩).run.run []).2,
      call.kind = .parameter → call.name ∈ sumWithCall.parameterNames ∧
        needless.get? call.name = none := by
  have hmissing : sumWithCall.outcome {} needless = .error (.undefinedParameter "x") := rfl
  have hnames : ∀ name ∈ sumWithCall.parameterNames,
      needless.get? name = (Parameters.empty false).get? name := by
    intro name hname
    have hlist : sumWithCall.parameterNames = ["x", "y"] := by decide +kernel
    rw [hlist] at hname
    rcases List.mem_cons.1 hname with rfl | hname
    · rfl
    · rw [List.mem_singleton.1 hname]
      rfl
  obtain ⟨hequal, hundefined, hcalls⟩ := parameterNames_complete sumWithCall {} rfl
  exact ⟨hequal _ _ hnames, hmissing, hundefined _ _ hmissing, rfl,
    (hcalls Id needless fiveAndLast discreet_fiveAndLast).of_noted⟩

end Expr

end FormulaEngine
