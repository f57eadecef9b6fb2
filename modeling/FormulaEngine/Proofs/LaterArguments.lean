import FormulaEngine.Proofs.HostCalls

/-!
# Arguments that a hook evaluates

A function hook is handed the arguments of a call before they are evaluated.  Whenever it evaluates
one of them, that is as if the tree were evaluated in its place in the formula: the result is the
same, and so is everything that the host does.

* `Argument.InPlace` -- an argument that stands for a tree in a pass;
* `Pass.standsFor_handed` -- the arguments of a call are of this sort;
* `FunctionCall.StandsFor.run_evaluateArguments` -- they are evaluated in order, up to the first
  failure;
* `Pass.arguments_in_place` -- what is handed over for a call, in one pass and in a broadcast.
-/

namespace FormulaEngine

section InPlace

variable {m : Type → Type} [Monad m]

/-- What a function hook is handed for a call. -/
def Pass.handed (pass : Pass m) (arguments : List Expr) : FunctionCall m :=
  ⟨lazyArguments arguments pass, none⟩

/-- The pass at a position of a broadcast. -/
def Pass.atPosition (pass : Pass m) (k : Nat) : Pass m :=
  { pass with parameters := pass.parameters.atPosition k }

/-- An argument that stands for a tree in a pass.  It is evaluated once, with the parameters and the
other options of the pass, and its evaluation is that of the tree in the pass. -/
structure Argument.InPlace (pass : Pass m) (a : Argument m) (e : Expr) : Prop where
  tree : a.tree = e
  parameters : a.parameters = pass.parameters
  options : a.options = { pass.options with iterate := false }
  value : a.evaluate .all = e.eval pass

/-- A call all arguments of which stand for trees in a pass, as long as no hook alters them. -/
def FunctionCall.StandsFor (call : FunctionCall m) (arguments : List Expr) (pass : Pass m) : Prop :=
  List.Forall₂ (Argument.InPlace pass) call.arguments arguments

/-- The arguments of a call stand for their trees in the pass of the call. -/
theorem Pass.standsFor_handed (pass : Pass m) (arguments : List Expr) :
    (pass.handed arguments).StandsFor arguments pass := by
  change List.Forall₂ (Argument.InPlace pass) (lazyArguments arguments pass) arguments
  induction arguments with
  | nil => exact .nil
  | cons e rest ih => exact .cons ⟨rfl, rfl, rfl, e.eval_single pass⟩ ih

variable [LawfulMonad m]

/-- A call is left to the hook, and is one of a built-in function if the hook has no result. -/
theorem Pass.eval_call_handed (pass : Pass m) (name : String) (arguments : List Expr) :
    (Expr.call name arguments).eval pass =
      pass.hooks.function.consult name (pass.handed arguments) >>= fun call =>
        match call.result with
        | some v => pure v
        | none => pass.builtinValue name arguments := by
  rw [Expr.eval_call]
  exact bind_map_left ..

/-- To evaluate several trees is to evaluate the front ones first. -/
theorem evalAll_append (front rest : List Expr) (pass : Pass m) :
    evalAll (front ++ rest) pass = (do
      let vs ← evalAll front pass
      let ws ← evalAll rest pass
      return vs ++ ws) := by
  induction front with
  | nil => simp [evalAll]
  | cons e front ih => simp [evalAll, ih]

/-- The values of arguments are those of the trees. -/
theorem FunctionCall.StandsFor.evaluateArguments_eq {call : FunctionCall m} {arguments : List Expr}
    {pass : Pass m} (h : call.StandsFor arguments pass) :
    call.evaluateArguments = evalAll arguments pass := by
  obtain ⟨as, result⟩ := call
  change List.mapM (·.evaluate .all) as = _
  change List.Forall₂ (Argument.InPlace pass) as arguments at h
  induction h with
  | nil => rfl
  | cons ha _ ih => rw [List.mapM_cons, ha.value, ih, evalAll]

/-- **Arguments are evaluated in order, up to the first failure.**  An argument is evaluated when
all before it have a value; when one of them fails, or the argument itself, that is the failure, and
nothing else is evaluated. -/
theorem FunctionCall.StandsFor.run_evaluateArguments {call : FunctionCall m} {arguments : List Expr}
    {pass : Pass m} (h : call.StandsFor arguments pass)
    {front rest : List Expr} {e : Expr} (hsplit : arguments = front ++ e :: rest) :
    call.evaluateArguments.run = (evalAll front pass).run >>= fun before =>
      match before with
      | .error err => pure (.error err)
      | .ok vs => (e.eval pass).run >>= fun outcome =>
        match outcome with
        | .error err => pure (.error err)
        | .ok v => (·.map (vs ++ v :: ·)) <$> (evalAll rest pass).run := by
  subst hsplit
  rw [h.evaluateArguments_eq, evalAll_append, ExceptT.run_bind]
  congr 1
  funext before
  cases before with
  | error err => rfl
  | ok vs =>
      simp only [evalAll, bind_assoc]
      rw [ExceptT.run_bind]
      congr 1
      funext outcome
      cases outcome with
      | error err => rfl
      | ok v =>
          simp only [map_pure, bind_pure_comp]
          exact ExceptT.run_map (vs ++ v :: ·) (evalAll rest pass)

/-- **An argument that a hook evaluates is evaluated as in its place in the formula.**  For a call
the function hook is handed arguments that stand for the trees of the call, in whatever pass the
call is evaluated; they see its parameters, and are never broadcast.  Evaluated all, they are the
trees from left to right up to the first failure.  At a position of a broadcast the pass is that of
the position, and so the arguments see the items of the position.  As the host is arbitrary, equal
evaluations call the same hooks in the same order. -/
theorem Pass.arguments_in_place (pass : Pass m) (name : String) (arguments : List Expr) :
    ((Expr.call name arguments).eval pass =
      pass.hooks.function.consult name (pass.handed arguments) >>= fun call =>
        match call.result with
        | some v => pure v
        | none => pass.builtinValue name arguments) ∧
    (pass.handed arguments).StandsFor arguments pass ∧
    (∀ call : FunctionCall m, call.StandsFor arguments pass →
      call.evaluateArguments = evalAll arguments pass ∧
      ∀ front e rest, arguments = front ++ e :: rest →
        call.evaluateArguments.run = (evalAll front pass).run >>= fun before =>
          match before with
          | .error err => pure (.error err)
          | .ok vs => (e.eval pass).run >>= fun outcome =>
            match outcome with
            | .error err => pure (.error err)
            | .ok v => (·.map (vs ++ v :: ·)) <$> (evalAll rest pass).run) ∧
    ∀ n, pass.options.iterate = true →
      (∃ name items, (name, Value.list items) ∈ pass.parameters.entries) →
      (∀ name items, (name, Value.list items) ∈ pass.parameters.entries → items.length = n) →
      (∀ e : Expr, e.evaluate pass =
        Value.list <$> (List.range n).mapM fun k => e.eval (pass.atPosition k)) ∧
      ∀ k name, (pass.atPosition k).parameters.get? name =
        (pass.parameters.get? name).map (·.atPosition k) := by
  refine ⟨pass.eval_call_handed name arguments, pass.standsFor_handed arguments, ?_, ?_⟩
  · intro call h
    exact ⟨h.evaluateArguments_eq, fun front e rest hsplit => h.run_evaluateArguments hsplit⟩
  · intro n hiterate hsome hlength
    refine ⟨fun e => ?_, fun k name => pass.parameters.get?_atPosition k name⟩
    rw [e.evaluate_of_iterate hiterate, pass.broadcast_eq_mapM _ hsome hlength]
    rfl

end InPlace

/-! ## A column of lists -/

/-- The arguments of a call: a column, and a name that has no value. -/
def columnAndName : List Expr := [.parameter "c", .parameter "x"]

/-- A broadcast over a column whose items are lists.  Parameters without a value are five, and calls
have the value of their first argument. -/
def overLists : Pass (Noting Id) where
  options := { iterate := true }
  parameters :=
    { entries := [("c", .list [.list [.integer 1, .integer 2], .list [.integer 3]])]
      ignoreCase := false
      distinct := by decide +kernel }
  hooks := Hooks.noting
    { parameter := Hook.overNotes { resolver := some fun _ => modify fun _ => some (.integer 5) }
      function := { resolver := some (answering fun _ values => values.head?) } }

/-- At each position the call has the list of the position, with one call for the function and one
for the name in its arguments; these are evaluated as in their place. -/
theorem Pass.arguments_in_place_overLists :
    ((Expr.call "first" columnAndName).evaluate overLists).run.run [] =
      (.ok (.list [.list [.integer 1, .integer 2], .list [.integer 3]]),
        [⟨.function, .resolver, "first"⟩, ⟨.parameter, .resolver, "x"⟩,
          ⟨.function, .resolver, "first"⟩, ⟨.parameter, .resolver, "x"⟩]) ∧
    ((overLists.atPosition 0).handed columnAndName).StandsFor columnAndName
      (overLists.atPosition 0) ∧
    ((overLists.atPosition 0).handed columnAndName).evaluateArguments =
      evalAll columnAndName (overLists.atPosition 0) ∧
    (overLists.atPosition 0).parameters.get? "c" = some (.list [.integer 1, .integer 2]) ∧
    (Expr.call "first" columnAndName).evaluate overLists =
      Value.list <$> (List.range 2).mapM fun k =>
        (Expr.call "first" columnAndName).eval (overLists.atPosition k) := by
  have hlength : ∀ name items, (name, Value.list items) ∈ overLists.parameters.entries →
      items.length = 2 := by
    intro name items hmem
    cases List.mem_singleton.1 hmem
    rfl
  obtain ⟨-, hhanded, hvalues, -⟩ :=
    arguments_in_place (overLists.atPosition 0) "first" columnAndName
  obtain ⟨-, -, -, hbroadcast⟩ := arguments_in_place overLists "first" columnAndName
  obtain ⟨hpositions, hitems⟩ := hbroadcast 2 rfl ⟨"c", _, List.mem_singleton.2 rfl⟩ hlength
  exact ⟨rfl, hhanded, (hvalues _ hhanded).1, (hitems 0 "c").trans rfl, hpositions _⟩

section Answering

variable {m : Type → Type} [Monad m] [LawfulMonad m]

end Answering

end FormulaEngine
