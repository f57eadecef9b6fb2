import FormulaEngine.Proofs.SideBySide
import Mathlib.Tactic.Choose

/-!
# Calls of the host

A host may note every call of a hook before it answers it.  What an evaluation adds to these notes
is what the hooks that it asks add, for a name or for a call, in the tree or in an argument that a
hook evaluates, however deep.

* `Noting` -- hosts that note calls; `Hook.noting` -- hooks whose calls are noted;
* `Adds` -- what a run may add to the notes;
* `Hook.Discreet` -- a hook that leaves the arguments of a call as they are, and adds to the notes
  only what it evaluates of them;
* `Expr.notesOnly_eval`, `Expr.notesOnly_evaluate` -- what one pass, or a broadcast, adds.
-/

namespace FormulaEngine

/-- What is asked of a host. -/
inductive HookKind where
  | parameter
  | function
deriving DecidableEq, Repr

/-- Which program of a host is called. -/
inductive HookPart where
  | handler
  /-- the resolver that a formula has -/
  | resolver
  /-- a resolver in place of that of the formula -/
  | override
deriving DecidableEq, Repr

/-- A call of a host. -/
structure HostCall where
  kind : HookKind
  part : HookPart
  name : String
deriving DecidableEq, Repr

/-- A host that notes calls, the last one behind the others. -/
abbrev Noting (n : Type → Type) := StateT (List HostCall) n

section Notes

variable {n : Type → Type} [Monad n] {α β : Type}

/-- Note a call. -/
def note (call : HostCall) : Noting n Unit := modify (· ++ [call])

/-- A run whose result has a property, and that adds only such calls to the notes. -/
def Adds (P : HostCall → Prop) (Q : α → Prop) (x : Noting n α) : Prop :=
  ∀ before, ∃ y : n {r : α × List HostCall // Q r.1 ∧ ∀ call ∈ r.2, P call},
    x.run before = (fun r => (r.1.1, before ++ r.1.2)) <$> y

/-- A run that adds only such calls to the notes. -/
abbrev NotesOnly (P : HostCall → Prop) (x : Noting n α) : Prop := Adds P (fun _ => True) x

variable {P : HostCall → Prop} {Q : α → Prop} {x : Noting n α} [LawfulMonad n]

theorem Adds.pure {a : α} (h : Q a) : Adds P Q (Pure.pure a : Noting n α) := by
  intro before
  refine ⟨Pure.pure ⟨(a, []), h, fun call hcall => nomatch hcall⟩, ?_⟩
  simp

/-- What two steps add is what each of them adds. -/
theorem Adds.bind {S : β → Prop} {f : α → Noting n β} (hx : Adds P Q x)
    (hf : ∀ a, Q a → Adds P S (f a)) : Adds P S (x >>= f) := by
  intro before
  obtain ⟨y, hy⟩ := hx before
  -- The second step begins with the notes that a result of the first one leaves.
  choose z hz using fun r : {r : α × List HostCall // Q r.1 ∧ ∀ call ∈ r.2, P call} =>
    hf r.1.1 r.2.1 (before ++ r.1.2)
  have hboth : ∀ (r : {r : α × List HostCall // Q r.1 ∧ ∀ call ∈ r.2, P call})
      (s : {s : β × List HostCall // S s.1 ∧ ∀ call ∈ s.2, P call}),
      ∀ call ∈ r.1.2 ++ s.1.2, P call := by
    intro r s call hcall
    rcases List.mem_append.1 hcall with h | h
    · exact r.2.2 call h
    · exact s.2.2 call h
  refine ⟨y >>= fun r => (fun s => ⟨(s.1.1, r.1.2 ++ s.1.2), s.2.1, hboth r s⟩) <$> z r, ?_⟩
  rw [StateT.run_bind, hy, bind_map_left, map_bind]
  congr 1
  funext r
  rw [hz, Functor.map_map]
  simp only [List.append_assoc]

theorem Adds.imp {S : α → Prop} (hx : Adds P Q x) (h : ∀ a, Q a → S a) : Adds P S x := by
  have hbind := hx.bind fun a ha => Adds.pure (n := n) (P := P) (h a ha)
  rwa [bind_pure] at hbind

theorem notesOnly_note {call : HostCall} (h : P call) :
    NotesOnly P (note call : Noting n Unit) := by
  intro before
  refine ⟨Pure.pure ⟨((), [call]), trivial, ?_⟩, ?_⟩
  · intro other hother
    exact List.mem_singleton.1 hother ▸ h
  · simp [note]

/-- What a host does without notes. -/
theorem adds_lift {x : n α} (h : ∀ a, Q a) : Adds P Q (StateT.lift x : Noting n α) := by
  intro before
  refine ⟨(fun a => ⟨(a, []), h a, fun call hcall => nomatch hcall⟩) <$> x, ?_⟩
  simp

/-- Of two steps that may fail the second one adds nothing after a failure of the first. -/
theorem notesOnly_bind {x : ExceptT EvalError (Noting n) α} {f : α → ExceptT EvalError (Noting n) β}
    (hx : NotesOnly P x.run) (hf : ∀ a, NotesOnly P (f a).run) : NotesOnly P (x >>= f).run := by
  refine Adds.bind hx fun outcome _ => ?_
  cases outcome with
  | ok a => exact hf a
  | error err => exact Adds.pure trivial

theorem notesOnly_mapM {f : α → ExceptT EvalError (Noting n) β} {as : List α}
    (h : ∀ a ∈ as, NotesOnly P (f a).run) : NotesOnly P (as.mapM f).run := by
  induction as with
  | nil => exact Adds.pure trivial
  | cons a rest ih =>
      have hrest := ih fun b hb => h b (List.mem_cons_of_mem a hb)
      rw [List.mapM_cons]
      exact notesOnly_bind (h a List.mem_cons_self) fun b =>
        notesOnly_bind hrest fun bs => Adds.pure trivial

/-- What stands in the notes of a host that does nothing else. -/
theorem Adds.of_noted {x : Noting Id α} (h : Adds P Q x) : ∀ call ∈ (x.run []).2, P call := by
  obtain ⟨y, hy⟩ := h []
  rw [hy]
  exact y.2.2

/-- What is added goes through sequences. -/
theorem stepwise_notesOnly (P : HostCall → Prop) :
    Stepwise fun (α : Type) (x _ : ExceptT EvalError (Noting n) α) => NotesOnly P x.run where
  result _ := Adds.pure trivial
  failure _ _ := Adds.pure trivial
  sequence hx hf := notesOnly_bind hx hf

end Notes

/-! ## The two halves of a hook -/

section Halves

variable {m : Type → Type} [Monad m] {α : Type}

/-- What the handler of a hook does, if there is one. -/
def Hook.handled (h : Hook m α) (name : String) (a : α) : m (Unit × α) :=
  match h.handler with
  | some handler => (handler name).run a
  | none => pure ((), a)

/-- What the resolver of a hook does, if there is one. -/
def Hook.resolved (h : Hook m α) (name : String) (a : α) : m (Except EvalError Unit × α) :=
  match h.resolver with
  | some resolver => (resolver name).run.run a
  | none => pure (.ok (), a)

/-- The resolver works on what the handler has left. -/
theorem Hook.run_invoke [LawfulMonad m] (h : Hook m α) (name : String) (a : α) :
    (h.invoke name).run.run a = h.handled name a >>= fun r => h.resolved name r.2 := by
  obtain ⟨handler, resolver⟩ := h
  cases handler with
  | none => cases resolver <;> simp [invoke, handled, resolved]
  | some handler => cases resolver <;> simp [invoke, handled, resolved]

end Halves

/-! ## Hooks that note their calls -/

section Hooks

variable {n : Type → Type} [Monad n] {α β : Type}

/-- A resolver whose calls are noted. -/
def notingResolver (kind : HookKind) (part : HookPart)
    (resolver : String → ExceptT EvalError (StateT α (Noting n)) Unit) :
    String → ExceptT EvalError (StateT α (Noting n)) Unit := fun name => do
  ExceptT.lift (StateT.lift (note ⟨kind, part, name⟩))
  resolver name

/-- A hook whose calls are noted. -/
def Hook.noting (kind : HookKind) (h : Hook (Noting n) α) : Hook (Noting n) α where
  handler := h.handler.map fun handler name => do
    StateT.lift (note ⟨kind, .handler, name⟩)
    handler name
  resolver := h.resolver.map (notingResolver kind .resolver)

/-- Hooks whose calls are noted. -/
def Hooks.noting (h : Hooks (Noting n)) : Hooks (Noting n) :=
  ⟨h.parameter.noting .parameter, h.function.noting .function⟩

/-- A program of a host that works on a state with arguments leaves them as they are, and adds only
such calls to the notes, provided that the evaluations of the arguments do. -/
def Minds (P : HostCall → Prop) (arguments : α → List (Argument (Noting n)))
    (program : α → Noting n (β × α)) : Prop :=
  ∀ a, (∀ argument ∈ arguments a, ∀ use, NotesOnly P (argument.evaluate use).run) →
    Adds P (fun r => arguments r.2 = arguments a) (program a)

/-- Both programs of a hook, when they are called for a name. -/
structure Hook.Keeps (P : HostCall → Prop) (arguments : α → List (Argument (Noting n)))
    (h : Hook (Noting n) α) (name : String) : Prop where
  handler : ∀ handler ∈ h.handler, Minds P arguments (handler name).run
  resolver : ∀ resolver ∈ h.resolver, Minds P arguments (resolver name).run.run

/-- A hook that may evaluate the arguments of a call, as often as it likes, but leaves them as they
are; of its own accord it adds nothing to the notes. -/
def Hook.Discreet (arguments : α → List (Argument (Noting n))) (h : Hook (Noting n) α) : Prop :=
  ∀ P name, h.Keeps P arguments name

/-- Hooks of this sort; a parameter has no arguments. -/
structure Hooks.Discreet (h : Hooks (Noting n)) : Prop where
  parameter : h.parameter.Discreet fun _ => []
  function : h.function.Discreet FunctionCall.arguments

variable [LawfulMonad n] {P : HostCall → Prop} {arguments : α → List (Argument (Noting n))}
  {h : Hook (Noting n) α} {name : String}

/-- What a hook adds to the notes, it adds when it is consulted. -/
theorem Hook.Keeps.consult (hkeeps : h.Keeps P arguments name) (a : α)
    (ha : ∀ argument ∈ arguments a, ∀ use, NotesOnly P (argument.evaluate use).run) :
    NotesOnly P (h.consult name a).run := by
  have hhandled : Adds P (fun r => arguments r.2 = arguments a) (h.handled name a) := by
    unfold handled
    split
    · next handler hcase => exact hkeeps.handler handler hcase a ha
    · exact Adds.pure rfl
  have hinvoke : NotesOnly P ((h.invoke name).run.run a) := by
    rw [run_invoke]
    refine hhandled.bind fun r hr => ?_
    unfold resolved
    split
    · next resolver hcase =>
        exact (hkeeps.resolver resolver hcase r.2 (hr ▸ ha)).imp fun _ _ => trivial
    · exact Adds.pure trivial
  exact hinvoke.bind fun _ _ => Adds.pure trivial

/-- A note comes before what a program does. -/
theorem Minds.behind_note {call : HostCall} {program : α → Noting n (β × α)}
    (hminds : Minds P arguments program) (hcall : P call) :
    Minds P arguments fun a => note call >>= fun _ => program a :=
  fun a ha => (notesOnly_note hcall).bind fun _ _ => hminds a ha

theorem minds_notingResolver {kind : HookKind} {part : HookPart}
    {resolver : String → ExceptT EvalError (StateT α (Noting n)) Unit}
    (hminds : Minds P arguments (resolver name).run.run) (hcall : P ⟨kind, part, name⟩) :
    Minds P arguments (notingResolver kind part resolver name).run.run := by
  have hnote := hminds.behind_note hcall
  have hrun : (notingResolver kind part resolver name).run.run = fun a =>
      note ⟨kind, part, name⟩ >>= fun _ => (resolver name).run.run a := by
    funext a
    simp [notingResolver]
  rwa [hrun]

/-- A hook of this sort adds its own calls, and what it evaluates. -/
theorem Hook.Discreet.keeps_noting (hdiscreet : h.Discreet arguments) {kind : HookKind}
    (hcall : ∀ part, P ⟨kind, part, name⟩) : (h.noting kind).Keeps P arguments name where
  handler := by
    intro noted hnoted
    obtain ⟨handler, hhandler, rfl⟩ := Option.map_eq_some_iff.1 hnoted
    have hnote := ((hdiscreet P name).handler handler hhandler).behind_note (hcall .handler)
    intro a ha
    simpa using hnote a ha
  resolver := by
    intro noted hnoted
    obtain ⟨resolver, hresolver, rfl⟩ := Option.map_eq_some_iff.1 hnoted
    exact minds_notingResolver ((hdiscreet P name).resolver resolver hresolver) (hcall .resolver)

omit [LawfulMonad n] in
/-- Without its handler a hook does no more. -/
theorem Hook.Keeps.resolverOnly (hkeeps : h.Keeps P arguments name) :
    h.resolverOnly.Keeps P arguments name where
  handler := fun _ hhandler => nomatch hhandler
  resolver := hkeeps.resolver

/-- What both hooks add to the notes when they are called, the one for a name in question. -/
structure Hooks.Keeps (P : HostCall → Prop) (Asked : String → Prop) (h : Hooks (Noting n)) :
    Prop where
  parameter : ∀ name, Asked name → h.parameter.Keeps P (fun _ => []) name
  function : ∀ name, h.function.Keeps P FunctionCall.arguments name

omit [LawfulMonad n] in
theorem Hooks.Keeps.using {hooks : Hooks (Noting n)} {Asked : String → Prop}
    (hkeeps : hooks.Keeps P Asked) (use : HookUse) : (hooks.using use).Keeps P Asked := by
  cases use with
  | all => exact hkeeps
  | resolvers =>
      exact ⟨fun name hname => (hkeeps.parameter name hname).resolverOnly,
        fun name => (hkeeps.function name).resolverOnly⟩

end Hooks

/-! ## Discreet hooks -/

section Discreet

variable {n : Type → Type} [Monad n] {α : Type}

/-- A hook that knows nothing of the notes. -/
def Hook.overNotes (h : Hook n α) : Hook (Noting n) α where
  handler := h.handler.map fun handler name a => StateT.lift ((handler name).run a)
  resolver := h.resolver.map fun resolver name =>
    ExceptT.mk fun a => StateT.lift ((resolver name).run.run a)

/-- A resolver that evaluates all arguments and answers with their values. -/
def answering {m : Type → Type} [Monad m] (answer : String → List Value → Option Value)
    (name : String) : ExceptT EvalError (StateT (FunctionCall m) m) Unit :=
  ExceptT.mk fun call => do
    let outcome ← call.evaluateArguments.run
    return (outcome.map fun _ => (),
      { call with result := outcome.toOption.bind (answer name) })

variable [LawfulMonad n]

/-- A parameter hook that knows nothing of the notes adds nothing to them. -/
theorem Hook.discreet_overNotes (h : Hook n (Option Value)) :
    h.overNotes.Discreet fun _ => [] := by
  intro P name
  constructor
  · intro noted hnoted a _
    obtain ⟨handler, -, rfl⟩ := Option.map_eq_some_iff.1 hnoted
    exact adds_lift fun _ => rfl
  · intro noted hnoted a _
    obtain ⟨resolver, -, rfl⟩ := Option.map_eq_some_iff.1 hnoted
    exact adds_lift fun _ => rfl

omit [LawfulMonad n] in
theorem Hook.discreet_empty (arguments : α → List (Argument (Noting n))) :
    ({} : Hook (Noting n) α).Discreet arguments := by
  intro P name
  constructor
  · intro handler hhandler
    exact nomatch hhandler
  · intro resolver hresolver
    exact nomatch hresolver

/-- To evaluate all arguments is to leave them as they are. -/
theorem minds_answering {P : HostCall → Prop} (answer : String → List Value → Option Value)
    (name : String) :
    Minds P FunctionCall.arguments (answering (m := Noting n) answer name).run.run := by
  intro call hcall
  have hvalues : NotesOnly P call.evaluateArguments.run :=
    notesOnly_mapM fun argument hargument => hcall argument hargument .all
  exact hvalues.bind fun outcome _ => Adds.pure rfl

theorem discreet_answering (answer : String → List Value → Option Value) :
    Hook.Discreet FunctionCall.arguments
      ({ resolver := some (answering answer) } : Hook (Noting n) (FunctionCall (Noting n))) := by
  intro P name
  constructor
  · intro handler hhandler
    exact nomatch hhandler
  · intro resolver hresolver
    cases hresolver
    exact minds_answering answer name

end Discreet

/-! ## Evaluations -/

section Evaluation

variable {n : Type → Type} [Monad n] [LawfulMonad n] {P : HostCall → Prop} {pass : Pass (Noting n)}

/-- The hooks are asked for parameters without a value only. -/
theorem Pass.alike_notesOnly {Asked : String → Prop}
    (hkeeps : pass.hooks.Keeps P fun name => Asked name ∧ pass.parameters.get? name = none) :
    pass.Alike (fun (α : Type) (x _ : ExceptT EvalError (Noting n) α) => NotesOnly P x.run) Asked
      pass where
  options := rfl
  parameter := by
    intro use name hasked
    unfold parameterValue
    cases hget : (pass.forArgument use).parameters.get? name with
    | some v => exact (stepwise_notesOnly P).result v
    | none =>
        have hparameter := (hkeeps.using use).parameter name ⟨hasked, hget⟩
        have hconsult := hparameter.consult none fun _ h => nomatch h
        refine notesOnly_bind hconsult fun answer => ?_
        cases answer with
        | some v => exact Adds.pure trivial
        | none => exact Adds.pure trivial
  answer := by
    intro use name arguments hparts
    have hfunction := (hkeeps.using use).function name
    have harguments : ∀ argument ∈ lazyArguments arguments (pass.forArgument use), ∀ inner,
        NotesOnly P (argument.evaluate inner).run := by
      intro argument hmem inner
      obtain ⟨e, he, heval⟩ := evaluate_of_mem_lazyArguments hmem
      rw [heval, forArgument_forArgument]
      exact hparts e he _
    have hconsult := hfunction.consult ⟨_, none⟩ harguments
    unfold Pass.answer
    rw [← bind_pure_comp]
    exact notesOnly_bind hconsult fun call => Adds.pure trivial

/-- **An evaluation adds to the notes what its hooks add.**  They are asked for the parameters of
the tree that have no value, and for calls, in the tree or in an argument that a hook evaluates. -/
theorem Expr.notesOnly_eval (e : Expr)
    (hkeeps : pass.hooks.Keeps P fun name =>
      name ∈ e.occurrences ∧ pass.parameters.get? name = none) :
    NotesOnly P (e.eval pass).run := by
  have h := e.eval_alike (stepwise_notesOnly P) (Pass.alike_notesOnly hkeeps) (fun _ hname => hname)
    .all
  rwa [eval_forArgument_all] at h

/-- A broadcast adds what its passes add. -/
theorem Expr.notesOnly_evaluate (e : Expr) (hkeeps : pass.hooks.Keeps P fun _ => True) :
    NotesOnly P (e.evaluate pass).run := by
  have hpasses : ∀ parameters, NotesOnly P (e.eval { pass with parameters }).run := by
    intro parameters
    exact e.notesOnly_eval ⟨fun name _ => hkeeps.parameter name trivial, hkeeps.function⟩
  exact (stepwise_notesOnly P).run pass pass e.eval e.eval rfl rfl hpasses

end Evaluation

end FormulaEngine
