import FormulaEngine.Proofs.CacheContents
import FormulaEngine.Proofs.Frame
import FormulaEngine.Proofs.Rendering

/-!
# The life of a formula

A formula keeps the outcome of its first parse for its life.  What is done with it, and what others
do with the cache meanwhile, decides only when its text is parsed and which of several equal trees
it has.

* `Formula.Event` -- what can be done with a formula and with its cache;
* `Formula.Lives` -- the invariant;
* `Formula.Answers` -- all answers of a formula, by the outcome that it keeps;
* `Formula.answers_afterAll` -- the outcome is that of its text, and it stays the same.
-/

namespace FormulaEngine

/-! ## The words for faults -/

namespace SyntaxError

theorem message_ne_empty (e : SyntaxError) : e.message ≠ "" := by
  obtain ⟨fault, position⟩ := e
  cases fault <;> simp [message]

/-- The words for faults are empty only if there are none. -/
theorem messages_ne_empty {errors : List SyntaxError} (h : errors ≠ []) : messages errors ≠ "" := by
  intro hempty
  unfold messages at hempty
  match errors with
  | [e] => exact e.message_ne_empty hempty
  | e :: d :: rest =>
      rw [List.map_cons, List.map_cons, String.intercalate_cons_cons, String.append_assoc] at hempty
      exact e.message_ne_empty (String.append_eq_empty_iff.1 hempty).1

end SyntaxError

theorem ne_nil_of_tokenize {text : String} {errors : List SyntaxError}
    (h : tokenize text = .error errors) : errors ≠ [] := by
  unfold tokenize at h
  simp only at h
  split at h
  · exact nomatch h
  · next hfound =>
    cases h
    exact hfound

/-- A text that is no formula has a fault. -/
theorem ne_nil_of_parse {text : String} {errors : List SyntaxError}
    (h : parse text = .error errors) : errors ≠ [] := by
  unfold parse at h
  cases htokens : tokenize text with
  | error found =>
      rw [htokens] at h
      cases h
      exact ne_nil_of_tokenize htokens
  | ok ts =>
      -- the grammar stops at its first fault
      rw [htokens] at h
      change (Expr.ofTokens text.utf8ByteSize ts).mapError ([·]) = .error errors at h
      cases hread : Expr.ofTokens text.utf8ByteSize ts with
      | ok e =>
          rw [hread] at h
          exact nomatch h
      | error e =>
          rw [hread] at h
          cases h
          exact List.cons_ne_nil e []

/-! ## States that are reached -/

section EndsIn

variable {m : Type → Type} [Monad m] {α β : Type}

/-- Whatever else an action of the host does, it ends in one state. -/
def EndsIn (x : m α) (a : α) : Prop := x = (fun _ => a) <$> x

variable [LawfulMonad m]

theorem EndsIn.pure (a : α) : EndsIn (pure a : m α) a := by
  simp [EndsIn]

theorem EndsIn.map_const (x : m α) (b : β) : EndsIn ((fun _ => b) <$> x) b := by
  simp [EndsIn]

/-- One action after another. -/
theorem EndsIn.bind {x : m α} {a : α} {f : α → m β} {b : β} (hx : EndsIn x a)
    (hf : EndsIn (f a) b) : EndsIn (x >>= f) b := by
  have hnext : x >>= f = x >>= fun _ => f a := by
    rw [show x >>= f = ((fun _ => a) <$> x) >>= f from congrArg (· >>= f) hx, bind_map_left]
  unfold EndsIn
  rw [hnext, map_bind, ← show f a = (fun _ => b) <$> f a from hf]

end EndsIn

namespace Formula

/-! ## Events -/

/-- What can be done with a formula, and by others with its cache; questions that change nothing are
no events.  An evaluation parses before it calls a hook, so what hooks do with the cache are events
that follow it. -/
inductive Event (m : Type → Type) where
  | hasErrors
  | parsed
  | referencedParameters
  | evaluate (use : HookUse) (overrides : Overrides m)
  | setOptions (options : Options)
  | mapParameters (change : Parameters → Parameters)
  | setHooks (hooks : Hooks m)
  | compile (text : String) (bypass : Bool)
  | prune
  | clear
  | setEnabled (enabled : Bool)

variable {m : Type → Type} [Monad m]

/-- The formula and the cache after an event, at which some trees are held. -/
def Event.after (held : Nat → Bool) :
    Event m → Formula m × FormulaCache → m (Formula m × FormulaCache)
  | .hasErrors, (f, c) => pure (f.hasErrors c held).2
  | .parsed, (f, c) => pure (f.parsed? c held).2
  | .referencedParameters, (f, c) => pure (f.referencedParameters c held).2
  | .evaluate use overrides, (f, c) => Prod.snd <$> f.evaluate c held use overrides
  | .setOptions options, (f, c) => pure (f.setOptions options, c)
  | .mapParameters change, (f, c) => pure (f.mapParameters change, c)
  | .setHooks hooks, (f, c) => pure (f.setHooks hooks, c)
  | .compile text bypass, (f, c) => pure (f, (c.compile held text bypass).2)
  | .prune, (f, c) => pure (f, (c.prune held).2)
  | .clear, (f, c) => pure (f, c.clear)
  | .setEnabled enabled, (f, c) => pure (f, c.setEnabled enabled)

/-- The formula and the cache after events; which trees are held may differ between any two. -/
def Event.afterAll (events : List ((Nat → Bool) × Event m)) (s : Formula m × FormulaCache) :
    m (Formula m × FormulaCache) :=
  events.foldlM (fun s e => e.2.after e.1 s) s

/-! ## The invariant -/

/-- A formula as it is made, and the outcome that its text has, or its tree is. -/
inductive Made : Formula m → Except (List SyntaxError) Expr → Prop where
  | ofText {text : String} {options : Options} {f : Formula m}
      (h : ofText text options = .ok f) : Made f (parse text)
  | ofTree (t : SharedTree) (options : Options) : Made (ofTree t options) (.ok t.tree)

end Formula

/-- A tree or faults are known, not both. -/
inductive Origin.Knows : Origin → Except (List SyntaxError) SharedTree → Prop where
  | tree (source? : Option String) (t : SharedTree) : Knows { source?, tree? := some t } (.ok t)
  | faults (source? : Option String) (errors : List SyntaxError) :
      Knows { source?, errors? := some errors } (.error errors)

theorem Origin.Knows.not_both {o : Origin} {outcome : Except (List SyntaxError) SharedTree}
    (h : o.Knows outcome) : o.tree? = none ∨ o.errors? = none := by
  cases h with
  | tree source? t => exact .inr rfl
  | faults source? errors => exact .inl rfl

/-- The outcome is that of a text which is not parsed yet, or it is known. -/
inductive Origin.Traces : Origin → Except (List SyntaxError) Expr → Prop where
  | unparsed (text : String) : Traces { source? := some text } (parse text)
  | known {o : Origin} {outcome : Except (List SyntaxError) SharedTree} (h : o.Knows outcome) :
      Traces o (outcome.map (·.tree))

theorem Origin.Traces.not_both {o : Origin} {expected : Except (List SyntaxError) Expr}
    (h : o.Traces expected) : o.tree? = none ∨ o.errors? = none := by
  cases h with
  | unparsed text => exact .inl rfl
  | known h => exact h.not_both

namespace Formula

variable {m : Type → Type}

/-- **The invariant of a formula and its cache.** -/
structure Lives (expected : Except (List SyntaxError) Expr) (s : Formula m × FormulaCache) :
    Prop where
  origin : s.1.origin.Traces expected
  cache : s.2.Orderly

/-- An outcome with faults is that of a text. -/
theorem Made.errors_ne_nil {f : Formula m} {errors : List SyntaxError}
    (h : f.Made (.error errors)) : errors ≠ [] := by
  generalize hexpected : (Except.error errors : Except (List SyntaxError) Expr) = expected at h
  cases h with
  | ofText h => exact ne_nil_of_parse hexpected.symm
  | ofTree t options => exact nomatch hexpected

theorem Made.lives {f : Formula m} {expected : Except (List SyntaxError) Expr}
    (h : f.Made expected) {c : FormulaCache} (hcache : c.Orderly) : Lives expected (f, c) := by
  refine ⟨?_, hcache⟩
  cases h with
  | ofText h =>
      unfold Formula.ofText at h
      split at h
      · exact nomatch h
      · cases h
        exact .unparsed _
  | ofTree t options => exact .known (.tree none t)

/-- A formula that knows its outcome is left as it is. -/
theorem hasErrors_of_knows {f : Formula m} {outcome : Except (List SyntaxError) SharedTree}
    (h : f.origin.Knows outcome) (c : FormulaCache) (held : Nat → Bool) :
    f.hasErrors c held = (!outcome.isOk, f, c) := by
  obtain ⟨origin, pass⟩ := f
  cases h <;> rfl

/-- **The first parse finds the outcome that was expected**, whatever the cache holds. -/
theorem Lives.knows_hasErrors {expected : Except (List SyntaxError) Expr} {f : Formula m}
    {c : FormulaCache} (h : Lives expected (f, c)) (held : Nat → Bool) :
    ∃ outcome, outcome.map (·.tree) = expected ∧
      (f.hasErrors c held).2.1.origin.Knows outcome ∧ (f.hasErrors c held).2.2.Orderly := by
  obtain ⟨origin, pass⟩ := f
  obtain ⟨horigin, hcache⟩ := h
  cases horigin with
  | known hknows =>
      rw [hasErrors_of_knows hknows]
      exact ⟨_, rfl, hknows, hcache⟩
  | unparsed text =>
      have hparse := hcache.map_tree_compile held text pass.options.bypassCache
      have horder := hcache.compile held text pass.options.bypassCache
      rcases hasErrors_cases ⟨{ source? := some text }, pass⟩ c held with
        ⟨t, ht, -⟩ | ⟨errors, -, he, -⟩ | ⟨ho, -⟩ | ⟨key, t, d, ho, hcompile, heq⟩ |
        ⟨key, errors, d, ho, hcompile, heq⟩
      · exact nomatch ht
      · exact nomatch he
      · exact nomatch ho
      · cases ho
        rw [hcompile] at hparse horder
        rw [heq]
        exact ⟨.ok t, hparse, .tree (some text) t, horder⟩
      · cases ho
        rw [hcompile] at hparse horder
        rw [heq]
        exact ⟨.error errors, hparse, .faults (some text) errors, horder⟩

/-- A question for faults keeps the invariant, and what is known. -/
theorem Lives.hasErrors {expected : Except (List SyntaxError) Expr} {f : Formula m}
    {c : FormulaCache} (h : Lives expected (f, c)) (held : Nat → Bool) :
    Lives expected (f.hasErrors c held).2 := by
  obtain ⟨outcome, rfl, hknows, hcache⟩ := h.knows_hasErrors held
  exact ⟨.known hknows, hcache⟩

variable [Monad m]

/-- **One event.**  It ends in one state, with the invariant; and what is known stays as it is. -/
theorem Event.endsIn_after [LawfulMonad m] {expected : Except (List SyntaxError) Expr}
    {s : Formula m × FormulaCache} (h : Lives expected s) (e : Event m) (held : Nat → Bool) :
    ∃ s', EndsIn (e.after held s) s' ∧ Lives expected s' ∧
      ∀ outcome, s.1.origin.Knows outcome → s'.1.origin = s.1.origin := by
  obtain ⟨f, c⟩ := s
  have hask : Lives expected (f.hasErrors c held).2 ∧
      ∀ outcome, f.origin.Knows outcome → (f.hasErrors c held).2.1.origin = f.origin :=
    ⟨h.hasErrors held, fun outcome hknows => by rw [hasErrors_of_knows hknows]⟩
  cases e with
  | hasErrors => exact ⟨_, .pure _, hask⟩
  | parsed => exact ⟨_, .pure _, hask⟩
  | referencedParameters =>
      have hstate : (f.referencedParameters c held).2 = (f.hasErrors c held).2 :=
        f.resolveTree_snd c held
      exact ⟨_, .pure _, hstate ▸ hask⟩
  | evaluate use overrides =>
      refine ⟨(f.hasErrors c held).2, ?_, hask⟩
      change EndsIn (Prod.snd <$> f.run c held (f.hooksFor use overrides)) _
      rw [run_eq_map, Functor.map_map]
      exact .map_const _ _
  | setOptions options => exact ⟨_, .pure _, ⟨h.origin, h.cache⟩, fun _ _ => rfl⟩
  | mapParameters change => exact ⟨_, .pure _, ⟨h.origin, h.cache⟩, fun _ _ => rfl⟩
  | setHooks hooks => exact ⟨_, .pure _, ⟨h.origin, h.cache⟩, fun _ _ => rfl⟩
  | compile text bypass =>
      exact ⟨_, .pure _, ⟨h.origin, h.cache.compile held text bypass⟩, fun _ _ => rfl⟩
  | prune => exact ⟨_, .pure _, ⟨h.origin, h.cache.prune held⟩, fun _ _ => rfl⟩
  | clear => exact ⟨_, .pure _, ⟨h.origin, .clear c⟩, fun _ _ => rfl⟩
  | setEnabled enabled =>
      exact ⟨_, .pure _, ⟨h.origin, h.cache.setEnabled enabled⟩, fun _ _ => rfl⟩

/-- **A run of events.** -/
theorem Event.endsIn_afterAll [LawfulMonad m] {expected : Except (List SyntaxError) Expr}
    {s : Formula m × FormulaCache} (h : Lives expected s)
    (events : List ((Nat → Bool) × Event m)) :
    ∃ s', EndsIn (Event.afterAll events s) s' ∧ Lives expected s' ∧
      ∀ outcome, s.1.origin.Knows outcome → s'.1.origin = s.1.origin := by
  induction events generalizing s with
  | nil => exact ⟨s, .pure s, h, fun _ _ => rfl⟩
  | cons e rest ih =>
      obtain ⟨held, e⟩ := e
      obtain ⟨s₁, hstep, hlives, hkept⟩ := Event.endsIn_after h e held
      obtain ⟨s₂, hrest, hlives, hkept'⟩ := ih hlives
      refine ⟨s₂, ?_, hlives, fun outcome hknows => ?_⟩
      · unfold Event.afterAll
        rw [List.foldlM_cons]
        exact hstep.bind hrest
      · have horigin := hkept outcome hknows
        rw [← horigin] at hknows ⊢
        exact hkept' outcome hknows

/-! ## Answers -/

/-- The value of a formula alone. -/
theorem fst_evaluate [LawfulMonad m] (f : Formula m) (c : FormulaCache) (held : Nat → Bool)
    (use : HookUse) (overrides : Overrides m) :
    Prod.fst <$> f.evaluate c held use overrides =
      valueOf (f.resolveTree c held).1 { f.pass with hooks := f.hooksFor use overrides } := by
  unfold evaluate
  rw [run_eq_map, Functor.map_map]
  exact id_map' _

/-- The words for the faults of an outcome. -/
def wordsFor (outcome : Except (List SyntaxError) SharedTree) : Option String :=
  match outcome with
  | .ok _ => none
  | .error errors => some (SyntaxError.messages errors)

/-- All answers of a formula, by the outcome of its parse. -/
structure Answers (f : Formula m) (c : FormulaCache) (held : Nat → Bool)
    (outcome : Except (List SyntaxError) SharedTree) : Prop where
  hasErrors : (f.hasErrors c held).1 = !outcome.isOk
  error? : (f.hasErrors c held).2.1.error? = wordsFor outcome
  parsed? : (f.parsed? c held).1 = outcome.toOption
  /-- there is a tree, or the faults are why there is none -/
  resolveTree : (f.resolveTree c held).1 = outcome.mapError .unparsed
  referencedParameters : (f.referencedParameters c held).1 =
    (outcome.map (·.tree.parameterNames)).mapError .unparsed
  /-- without a tree, the faults are all that comes of an evaluation -/
  refuses (use : HookUse) (overrides : Overrides m) (errors : List SyntaxError) :
    outcome = .error errors →
      Prod.fst <$> f.evaluate c held use overrides = pure (.error (.unparsed errors))
  /-- with a tree, an evaluation is that of a formula made of it, or of an equal one -/
  evaluates (use : HookUse) (overrides : Overrides m) (t u : SharedTree) (later : FormulaCache)
    (live : Nat → Bool) : outcome = .ok t → u.tree = t.tree →
      Prod.fst <$> f.evaluate c held use overrides =
        Prod.fst <$> ({ (ofTree u f.pass.options : Formula m) with pass := f.pass }).evaluate
          later live use overrides

/-- **A formula answers by the outcome of its parse**, with any cache. -/
theorem answers_of_knows_hasErrors [LawfulMonad m] {f : Formula m} {c : FormulaCache}
    {held : Nat → Bool} {outcome : Except (List SyntaxError) SharedTree}
    (h : (f.hasErrors c held).2.1.origin.Knows outcome) : f.Answers c held outcome := by
  have hfaulty : (f.hasErrors c held).1 = !outcome.isOk := by
    have hagain := hasErrors_of_knows h c held
    rw [hasErrors_hasErrors] at hagain
    exact congrArg Prod.fst hagain
  have htree : (f.resolveTree c held).1 = outcome.mapError .unparsed := by
    unfold resolveTree
    generalize f.hasErrors c held = r at h hfaulty ⊢
    obtain ⟨faulty, ⟨origin, pass⟩, d⟩ := r
    subst hfaulty
    cases h <;> rfl
  refine {
    hasErrors := hfaulty
    resolveTree := htree
    error? := ?_
    parsed? := ?_
    referencedParameters := ?_
    refuses := ?_
    evaluates := ?_ }
  · generalize f.hasErrors c held = r at h
    obtain ⟨faulty, ⟨origin, pass⟩, d⟩ := r
    cases h <;> rfl
  · unfold parsed?
    generalize f.hasErrors c held = r at h hfaulty ⊢
    obtain ⟨faulty, ⟨origin, pass⟩, d⟩ := r
    subst hfaulty
    cases h <;> rfl
  · change (f.resolveTree c held).1.map (·.tree.parameterNames) = _
    rw [htree]
    cases outcome <;> rfl
  · rintro use overrides errors rfl
    rw [fst_evaluate, htree]
    rfl
  · rintro use overrides t u later live rfl heq
    rw [fst_evaluate, fst_evaluate, htree]
    change (t.tree.evaluate _).run = (u.tree.evaluate _).run
    rw [heq]
    rfl

/-- **A formula answers by its text alone, and always the same.**  Whatever was done with the cache
before, whatever is done with the formula and the cache since, and whichever trees are held: it
never has both a tree and faults, and its answers are those of the outcome that the parser has for
its text, or of the tree that it was made of.  From the first question on, whatever is done then, it
keeps the words for its faults, or the very tree that it has found. -/
theorem answers_afterAll [LawfulMonad m] {f : Formula m}
    {expected : Except (List SyntaxError) Expr} (hmade : f.Made expected)
    (before : List Shelf.Step) (events : List ((Nat → Bool) × Event m)) :
    (∀ errors, expected = .error errors →
      (EvalError.unparsed errors).message = "\n".intercalate (errors.map SyntaxError.message) ∧
        (EvalError.unparsed errors).message ≠ "") ∧
    ∃ g c, EndsIn (Event.afterAll events (f, (Shelf.afterAll {} before).cache)) (g, c) ∧
      (g.origin.tree? = none ∨ g.origin.errors? = none) ∧
      ∀ held, ∃ outcome, outcome.map (·.tree) = expected ∧ g.Answers c held outcome ∧
        ∀ more, ∃ h d, EndsIn (Event.afterAll more (g.hasErrors c held).2) (h, d) ∧
          h.error? = (g.hasErrors c held).2.1.error? ∧ ∀ live, h.Answers d live outcome := by
  constructor
  · rintro errors rfl
    refine ⟨rfl, SyntaxError.messages_ne_empty ?_⟩
    exact hmade.errors_ne_nil
  · have hcache : (Shelf.afterAll {} before).cache.Orderly := Shelf.orderly_afterAll .new before
    obtain ⟨⟨g, c⟩, hrun, hlives, -⟩ := Event.endsIn_afterAll (hmade.lives hcache) events
    refine ⟨g, c, hrun, hlives.origin.not_both, fun held => ?_⟩
    obtain ⟨outcome, houtcome, hknows, -⟩ := hlives.knows_hasErrors held
    refine ⟨outcome, houtcome, answers_of_knows_hasErrors hknows, fun more => ?_⟩
    obtain ⟨⟨h, d⟩, hmore, -, hkept⟩ := Event.endsIn_afterAll (hlives.hasErrors held) more
    have horigin : h.origin = (g.hasErrors c held).2.1.origin := hkept outcome hknows
    refine ⟨h, d, hmore, ?_, fun live => answers_of_knows_hasErrors ?_⟩
    · unfold error?
      rw [horigin]
    · rw [← horigin] at hknows
      rw [hasErrors_of_knows hknows]
      exact hknows

/-- The text of a parameter, in a cache that has had it before and is switched off meanwhile: the
formula has the tree of the parameter, and keeps it. -/
theorem answers_afterAll_parameter :
    ∃ f : Formula Id, ofText "a" {} = .ok f ∧
      ∃ g c, Event.afterAll [(fun _ => true, .setEnabled false), (fun _ => false, .prune)]
          (f, (Shelf.afterAll {} [.compile "a" false (some "kept")]).cache) = (g, c) ∧
        ∀ held, ∃ t, t.tree = .parameter "a" ∧ (g.parsed? c held).1 = some t ∧
          ∀ more, ∃ h d, Event.afterAll more (g.hasErrors c held).2 = (h, d) ∧
            ∀ live, (h.parsed? d live).1 = some t := by
  have hread : parse "a" = .ok (.parameter "a") :=
    parse_eq_ok_iff.2 ⟨_, by decide +kernel, _, by decide, Expr.derives_written _⟩
  have hmade : Made (ofOrigin { source? := some "a" } {} : Formula Id) (.ok (.parameter "a")) :=
    hread ▸ .ofText rfl
  refine ⟨_, rfl, ?_⟩
  obtain ⟨-, g, c, hrun, -, hanswers⟩ := answers_afterAll hmade
    [.compile "a" false (some "kept")]
    [(fun _ => true, .setEnabled false), (fun _ => false, .prune)]
  refine ⟨g, c, hrun, fun held => ?_⟩
  obtain ⟨outcome, houtcome, hfound, hkept⟩ := hanswers held
  cases outcome with
  | error errors => exact nomatch houtcome
  | ok t =>
      refine ⟨t, Except.ok.inj houtcome, hfound.parsed?, fun more => ?_⟩
      obtain ⟨h, d, hmore, -, hsame⟩ := hkept more
      exact ⟨h, d, hmore, fun live => (hsame live).parsed?⟩

end Formula

end FormulaEngine
