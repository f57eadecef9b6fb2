import FormulaEngine.Proofs.CacheContents
import FormulaEngine.Proofs.Rendering
import Mathlib.Data.List.Induction

/-!
# How long a cache shares a tree

The cache answers a look-up with the tree that it stored last for the text, exactly as long as that
tree is held somewhere and the cache has not been emptied since.

* `Shelf.Stores` -- a step stores a tree for a text;
* `Shelf.StoredLast` -- it was the last one of a run to do so, and the cache was not emptied since;
* `Shelf.holds_of_holds_after` -- a tree that nobody holds is never held again;
* `Shelf.storedLast_of_stored?`, `Shelf.StoredLast.stored?` -- what the cache holds for a text;
* `Shelf.get?_afterAll_iff` -- what it answers, and what a compilation does.
-/

namespace FormulaEngine

namespace Shelf

/-- A step compiles a text with the cache, which had no answer; the text has no faults, and its
tree is stored. -/
def Stores (s : Shelf) (step : Step) (text : String) (t : SharedTree) : Prop :=
  (∃ name?, step = .compile text false name?) ∧ s.cache.enabled = true ∧
    (s.compile text false).1 = .ok t ∧
    (s.compile text false).2.cache.misses = s.cache.misses + 1

/-- A step removes all entries. -/
def Step.Empties (step : Step) : Prop := step = .clear ∨ step = .setEnabled false

/-- A tree was stored for a text in a run, and since then no other was stored for it, and the cache
was not emptied. -/
def StoredLast (steps : List Step) (text : String) (t : SharedTree) : Prop :=
  ∃ front step rest, steps = front ++ step :: rest ∧ (afterAll {} front).Stores step text t ∧
    ∀ mid next tail, rest = mid ++ next :: tail →
      ¬ next.Empties ∧ ∀ u, ¬ (afterAll {} (front ++ step :: mid)).Stores next text u

/-! ## Steps -/

/-- One run after another. -/
theorem afterAll_append (s : Shelf) (steps more : List Step) :
    s.afterAll (steps ++ more) = (s.afterAll steps).afterAll more :=
  List.foldl_append

/-- A run and then one more step. -/
theorem afterAll_concat (s : Shelf) (steps : List Step) (step : Step) :
    s.afterAll (steps ++ [step]) = (s.afterAll steps).after step :=
  s.afterAll_append steps [step]

theorem compile_eq (s : Shelf) (text : String) (bypass : Bool) :
    s.compile text bypass =
      ((s.cache.compile s.holds text bypass).1,
        { s with cache := (s.cache.compile s.holds text bypass).2 }) :=
  rfl

theorem after_compile (s : Shelf) (text : String) (bypass : Bool) (name? : Option String) :
    s.after (.compile text bypass name?) =
      (s.compile text bypass).2.keep name? (s.compile text bypass).1.toOption :=
  rfl

/-- A tree that is held after it was kept was held before, or it is the one that was kept. -/
theorem holds_or_eq_of_holds_keep {s : Shelf} {name? : Option String} {t? : Option SharedTree}
    {id : Nat} (h : (s.keep name? t?).holds id = true) :
    s.holds id = true ∨ ∃ t, t? = some t ∧ t.id = id := by
  unfold keep at h
  split at h
  · next name t =>
    rcases List.any_eq_true.1 h with ⟨held, hmem, hid⟩
    rcases List.mem_cons.1 hmem with rfl | hmem
    · exact .inr ⟨t, rfl, eq_of_beq hid⟩
    · exact .inl (List.any_eq_true.2 ⟨held, (List.mem_filter.1 hmem).1, hid⟩)
  · exact .inl h

/-- A tree that is held after a step was held before, or the step has answered with it. -/
theorem holds_or_answer_of_holds_after {s : Shelf} {step : Step} {id : Nat}
    (h : (s.after step).holds id = true) :
    s.holds id = true ∨ ∃ t, s.answer? step = some t ∧ t.id = id := by
  cases step with
  | compile text bypass name? =>
      exact holds_or_eq_of_holds_keep (s := (s.compile text bypass).2) h
  | get text name? => exact holds_or_eq_of_holds_keep h
  | share name other => exact holds_or_eq_of_holds_keep h
  | drop name =>
      obtain ⟨held, hmem, hid⟩ := List.any_eq_true.1 h
      exact .inl (List.any_eq_true.2 ⟨held, (List.mem_filter.1 hmem).1, hid⟩)
  | prune => exact .inl h
  | clear => exact .inl h
  | setEnabled enabled => exact .inl h

/-- A step answers with a tree that is held, or with a new one. -/
theorem held_or_fresh_of_answer {s : Shelf} {step : Step} {t : SharedTree}
    (h : s.answer? step = some t) :
    s.holds t.id = true ∨
      t.id = s.cache.fresh ∧ (s.after step).cache.fresh = s.cache.fresh + 1 := by
  cases step with
  | compile text bypass name? =>
      have hok : (s.cache.compile s.holds text bypass).1 = .ok t := by
        change (s.cache.compile s.holds text bypass).1.toOption = some t at h
        cases hout : (s.cache.compile s.holds text bypass).1 with
        | error errors =>
            rw [hout] at h
            exact nomatch h
        | ok u =>
            rw [hout] at h
            cases h
            rfl
      rw [cache_after_compile]
      exact FormulaCache.held_or_fresh_of_compile hok
  | get text name? => exact .inl (Option.filter_eq_some_iff.1 h).2
  | share name other =>
      have hmem : (name, t) ∈ s.trees := FormulaCache.mem_of_lookup h
      exact .inl (List.any_eq_true.2 ⟨(name, t), hmem, beq_self_eq_true t.id⟩)
  | _ => exact nomatch h

/-- Numbers are given out in order. -/
theorem fresh_le_after (s : Shelf) (step : Step) :
    s.cache.fresh ≤ (s.after step).cache.fresh := by
  cases step with
  | compile text bypass name? =>
      rw [cache_after_compile]
      exact s.cache.fresh_le_compile s.holds text bypass
  | get text name? => rw [cache_after_get]
  | share name other => rw [cache_after_share]
  | _ => exact Nat.le_refl _

/-- A run gives out numbers in order. -/
theorem fresh_le_afterAll (s : Shelf) (steps : List Step) :
    s.cache.fresh ≤ (s.afterAll steps).cache.fresh := by
  induction steps generalizing s with
  | nil => exact Nat.le_refl _
  | cons step rest ih => exact Nat.le_trans (s.fresh_le_after step) (ih (s.after step))

/-! ## The invariant -/

/-- **The invariant of a shelf.**  The next tree gets a number that no tree on the shelf has. -/
structure Orderly (s : Shelf) : Prop where
  cache : s.cache.Orderly
  numbered : ∀ id, s.holds id = true → id < s.cache.fresh

/-- The number of an answer is given out. -/
theorem Orderly.lt_fresh_of_answer {s : Shelf} (h : s.Orderly) {step : Step} {t : SharedTree}
    (hanswer : s.answer? step = some t) : t.id < (s.after step).cache.fresh := by
  rcases held_or_fresh_of_answer hanswer with hheld | ⟨hid, hfresh⟩
  · exact Nat.lt_of_lt_of_le (h.numbered t.id hheld) (s.fresh_le_after step)
  · omega

/-- A step keeps the invariant. -/
theorem Orderly.after {s : Shelf} (h : s.Orderly) (step : Step) : (s.after step).Orderly where
  cache := orderly_after h.cache step
  numbered id hholds := by
    rcases holds_or_answer_of_holds_after hholds with hheld | ⟨t, hanswer, rfl⟩
    · exact Nat.lt_of_lt_of_le (h.numbered id hheld) (s.fresh_le_after step)
    · exact h.lt_fresh_of_answer hanswer

/-- A run keeps the invariant. -/
theorem Orderly.afterAll {s : Shelf} (h : s.Orderly) (steps : List Step) :
    (s.afterAll steps).Orderly := by
  induction steps generalizing s with
  | nil => exact h
  | cons step rest ih => exact ih (h.after step)

/-- An empty shelf is in order. -/
theorem Orderly.new : Orderly {} where
  cache := .new
  numbered _ h := nomatch h

/-- **A tree that nobody holds is never held again.** -/
theorem holds_of_holds_after {s : Shelf} {step : Step} {id : Nat}
    (hid : id < s.cache.fresh) (h : (s.after step).holds id = true) : s.holds id = true := by
  rcases holds_or_answer_of_holds_after h with hheld | ⟨t, hanswer, rfl⟩
  · exact hheld
  · rcases held_or_fresh_of_answer hanswer with hheld | ⟨hfresh, -⟩
    · exact hheld
    · omega

/-- A tree that is held after a run was held all the time since it got its number. -/
theorem holds_of_holds_afterAll {s : Shelf} {steps : List Step} {id : Nat}
    (hid : id < s.cache.fresh) (h : (s.afterAll steps).holds id = true) : s.holds id = true := by
  induction steps generalizing s with
  | nil => exact h
  | cons step rest ih =>
      exact holds_of_holds_after hid (ih (Nat.lt_of_lt_of_le hid (s.fresh_le_after step)) h)

/-! ## What one step does to the entry of a text -/

/-- A step that stores a tree stores a new one, in a cache that is switched on. -/
theorem Stores.compile_eq {s : Shelf} {step : Step} {text : String} {t : SharedTree}
    (h : s.Stores step text t) :
    ∃ tree, parse text = .ok tree ∧ t = ⟨s.cache.fresh, tree⟩ ∧
      s.cache.compile s.holds text false =
        (.ok ⟨s.cache.fresh, tree⟩, s.cache.stored s.holds text tree) := by
  obtain ⟨-, henabled, hok, hmiss⟩ := h
  change (s.cache.compile s.holds text false).1 = .ok t at hok
  change (s.cache.compile s.holds text false).2.misses = s.cache.misses + 1 at hmiss
  rcases s.cache.compile_cases s.holds text false with
    ⟨hoff, -⟩ | ⟨-, ⟨u, -, heq⟩ | ⟨-, ⟨errors, -, heq⟩ | ⟨tree, hparse, heq⟩⟩⟩
  · simp [henabled] at hoff
  · rw [heq] at hmiss
    exact absurd hmiss (Nat.ne_of_lt (Nat.lt_succ_self _))
  · rw [heq] at hok
    exact nomatch hok
  · rw [heq] at hok
    cases hok
    exact ⟨tree, hparse, rfl, heq⟩

/-- A compilation that stores a tree is a step that stores it. -/
theorem stores_of_compile_eq {s : Shelf} {text : String} {tree : Expr} {name? : Option String}
    (henabled : s.cache.enabled = true)
    (h : s.cache.compile s.holds text false =
      (.ok ⟨s.cache.fresh, tree⟩, s.cache.stored s.holds text tree)) :
    s.Stores (.compile text false name?) text ⟨s.cache.fresh, tree⟩ := by
  refine ⟨⟨name?, rfl⟩, henabled, ?_, ?_⟩
  · change (s.cache.compile s.holds text false).1 = _
    rw [h]
  · change (s.cache.compile s.holds text false).2.misses = _
    rw [h]
    rfl

/-- The tree that is stored for a text, whether it is held or not. -/
def stored? (s : Shelf) (text : String) : Option SharedTree := s.cache.entries.lookup text

/-- A tree that a step stores is there after it. -/
theorem stored?_after_of_stores {s : Shelf} (h : s.Orderly) {step : Step} {text : String}
    {t : SharedTree} (hstores : s.Stores step text t) : (s.after step).stored? text = some t := by
  obtain ⟨tree, -, rfl, heq⟩ := hstores.compile_eq
  obtain ⟨⟨name?, rfl⟩, -⟩ := hstores
  unfold stored?
  rw [cache_after_compile, heq, FormulaCache.lookup_stored h.cache.keys]
  exact ⟨if_pos rfl, .inl rfl⟩

/-- A step that neither removes all entries nor stores a tree for a text gives it no other tree, and
leaves it the one it has if that is held. -/
theorem stored?_after {s : Shelf} (h : s.Orderly) {step : Step} {key : String}
    (hempties : ¬ step.Empties) (hstores : ∀ u, ¬ s.Stores step key u) :
    (∀ u, (s.after step).stored? key = some u → s.stored? key = some u) ∧
      ∀ u, s.stored? key = some u → s.holds u.id = true → (s.after step).stored? key = some u := by
  have hsame : (s.after step).cache.entries = s.cache.entries →
      (∀ u, (s.after step).stored? key = some u → s.stored? key = some u) ∧
        ∀ u, s.stored? key = some u → s.holds u.id = true →
          (s.after step).stored? key = some u := by
    intro hentries
    unfold stored?
    rw [hentries]
    exact ⟨fun u hu => hu, fun u hu _ => hu⟩
  cases step with
  | compile text bypass name? =>
      rcases s.cache.entries_compile s.holds text bypass with
        hentries | ⟨⟨rfl, henabled⟩, tree, -, heq⟩
      · exact hsame (by rw [cache_after_compile, hentries])
      · have hne : key ≠ text := by
          rintro rfl
          exact hstores _ (stores_of_compile_eq henabled heq)
        have hlookup : ∀ u, (s.after (.compile text false name?)).stored? key = some u ↔
            s.stored? key = some u ∧ (u.id = s.cache.fresh ∨ s.holds u.id = true) := by
          intro u
          unfold stored?
          rw [cache_after_compile, heq, FormulaCache.lookup_stored h.cache.keys, if_neg hne]
        exact ⟨fun u hu => ((hlookup u).1 hu).1, fun u hu hheld => (hlookup u).2 ⟨hu, .inr hheld⟩⟩
  | get text name? => exact hsame (by rw [cache_after_get])
  | share name other => exact hsame (by rw [cache_after_share])
  | drop name => exact hsame rfl
  | prune =>
      constructor
      · intro u hu
        exact ((FormulaCache.lookup_filter h.cache.keys s.holds).1 hu).1
      · intro u hu hheld
        exact (FormulaCache.lookup_filter h.cache.keys s.holds).2 ⟨hu, hheld⟩
  | clear => exact absurd (.inl rfl) hempties
  | setEnabled enabled =>
      cases enabled with
      | true => exact hsame rfl
      | false => exact absurd (.inr rfl) hempties

/-- A step that removes all entries leaves none. -/
theorem Step.Empties.stored?_after {s : Shelf} {step : Step} (h : step.Empties) (text : String) :
    (s.after step).stored? text = none := by
  rcases h with rfl | rfl <;> rfl

/-! ## Runs -/

/-- The tree stored last in a run with one more step: that of the last step, or the one before, if
the last step stores no other and does not remove it. -/
theorem storedLast_concat_iff {steps : List Step} {step : Step} {text : String}
    {t : SharedTree} :
    StoredLast (steps ++ [step]) text t ↔
      (afterAll {} steps).Stores step text t ∨
        StoredLast steps text t ∧ ¬ step.Empties ∧
          ∀ u, ¬ (afterAll {} steps).Stores step text u := by
  constructor
  · intro h
    obtain ⟨front, first, rest, hsteps, hstores, hsince⟩ := h
    rcases List.eq_nil_or_concat' rest with rfl | ⟨rest, last, rfl⟩
    · obtain ⟨rfl, hstep⟩ := List.append_inj' hsteps rfl
      cases hstep
      exact .inl hstores
    · rw [← List.cons_append, ← List.append_assoc] at hsteps
      obtain ⟨rfl, hstep⟩ := List.append_inj' hsteps rfl
      cases hstep
      refine .inr ⟨⟨front, first, rest, rfl, hstores, ?_⟩, hsince rest step [] rfl⟩
      intro mid next tail hrest
      exact hsince mid next (tail ++ [step]) (by rw [hrest, List.append_assoc]; rfl)
  · intro h
    rcases h with hstores | ⟨⟨front, first, rest, rfl, hstores, hsince⟩, hlast⟩
    · refine ⟨steps, step, [], rfl, hstores, ?_⟩
      intro mid next tail hnil
      exact absurd hnil.symm (by simp)
    · refine ⟨front, first, rest ++ [step], by simp, hstores, ?_⟩
      intro mid next tail hrest
      rcases List.eq_nil_or_concat' tail with rfl | ⟨tail, last, rfl⟩
      · obtain ⟨rfl, hstep⟩ := List.append_inj' hrest rfl
        cases hstep
        exact hlast
      · rw [← List.cons_append, ← List.append_assoc] at hrest
        exact hsince mid next tail (List.append_inj' hrest rfl).1

/-- Nothing is stored in an empty run. -/
theorem not_storedLast_nil {text : String} {t : SharedTree} : ¬ StoredLast [] text t := by
  rintro ⟨front, step, rest, h, -⟩
  exact absurd h.symm (by simp)

/-- The number of the tree stored last is given out. -/
theorem StoredLast.lt_fresh {steps : List Step} {text : String} {t : SharedTree}
    (h : StoredLast steps text t) : t.id < (afterAll {} steps).cache.fresh := by
  induction steps using List.reverseRecOn with
  | nil => exact absurd h not_storedLast_nil
  | append_singleton steps step ih =>
      have horder : (afterAll {} steps).Orderly := Orderly.new.afterAll steps
      rw [afterAll_concat]
      rcases storedLast_concat_iff.1 h with hstores | ⟨hlast, -⟩
      · have hstored := stored?_after_of_stores horder hstores
        exact (horder.after step).cache.numbered text t (FormulaCache.mem_of_lookup hstored)
      · exact Nat.lt_of_lt_of_le (ih hlast) (fresh_le_after _ step)

/-- **What the cache holds for a text is the tree stored last.** -/
theorem storedLast_of_stored? {steps : List Step} {text : String} {t : SharedTree}
    (h : (afterAll {} steps).stored? text = some t) : StoredLast steps text t := by
  induction steps using List.reverseRecOn with
  | nil => exact nomatch h
  | append_singleton steps step ih =>
      have horder : (afterAll {} steps).Orderly := Orderly.new.afterAll steps
      rw [afterAll_concat] at h
      rw [storedLast_concat_iff]
      by_cases hempties : step.Empties
      · rw [hempties.stored?_after] at h
        exact nomatch h
      · by_cases hstores : ∃ u, (afterAll {} steps).Stores step text u
        · obtain ⟨u, hu⟩ := hstores
          rw [stored?_after_of_stores horder hu] at h
          cases h
          exact .inl hu
        · have hnone : ∀ u, ¬ (afterAll {} steps).Stores step text u := not_exists.1 hstores
          exact .inr ⟨ih ((stored?_after horder hempties hnone).1 t h), hempties, hnone⟩

/-- **The tree stored last is there while it is held.** -/
theorem StoredLast.stored? {steps : List Step} {text : String} {t : SharedTree}
    (h : StoredLast steps text t) (hheld : (afterAll {} steps).holds t.id = true) :
    (afterAll {} steps).stored? text = some t := by
  induction steps using List.reverseRecOn with
  | nil => exact absurd h not_storedLast_nil
  | append_singleton steps step ih =>
      have horder : (afterAll {} steps).Orderly := Orderly.new.afterAll steps
      rw [afterAll_concat] at hheld ⊢
      rcases storedLast_concat_iff.1 h with hstores | ⟨hlast, hempties, hnone⟩
      · exact stored?_after_of_stores horder hstores
      · -- it has been held all the time, so that no sweep has removed it
        have hbefore : (afterAll {} steps).holds t.id = true :=
          holds_of_holds_after hlast.lt_fresh hheld
        exact (stored?_after horder hempties hnone).2 t (ih hlast hbefore) hbefore

/-- Only one tree was stored last for a text. -/
theorem StoredLast.eq {steps : List Step} {text : String} {t u : SharedTree}
    (ht : StoredLast steps text t) (hu : StoredLast steps text u) : t = u := by
  induction steps using List.reverseRecOn with
  | nil => exact absurd ht not_storedLast_nil
  | append_singleton steps step ih =>
      rw [storedLast_concat_iff] at ht hu
      rcases ht with ht | ⟨ht, -, hnone⟩
      · rcases hu with hu | ⟨-, -, hnone⟩
        · exact Except.ok.inj (ht.2.2.1.symm.trans hu.2.2.1)
        · exact absurd ht (hnone t)
      · rcases hu with hu | ⟨hu, -, -⟩
        · exact absurd hu (hnone u)
        · exact ih ht hu

/-- A text that a tree is stored for has no faults. -/
theorem StoredLast.parse_eq {steps : List Step} {text : String} {t : SharedTree}
    (h : StoredLast steps text t) : parse text = .ok t.tree := by
  obtain ⟨front, step, rest, -, hstores, -⟩ := h
  obtain ⟨tree, hparse, rfl, -⟩ := hstores.compile_eq
  exact hparse

/-- A step keeps the cache switched on, unless it switches it off. -/
theorem enabled_after {s : Shelf} {step : Step} (hempties : ¬ step.Empties)
    (h : s.cache.enabled = true) : (s.after step).cache.enabled = true := by
  cases step with
  | compile text bypass name? =>
      rw [cache_after_compile, FormulaCache.enabled_compile]
      exact h
  | get text name? => rwa [cache_after_get]
  | share name other => rwa [cache_after_share]
  | drop name => exact h
  | prune => exact h
  | clear => exact absurd (.inl rfl) hempties
  | setEnabled enabled =>
      cases enabled with
      | true => rfl
      | false => exact absurd (.inr rfl) hempties

/-- While a tree is the one stored last, the cache is switched on. -/
theorem StoredLast.enabled {steps : List Step} {text : String} {t : SharedTree}
    (h : StoredLast steps text t) : (afterAll {} steps).cache.enabled = true := by
  induction steps using List.reverseRecOn with
  | nil => exact absurd h not_storedLast_nil
  | append_singleton steps step ih =>
      rw [afterAll_concat]
      rcases storedLast_concat_iff.1 h with hstores | ⟨hlast, hempties, -⟩
      · obtain ⟨⟨name?, rfl⟩, henabled, -⟩ := hstores
        exact enabled_after (fun h => by rcases h with h | h <;> exact nomatch h) henabled
      · exact enabled_after hempties (ih hlast)

/-- A tree that is looked up is the one stored, and it is held. -/
theorem get?_eq_some_iff {s : Shelf} {text : String} {t : SharedTree} :
    s.get? text = some t ↔ s.stored? text = some t ∧ s.holds t.id = true :=
  Option.filter_eq_some_iff

/-- **What a look-up answers with**: the tree stored last, as long as it is held. -/
theorem get?_afterAll (steps : List Step) (text : String) (t : SharedTree) :
    (afterAll {} steps).get? text = some t ↔
      StoredLast steps text t ∧ (afterAll {} steps).holds t.id = true := by
  rw [get?_eq_some_iff]
  constructor
  · rintro ⟨hstored, hheld⟩
    exact ⟨storedLast_of_stored? hstored, hheld⟩
  · rintro ⟨hlast, hheld⟩
    exact ⟨hlast.stored? hheld, hheld⟩

/-- A tree that is looked up is what a compilation answers with. -/
theorem compile_of_get? {s : Shelf} {text : String} {t : SharedTree}
    (henabled : s.cache.enabled = true) (h : s.get? text = some t) :
    s.compile text false = (.ok t, { s with cache := s.cache.hit }) := by
  unfold compile FormulaCache.compile
  rw [if_neg (by simp [henabled])]
  change s.cache.get? s.holds text = some t at h
  rw [h]
  rfl

/-- A text that a look-up answers for gets no other tree. -/
theorem not_stores_of_get? {s : Shelf} {step : Step} {text : String} {t : SharedTree}
    (hget : s.get? text = some t) (u : SharedTree) : ¬ s.Stores step text u := by
  rintro ⟨-, henabled, -, hmiss⟩
  rw [compile_of_get? henabled hget] at hmiss
  exact absurd hmiss (Nat.ne_of_lt (Nat.lt_succ_self _))

/-- **A tree that stays held stays the one stored last**, as long as the cache is not emptied: the
look-ups for its text are answered, so that no other tree is stored. -/
theorem StoredLast.append {steps more : List Step} {text : String} {t : SharedTree}
    (h : StoredLast steps text t) (hempties : ∀ step ∈ more, ¬ step.Empties)
    (hheld : (afterAll {} (steps ++ more)).holds t.id = true) :
    StoredLast (steps ++ more) text t := by
  induction more generalizing steps with
  | nil => rwa [List.append_nil]
  | cons step rest ih =>
      have hnow : (afterAll {} steps).holds t.id = true := by
        rw [afterAll_append] at hheld
        exact holds_of_holds_afterAll h.lt_fresh hheld
      have hnone : ∀ u, ¬ (afterAll {} steps).Stores step text u :=
        not_stores_of_get? ((get?_afterAll steps text t).2 ⟨h, hnow⟩)
      have hnext : StoredLast (steps ++ [step]) text t :=
        storedLast_concat_iff.2 (.inr ⟨h, hempties step List.mem_cons_self, hnone⟩)
      rw [List.append_cons] at hheld ⊢
      exact ih hnext (fun other hmem => hempties other (List.mem_cons_of_mem step hmem)) hheld

/-- Steps that do not compile a text with the cache leave the tree that was stored last for it, or
remove it. -/
theorem StoredLast.of_append {steps more : List Step} {text : String} {t : SharedTree}
    (hmore : ∀ step ∈ more, ∀ name?, step ≠ .compile text false name?)
    (h : StoredLast (steps ++ more) text t) : StoredLast steps text t := by
  induction more using List.reverseRecOn with
  | nil => rwa [List.append_nil] at h
  | append_singleton more step ih =>
      rw [← List.append_assoc, storedLast_concat_iff] at h
      rcases h with ⟨⟨name?, rfl⟩, -⟩ | ⟨hlast, -⟩
      · exact absurd rfl (hmore _ (by simp) name?)
      · exact ih (fun other hmem => hmore other (List.mem_append_left _ hmem)) hlast

/-- A step of a run has answered with a tree. -/
def Answered (steps : List Step) (t : SharedTree) : Prop :=
  ∃ front step rest, steps = front ++ step :: rest ∧ (afterAll {} front).answer? step = some t

/-- The number of an answer stays given out. -/
theorem Answered.lt_fresh {steps : List Step} {t : SharedTree} (h : Answered steps t) :
    t.id < (afterAll {} steps).cache.fresh := by
  obtain ⟨front, step, rest, rfl, hanswer⟩ := h
  have hid := (Orderly.new.afterAll front).lt_fresh_of_answer hanswer
  rw [List.append_cons, afterAll_append, afterAll_concat]
  exact Nat.lt_of_lt_of_le hid (fresh_le_afterAll _ rest)

/-- After a run, compiling a text with the cache is answered with a tree, and that is counted;
nothing else changes. -/
def SharesNext (steps : List Step) (text : String) (t : SharedTree) : Prop :=
  (afterAll {} steps).compile text false =
    (.ok t, { afterAll {} steps with cache := (afterAll {} steps).cache.hit })

/-- After a run, compiling a text with the cache makes a tree that the run has not answered with;
and if the cache is switched on, a look-up without answer is counted. -/
def RenewsNext (steps : List Step) (text : String) : Prop :=
  ∃ t, ((afterAll {} steps).compile text false).1 = .ok t ∧
    (∀ u, Answered steps u → u.id ≠ t.id) ∧
    ((afterAll {} steps).cache.enabled = true →
      ((afterAll {} steps).compile text false).2.cache.misses =
        (afterAll {} steps).cache.misses + 1 ∧
      ((afterAll {} steps).compile text false).2.cache.hits = (afterAll {} steps).cache.hits)

/-- Without an answer for a text that has no faults, a new tree is made. -/
theorem renewsNext_of_get? {steps : List Step} {text : String} {tree : Expr}
    (hparse : parse text = .ok tree) (hget : (afterAll {} steps).get? text = none) :
    RenewsNext steps text := by
  have hfresh : ∀ u, Answered steps u → u.id ≠ (afterAll {} steps).cache.fresh :=
    fun u hu => Nat.ne_of_lt hu.lt_fresh
  unfold RenewsNext
  generalize afterAll {} steps = s at hget hfresh ⊢
  refine ⟨⟨s.cache.fresh, tree⟩, ?_⟩
  rw [compile_eq]
  cases henabled : s.cache.enabled with
  | true =>
      rw [FormulaCache.compile_eq_stored henabled hget hparse]
      exact ⟨rfl, hfresh, fun _ => ⟨rfl, rfl⟩⟩
  | false =>
      rw [FormulaCache.compile_of_not_enabled s.holds text false henabled]
      unfold FormulaCache.parseShared
      rw [hparse]
      exact ⟨rfl, hfresh, nofun⟩

/-- **How long a tree is shared.**  After any run, a look-up answers with exactly the tree that was
stored last for the text, if it is held.  While it is held and the cache is not emptied, whatever
else is done, compiling its text is answered with that very tree.  When it is no longer held, the
next compilation of its text makes a new one. -/
theorem get?_afterAll_iff (steps : List Step) (text : String) (t : SharedTree) :
    ((afterAll {} steps).get? text = some t ↔
      StoredLast steps text t ∧ (afterAll {} steps).holds t.id = true) ∧
    (StoredLast steps text t → ∀ more,
      ((∀ step ∈ more, ¬ step.Empties) → (afterAll {} (steps ++ more)).holds t.id = true →
        SharesNext (steps ++ more) text t) ∧
      ((∀ step ∈ more, ∀ name?, step ≠ .compile text false name?) →
        (afterAll {} (steps ++ more)).holds t.id = false → RenewsNext (steps ++ more) text)) := by
  refine ⟨get?_afterAll steps text t, fun hlast more => ⟨fun hempties hheld => ?_, ?_⟩⟩
  · have hstill : StoredLast (steps ++ more) text t := hlast.append hempties hheld
    exact compile_of_get? hstill.enabled ((get?_afterAll _ text t).2 ⟨hstill, hheld⟩)
  · intro hmore hdropped
    refine renewsNext_of_get? hlast.parse_eq ?_
    -- an answer would be the tree stored last, which is not held
    cases hget : (afterAll {} (steps ++ more)).get? text with
    | none => rfl
    | some u =>
        obtain ⟨hstill, hheld⟩ := (get?_afterAll _ text u).1 hget
        cases hlast.eq (hstill.of_append hmore)
        exact absurd (hheld.symm.trans hdropped) Bool.noConfusion

/-- A tree is held and then dropped: it is shared meanwhile, with another text compiled and the
cache swept; afterwards the text gets a new one. -/
theorem get?_afterAll_iff_kept :
    SharesNext [.compile "a" false (some "kept"), .compile "b" false none, .prune] "a"
        ⟨0, .parameter "a"⟩ ∧
      RenewsNext [.compile "a" false (some "kept"), .drop "kept"] "a" := by
  have hread : parse "a" = .ok (.parameter "a") :=
    parse_eq_ok_iff.2 ⟨_, by decide +kernel, _, by decide, Expr.derives_written _⟩
  have hcompile : (Shelf.cache {}).compile (Shelf.holds {}) "a" false =
      (.ok ⟨0, .parameter "a"⟩, (Shelf.cache {}).stored (Shelf.holds {}) "a" (.parameter "a")) :=
    FormulaCache.compile_eq_stored rfl rfl hread
  have hstores : Stores {} (.compile "a" false (some "kept")) "a" ⟨0, .parameter "a"⟩ :=
    stores_of_compile_eq rfl hcompile
  have hlast : StoredLast ([] ++ [.compile "a" false (some "kept")]) "a" ⟨0, .parameter "a"⟩ :=
    storedLast_concat_iff.2 (.inl hstores)
  have hafter : afterAll {} ([] ++ [.compile "a" false (some "kept")]) =
      { cache := (Shelf.cache {}).stored (Shelf.holds {}) "a" (.parameter "a")
        trees := [("kept", ⟨0, .parameter "a"⟩)] } := by
    rw [afterAll_concat, after_compile, compile_eq]
    change keep { cache := ((Shelf.cache {}).compile (Shelf.holds {}) "a" false).2, trees := [] }
      (some "kept") ((Shelf.cache {}).compile (Shelf.holds {}) "a" false).1.toOption = _
    rw [hcompile]
    rfl
  refine ⟨((get?_afterAll_iff _ _ _).2 hlast [.compile "b" false none, .prune]).1 ?_ ?_,
    ((get?_afterAll_iff _ _ _).2 hlast [.drop "kept"]).2 ?_ ?_⟩
  · simp [Step.Empties]
  · rw [afterAll_append, hafter]
    rfl
  · simp
  · rw [afterAll_append, hafter]
    rfl

end Shelf

end FormulaEngine
