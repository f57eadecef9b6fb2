import FormulaEngine.Formula.Shelf
import Mathlib.Data.List.Nodup

/-!
# What a cache holds

Every entry of a cache has the tree of its own text, whatever was done with the cache before, and
whichever trees were held meanwhile.  So a cache answers like the parser, or not at all.

* `FormulaCache.Orderly` -- the invariant of a cache;
* `FormulaCache.compile_cases` -- what a compilation can do;
* `FormulaCache.map_tree_compile` -- it has the outcome of the parser;
* `Shelf.compile_afterAll` -- the same after any run of steps.
-/

namespace FormulaEngine

namespace FormulaCache

/-! ## Entries -/

section Entries

variable {entries : List (String × SharedTree)} {text : String} {t : SharedTree}

private theorem lookup_cons_eq_ite (key : String) (entry : String × SharedTree)
    (rest : List (String × SharedTree)) :
    (entry :: rest).lookup key = if key = entry.1 then some entry.2 else rest.lookup key := by
  rw [List.lookup_cons]
  by_cases h : key = entry.1
  · rw [if_pos h, beq_iff_eq.2 h]
  · rw [if_neg h, beq_eq_false_iff_ne.2 h]

/-- An entry that is found is there. -/
theorem mem_of_lookup (h : entries.lookup text = some t) : (text, t) ∈ entries := by
  induction entries with
  | nil => exact nomatch h
  | cons entry rest ih =>
      rw [lookup_cons_eq_ite] at h
      split at h
      · next hkey =>
        cases h
        cases hkey
        exact List.mem_cons_self
      · exact List.mem_cons_of_mem _ (ih h)

/-- With one entry for each text, what is there is found. -/
theorem lookup_eq_some_iff (hkeys : (entries.map (·.1)).Nodup) :
    entries.lookup text = some t ↔ (text, t) ∈ entries := by
  refine ⟨mem_of_lookup, fun h => ?_⟩
  induction entries with
  | nil => exact absurd h List.not_mem_nil
  | cons entry rest ih =>
      rw [List.map_cons, List.nodup_cons] at hkeys
      rw [lookup_cons_eq_ite]
      rcases List.mem_cons.1 h with rfl | hmem
      · exact if_pos rfl
      · have hne : text ≠ entry.1 := by
          intro heq
          exact hkeys.1 (heq ▸ List.mem_map_of_mem hmem)
        rw [if_neg hne]
        exact ih hkeys.2 hmem

/-- A sweep leaves a text its tree exactly if that is held. -/
theorem lookup_filter (hkeys : (entries.map (·.1)).Nodup) (held : Nat → Bool) :
    (entries.filter fun entry => held entry.2.id).lookup text = some t ↔
      entries.lookup text = some t ∧ held t.id = true := by
  have hkept : ((entries.filter fun entry => held entry.2.id).map (·.1)).Nodup :=
    hkeys.sublist (List.filter_sublist.map _)
  rw [lookup_eq_some_iff hkeys, lookup_eq_some_iff hkept, List.mem_filter]

/-- A text that is stored has the new tree, all others have the tree they had. -/
theorem lookup_storeEntry (key : String) :
    (storeEntry text t entries).lookup key =
      if key = text then some t else entries.lookup key := by
  induction entries with
  | nil => exact lookup_cons_eq_ite key (text, t) []
  | cons entry rest ih =>
      unfold storeEntry
      split
      · next hentry =>
        have heq : entry.1 = text := eq_of_beq hentry
        rw [lookup_cons_eq_ite, lookup_cons_eq_ite, heq]
        split <;> rfl
      · next hentry =>
        have hne : entry.1 ≠ text := fun h => hentry (beq_iff_eq.2 h)
        rw [lookup_cons_eq_ite, lookup_cons_eq_ite, ih]
        by_cases hkey : key = text
        · rw [if_pos hkey, if_neg fun h => hne (h.symm.trans hkey), if_pos hkey]
        · rw [if_neg hkey, if_neg hkey]

theorem mem_storeEntry {entry : String × SharedTree} (h : entry ∈ storeEntry text t entries) :
    entry = (text, t) ∨ entry ∈ entries := by
  induction entries with
  | nil => exact .inl (List.mem_singleton.1 h)
  | cons first rest ih =>
      unfold storeEntry at h
      split at h
      · exact (List.mem_cons.1 h).imp_right (List.mem_cons_of_mem first)
      · rcases List.mem_cons.1 h with rfl | h
        · exact .inr List.mem_cons_self
        · exact (ih h).imp_right (List.mem_cons_of_mem first)

theorem map_fst_storeEntry :
    (storeEntry text t entries).map (·.1) =
      if text ∈ entries.map (·.1) then entries.map (·.1) else entries.map (·.1) ++ [text] := by
  induction entries with
  | nil => rfl
  | cons entry rest ih =>
      unfold storeEntry
      by_cases hentry : entry.1 = text
      · simp [hentry]
      · have hne : text ≠ entry.1 := fun h => hentry h.symm
        rw [if_neg (by simpa using hentry), List.map_cons, ih]
        simp only [List.map_cons, List.mem_cons, hne, false_or]
        split <;> rfl

theorem nodup_storeEntry (hkeys : (entries.map (·.1)).Nodup) :
    ((storeEntry text t entries).map (·.1)).Nodup := by
  rw [map_fst_storeEntry]
  split
  · exact hkeys
  · next h => exact List.nodup_append.2 ⟨hkeys, by simp, by grind⟩

end Entries

/-! ## Compilations -/

/-- The cache after a tree was made that it took no part in. -/
def counted (c : FormulaCache) : FormulaCache := { c with fresh := c.fresh + 1 }

/-- The cache after a look-up that was answered. -/
def hit (c : FormulaCache) : FormulaCache := { c with hits := c.hits + 1 }

/-- The cache after a look-up that was not answered. -/
def missed (c : FormulaCache) : FormulaCache := { c with misses := c.misses + 1 }

/-- The cache after a tree was made and stored for a text. -/
def stored (c : FormulaCache) (held : Nat → Bool) (text : String) (tree : Expr) : FormulaCache :=
  ({ c.missed.counted with entries := storeEntry text ⟨c.fresh, tree⟩ c.entries }.prune
    fun id => id == c.fresh || held id).2

/-- What is there for a text after a tree was stored: the new tree, or one from before that is
held. -/
theorem lookup_stored {c : FormulaCache} (hkeys : (c.entries.map (·.1)).Nodup)
    (held : Nat → Bool) (text : String) (tree : Expr) {key : String} {t : SharedTree} :
    (c.stored held text tree).entries.lookup key = some t ↔
      (if key = text then some ⟨c.fresh, tree⟩ else c.entries.lookup key) = some t ∧
        (t.id = c.fresh ∨ held t.id = true) := by
  change ((storeEntry text ⟨c.fresh, tree⟩ c.entries).filter fun entry =>
    entry.2.id == c.fresh || held entry.2.id).lookup key = some t ↔ _
  rw [lookup_filter (nodup_storeEntry hkeys) fun id => id == c.fresh || held id,
    lookup_storeEntry, Bool.or_eq_true, beq_iff_eq]

/-- **What a compilation can do.**  The cache takes no part, or it answers, or it had no answer; in
the first and the last case the text is parsed, and in the last case a tree is stored. -/
theorem compile_cases (c : FormulaCache) (held : Nat → Bool) (text : String) (bypass : Bool) :
    ((bypass = true ∨ c.enabled = false) ∧
      ((∃ errors, parse text = .error errors ∧
          c.compile held text bypass = (.error errors, c)) ∨
        ∃ tree, parse text = .ok tree ∧
          c.compile held text bypass = (.ok ⟨c.fresh, tree⟩, c.counted))) ∨
    ((bypass = false ∧ c.enabled = true) ∧
      ((∃ t, c.get? held text = some t ∧ c.compile held text bypass = (.ok t, c.hit)) ∨
        (c.get? held text = none ∧
          ((∃ errors, parse text = .error errors ∧
              c.compile held text bypass = (.error errors, c.missed)) ∨
            ∃ tree, parse text = .ok tree ∧
              c.compile held text bypass = (.ok ⟨c.fresh, tree⟩, c.stored held text tree))))) := by
  by_cases hapart : bypass = true ∨ c.enabled = false
  · refine .inl ⟨hapart, ?_⟩
    have hcompile : c.compile held text bypass = c.parseShared text := by
      unfold compile
      rw [if_pos (by simpa using hapart)]
    rw [hcompile]
    unfold parseShared
    cases parse text with
    | error errors => exact .inl ⟨errors, rfl, rfl⟩
    | ok tree => exact .inr ⟨tree, rfl, rfl⟩
  · have htakes : bypass = false ∧ c.enabled = true := by simpa using hapart
    refine .inr ⟨htakes, ?_⟩
    unfold compile
    rw [if_neg (by simpa using hapart)]
    cases c.get? held text with
    | some t => exact .inl ⟨t, rfl, rfl⟩
    | none =>
        refine .inr ⟨rfl, ?_⟩
        unfold parseShared
        cases parse text with
        | error errors => exact .inl ⟨errors, rfl, rfl⟩
        | ok tree => exact .inr ⟨tree, rfl, rfl⟩

/-- Numbers are given out in order. -/
theorem fresh_le_compile (c : FormulaCache) (held : Nat → Bool) (text : String) (bypass : Bool) :
    c.fresh ≤ (c.compile held text bypass).2.fresh := by
  rcases c.compile_cases held text bypass with
    ⟨-, ⟨errors, -, heq⟩ | ⟨tree, -, heq⟩⟩ |
    ⟨-, ⟨t, -, heq⟩ | ⟨-, ⟨errors, -, heq⟩ | ⟨tree, -, heq⟩⟩⟩ <;>
    simp [heq, counted, hit, missed, stored, prune]

/-- A compilation answers with a tree that is held, or with a new one. -/
theorem held_or_fresh_of_compile {c : FormulaCache} {held : Nat → Bool} {text : String}
    {bypass : Bool} {t : SharedTree} (h : (c.compile held text bypass).1 = .ok t) :
    held t.id = true ∨ t.id = c.fresh ∧ (c.compile held text bypass).2.fresh = c.fresh + 1 := by
  rcases c.compile_cases held text bypass with
    ⟨-, ⟨errors, -, heq⟩ | ⟨tree, -, heq⟩⟩ |
    ⟨-, ⟨u, hget, heq⟩ | ⟨-, ⟨errors, -, heq⟩ | ⟨tree, -, heq⟩⟩⟩
  · rw [heq] at h
    exact nomatch h
  · rw [heq] at h ⊢
    cases h
    exact .inr ⟨rfl, rfl⟩
  · rw [heq] at h
    cases h
    exact .inl (Option.filter_eq_some_iff.1 hget).2
  · rw [heq] at h
    exact nomatch h
  · rw [heq] at h ⊢
    cases h
    exact .inr ⟨rfl, rfl⟩

/-- A compilation leaves the entries alone, or it stores a tree. -/
theorem entries_compile (c : FormulaCache) (held : Nat → Bool) (text : String) (bypass : Bool) :
    (c.compile held text bypass).2.entries = c.entries ∨
      (bypass = false ∧ c.enabled = true) ∧ ∃ tree, parse text = .ok tree ∧
        c.compile held text bypass = (.ok ⟨c.fresh, tree⟩, c.stored held text tree) := by
  rcases c.compile_cases held text bypass with
    ⟨-, ⟨errors, -, heq⟩ | ⟨tree, -, heq⟩⟩ |
    ⟨htakes, ⟨u, -, heq⟩ | ⟨-, ⟨errors, -, heq⟩ | ⟨tree, hparse, heq⟩⟩⟩
  · exact .inl (by rw [heq])
  · exact .inl (by rw [heq]; rfl)
  · exact .inl (by rw [heq]; rfl)
  · exact .inl (by rw [heq]; rfl)
  · exact .inr ⟨htakes, tree, hparse, heq⟩

/-- Without an answer for a text that has no faults, a new tree is stored. -/
theorem compile_eq_stored {c : FormulaCache} {held : Nat → Bool} {text : String} {tree : Expr}
    (henabled : c.enabled = true) (hget : c.get? held text = none)
    (hparse : parse text = .ok tree) :
    c.compile held text false = (.ok ⟨c.fresh, tree⟩, c.stored held text tree) := by
  rcases c.compile_cases held text false with
    ⟨hoff, -⟩ | ⟨-, ⟨t, hsome, -⟩ | ⟨-, ⟨errors, herror, -⟩ | ⟨tree', hok, heq⟩⟩⟩
  · simp [henabled] at hoff
  · exact nomatch hget.symm.trans hsome
  · exact nomatch hparse.symm.trans herror
  · cases hparse.symm.trans hok
    exact heq

/-- A compilation does not switch the cache on or off. -/
theorem enabled_compile (c : FormulaCache) (held : Nat → Bool) (text : String) (bypass : Bool) :
    (c.compile held text bypass).2.enabled = c.enabled := by
  rcases c.compile_cases held text bypass with
    ⟨-, ⟨errors, -, heq⟩ | ⟨tree, -, heq⟩⟩ |
    ⟨-, ⟨t, -, heq⟩ | ⟨-, ⟨errors, -, heq⟩ | ⟨tree, -, heq⟩⟩⟩ <;>
    simp [heq, counted, hit, missed, stored, prune]

/-! ## The invariant -/

/-- **The invariant of a cache.** -/
structure Orderly (c : FormulaCache) : Prop where
  /-- each tree is that of its text -/
  parsed : ∀ text t, (text, t) ∈ c.entries → parse text = .ok t.tree
  /-- a text has one entry -/
  keys : (c.entries.map (·.1)).Nodup
  /-- the next tree gets a number that no entry has -/
  numbered : ∀ text t, (text, t) ∈ c.entries → t.id < c.fresh
  /-- switched off, there are no entries -/
  off : c.enabled = false → c.entries = []

namespace Orderly

variable {c : FormulaCache}

/-- A new cache is in order. -/
theorem new : Orderly {} where
  parsed _ _ h := absurd h List.not_mem_nil
  keys := List.nodup_nil
  numbered _ _ h := absurd h List.not_mem_nil
  off _ := rfl

/-- Counters do not matter, nor numbers that are left out. -/
theorem of_entries_eq {d : FormulaCache} (h : c.Orderly) (hentries : d.entries = c.entries)
    (henabled : d.enabled = c.enabled) (hfresh : c.fresh ≤ d.fresh) : d.Orderly where
  parsed text t hmem := h.parsed text t (hentries ▸ hmem)
  keys := hentries ▸ h.keys
  numbered text t hmem := Nat.lt_of_lt_of_le (h.numbered text t (hentries ▸ hmem)) hfresh
  off hoff := hentries.trans (h.off (henabled ▸ hoff))

theorem prune (h : c.Orderly) (held : Nat → Bool) : (c.prune held).2.Orderly where
  parsed text t hmem := h.parsed text t (List.mem_filter.1 hmem).1
  keys := h.keys.sublist (List.filter_sublist.map _)
  numbered text t hmem := h.numbered text t (List.mem_filter.1 hmem).1
  off hoff := by
    have hnone := h.off hoff
    simp [FormulaCache.prune, hnone]

theorem clear (c : FormulaCache) : c.clear.Orderly where
  parsed _ _ hmem := absurd hmem List.not_mem_nil
  keys := List.nodup_nil
  numbered _ _ hmem := absurd hmem List.not_mem_nil
  off _ := rfl

theorem setEnabled (h : c.Orderly) (enabled : Bool) : (c.setEnabled enabled).Orderly := by
  cases enabled with
  | true => exact { h with off := fun hoff => nomatch hoff }
  | false => exact { clear c with off := fun _ => rfl }

theorem stored (h : c.Orderly) (held : Nat → Bool) {text : String} {tree : Expr}
    (henabled : c.enabled = true) (hparse : parse text = .ok tree) :
    (c.stored held text tree).Orderly := by
  refine prune ?_ _
  exact {
    parsed := by
      intro key t hmem
      rcases mem_storeEntry hmem with heq | hmem
      · cases heq
        exact hparse
      · exact h.parsed key t hmem
    keys := nodup_storeEntry h.keys
    numbered := by
      intro key t hmem
      rcases mem_storeEntry hmem with heq | hmem
      · cases heq
        exact Nat.lt_succ_self c.fresh
      · exact Nat.lt_succ_of_lt (h.numbered key t hmem)
    off := fun hoff => absurd (henabled.symm.trans hoff) Bool.noConfusion }

/-- **A compilation keeps the invariant.** -/
theorem compile (h : c.Orderly) (held : Nat → Bool) (text : String) (bypass : Bool) :
    (c.compile held text bypass).2.Orderly := by
  rcases c.compile_cases held text bypass with
    ⟨-, ⟨errors, -, heq⟩ | ⟨tree, -, heq⟩⟩ |
    ⟨⟨-, henabled⟩, ⟨t, -, heq⟩ | ⟨-, ⟨errors, -, heq⟩ | ⟨tree, hparse, heq⟩⟩⟩
  · rw [heq]
    exact h
  · rw [heq]
    exact h.of_entries_eq rfl rfl (Nat.le_succ _)
  · rw [heq]
    exact h.of_entries_eq rfl rfl (Nat.le_refl _)
  · rw [heq]
    exact h.of_entries_eq rfl rfl (Nat.le_refl _)
  · rw [heq]
    exact h.stored held henabled hparse

/-- **A tree that is found is that of the text.** -/
theorem parse_of_get? (h : c.Orderly) {held : Nat → Bool} {text : String} {t : SharedTree}
    (hget : c.get? held text = some t) : parse text = .ok t.tree := by
  have hlookup : c.entries.lookup text = some t := (Option.filter_eq_some_iff.1 hget).1
  exact h.parsed text t (mem_of_lookup hlookup)

/-- **A compilation has the outcome of the parser**, with the cache or without. -/
theorem map_tree_compile (h : c.Orderly) (held : Nat → Bool) (text : String) (bypass : Bool) :
    (c.compile held text bypass).1.map (·.tree) = parse text := by
  rcases c.compile_cases held text bypass with
    ⟨-, ⟨errors, hparse, heq⟩ | ⟨tree, hparse, heq⟩⟩ |
    ⟨-, ⟨t, hget, heq⟩ | ⟨-, ⟨errors, hparse, heq⟩ | ⟨tree, hparse, heq⟩⟩⟩
  · rw [heq, hparse]
    rfl
  · rw [heq, hparse]
    rfl
  · rw [heq, h.parse_of_get? hget]
    rfl
  · rw [heq, hparse]
    rfl
  · rw [heq, hparse]
    rfl

end Orderly

end FormulaCache

/-! ## Runs -/

namespace Shelf

/-- Holding a tree leaves the cache alone. -/
@[simp]
theorem cache_keep (s : Shelf) (name? : Option String) (t? : Option SharedTree) :
    (s.keep name? t?).cache = s.cache := by
  unfold keep
  split <;> rfl

@[simp]
theorem cache_after_compile (s : Shelf) (text : String) (bypass : Bool) (name? : Option String) :
    (s.after (.compile text bypass name?)).cache = (s.cache.compile s.holds text bypass).2 :=
  cache_keep _ name? _

@[simp]
theorem cache_after_get (s : Shelf) (text : String) (name? : Option String) :
    (s.after (.get text name?)).cache = s.cache :=
  s.cache_keep name? _

@[simp]
theorem cache_after_share (s : Shelf) (name other : String) :
    (s.after (.share name other)).cache = s.cache :=
  s.cache_keep (some other) _

/-- A step keeps the invariant of the cache. -/
theorem orderly_after {s : Shelf} (h : s.cache.Orderly) (step : Step) :
    (s.after step).cache.Orderly := by
  cases step with
  | compile text bypass name? =>
      rw [cache_after_compile]
      exact h.compile s.holds text bypass
  | get text name? => rwa [cache_after_get]
  | share name other => rwa [cache_after_share]
  | drop name => exact h
  | prune => exact h.prune s.holds
  | clear => exact .clear s.cache
  | setEnabled enabled => exact h.setEnabled enabled

/-- A run keeps the invariant of the cache. -/
theorem orderly_afterAll {s : Shelf} (h : s.cache.Orderly) (steps : List Step) :
    (s.afterAll steps).cache.Orderly := by
  induction steps generalizing s with
  | nil => exact h
  | cons step rest ih => exact ih (orderly_after h step)

/-- **A cache answers like the parser.**  After any run of steps, from a new cache on, a compilation
has the tree of the text, or exactly its faults; and a look-up that finds a tree finds that of the
text. -/
theorem compile_afterAll (steps : List Step) (text : String) :
    (∀ bypass, (((afterAll {} steps).compile text bypass).1.map (·.tree)) = parse text) ∧
      ((afterAll {} steps).get? text = none ∨
        ∃ t, (afterAll {} steps).get? text = some t ∧ parse text = .ok t.tree) := by
  have h : (afterAll {} steps).cache.Orderly := orderly_afterAll .new steps
  constructor
  · intro bypass
    exact h.map_tree_compile (afterAll {} steps).holds text bypass
  · rcases hget : (afterAll {} steps).get? text with _ | t
    · exact .inl rfl
    · exact .inr ⟨t, rfl, h.parse_of_get? hget⟩

end Shelf

end FormulaEngine
