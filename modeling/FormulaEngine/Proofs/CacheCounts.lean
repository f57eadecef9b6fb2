import FormulaEngine.Proofs.Sharing

/-!
# The accounts of a cache

What a cache has counted, and how many entries it has, is settled by the steps of the run: by what
was asked, what was stored, and by what went away on each of four ways.

* `Shelf.tally` -- what the steps of a run weigh together;
* `Shelf.asked`, `missed`, `stored`, `replaced`, `emptied` -- the weights;
* `Shelf.lookups_after`, `Shelf.size_after` -- the balance of one step;
* `Shelf.tally_balance` -- what every step balances, a run balances;
* `Shelf.accounts_afterAll` -- the accounts after any run.
-/

namespace FormulaEngine

/-! ## Entries that come and go -/

namespace FormulaCache

/-- An entry is added, unless the text has one already. -/
theorem length_storeEntry (entries : List (String × SharedTree)) (text : String)
    (t : SharedTree) :
    (storeEntry text t entries).length + (if (entries.lookup text).isSome then 1 else 0) =
      entries.length + 1 := by
  have hlength : (storeEntry text t entries).length =
      ((storeEntry text t entries).map (·.1)).length := (List.length_map _).symm
  have hmem : text ∈ entries.map (·.1) ↔ (entries.lookup text).isSome = true := by
    rw [List.lookup_isSome_iff, List.mem_map]
    simp only [beq_iff_eq]
    exact exists_congr fun entry => and_congr_right fun _ => eq_comm
  rw [hlength, map_fst_storeEntry]
  simp only [hmem]
  split <;> simp

/-- What a sweep removes from the entries it adds to the counter. -/
theorem size_prune (c : FormulaCache) (held : Nat → Bool) :
    (c.prune held).2.size + (c.prune held).2.pruned = c.size + c.pruned := by
  have hle := List.length_filter_le (fun entry : String × SharedTree => held entry.2.id) c.entries
  simp only [prune, size]
  omega

/-- A tree that is stored is one entry more, before what is swept away, unless the text has an entry
already. -/
theorem size_stored (c : FormulaCache) (held : Nat → Bool) (text : String) (tree : Expr) :
    (c.stored held text tree).size + (c.stored held text tree).pruned +
        (if (c.entries.lookup text).isSome then 1 else 0) =
      c.size + c.pruned + 1 := by
  have hlength := length_storeEntry c.entries text ⟨c.fresh, tree⟩
  rw [stored, size_prune]
  change (storeEntry text ⟨c.fresh, tree⟩ c.entries).length + c.pruned + _ =
    c.entries.length + c.pruned + 1
  omega

/-- A sweep answers with the number of dead entries. -/
theorem prune_eq_countP (c : FormulaCache) (held : Nat → Bool) :
    (c.prune held).1 = c.entries.countP fun entry => !held entry.2.id := by
  have hlive := List.countP_eq_length_filter (l := c.entries)
    (p := fun entry => held entry.2.id)
  have hsum := List.length_eq_countP_add_countP (l := c.entries) fun entry => held entry.2.id
  simp only [Bool.not_eq_true, Bool.decide_eq_false] at hsum
  simp only [prune]
  omega

/-- After a sweep no entry is dead. -/
theorem liveSize_prune (c : FormulaCache) (held : Nat → Bool) :
    (c.prune held).2.liveSize held = (c.prune held).2.size :=
  List.countP_eq_length.2 fun _ => held_of_mem_prune

/-- When a tree has been stored, and it is held, no entry is dead. -/
theorem liveSize_stored (c : FormulaCache) (held : Nat → Bool) (text : String) (tree : Expr) :
    (c.stored held text tree).liveSize (fun id => id == c.fresh || held id) =
      (c.stored held text tree).size :=
  liveSize_prune _ _

end FormulaCache

namespace Shelf

/-! ## What steps weigh -/

/-- What the steps of a run weigh together. -/
def tally (weight : Shelf → Step → Nat) : Shelf → List Step → Nat
  | _, [] => 0
  | s, step :: rest => weight s step + tally weight (s.after step) rest

/-- One, for a step that asks the cache for the tree of a text that is counted. -/
def asking (s : Shelf) (counts : String → Bool) : Step → Nat
  | .compile text false _ => if s.cache.enabled && counts text then 1 else 0
  | _ => 0

/-- A compilation that goes through the cache. -/
def asked (s : Shelf) : Step → Nat := s.asking fun _ => true

/-- One that the cache has no tree for, whether the text has faults or not. -/
def missed (s : Shelf) : Step → Nat := s.asking fun text => (s.get? text).isNone

/-- One that the cache has no tree for, of a text without faults. -/
def stored (s : Shelf) : Step → Nat :=
  s.asking fun text => (s.get? text).isNone && (parse text).isOk

/-- One of a text without faults that has a dead entry. -/
def replaced (s : Shelf) : Step → Nat :=
  s.asking fun text => (s.stored? text).any (fun t => !s.holds t.id) && (parse text).isOk

/-- The entries that are there when the cache is emptied. -/
def emptied (s : Shelf) : Step → Nat
  | .clear | .setEnabled false => s.cache.size
  | _ => 0

/-- What every step balances, a run balances. -/
theorem tally_balance (measure : Shelf → Nat) (lost gained : Shelf → Step → Nat)
    (h : ∀ s step, measure (s.after step) + lost s step = measure s + gained s step)
    (s : Shelf) (steps : List Step) :
    measure (s.afterAll steps) + tally lost s steps = measure s + tally gained s steps := by
  induction steps generalizing s with
  | nil => rfl
  | cons step rest ih =>
      have hstep := h s step
      have hrest := ih (s.after step)
      change measure ((s.after step).afterAll rest) + (lost s step + _) =
        measure s + (gained s step + _)
      omega

theorem tally_add (first second : Shelf → Step → Nat) (s : Shelf) (steps : List Step) :
    tally (fun s step => first s step + second s step) s steps =
      tally first s steps + tally second s steps := by
  induction steps generalizing s with
  | nil => rfl
  | cons step rest ih =>
      simp only [tally, ih]
      omega

theorem tally_zero (s : Shelf) (steps : List Step) : tally (fun _ _ => 0) s steps = 0 := by
  induction steps generalizing s with
  | nil => rfl
  | cons step rest ih => simp only [tally, ih]

/-- What no step loses has grown by what the run gained. -/
theorem tally_growth (measure : Shelf → Nat) (gained : Shelf → Step → Nat)
    (h : ∀ s step, measure (s.after step) = measure s + gained s step) (s : Shelf)
    (steps : List Step) : measure (s.afterAll steps) = measure s + tally gained s steps := by
  have hbalance := tally_balance measure (fun _ _ => 0) gained h s steps
  rwa [tally_zero, Nat.add_zero] at hbalance

/-! ## One step -/

/-- A look-up that finds no tree finds a dead entry or none. -/
theorem any_stored?_of_get? {s : Shelf} {text : String} (h : s.get? text = none) :
    (s.stored? text).any (fun t => !s.holds t.id) = (s.stored? text).isSome := by
  have hdead := Option.filter_eq_none_iff.1 h
  change ∀ t, s.stored? text = some t → _ at hdead
  cases hstored : s.stored? text with
  | none => rfl
  | some t => simp [hdead t hstored]

section Compilation

variable {s : Shelf} {text : String} {bypass : Bool} (name? : Option String)
  (counts : String → Bool)

/-- A compilation that the cache takes no part in asks for nothing. -/
theorem asking_of_apart (h : bypass = true ∨ s.cache.enabled = false) :
    s.asking counts (.compile text bypass name?) = 0 := by
  cases bypass with
  | true => rfl
  | false => simp [asking, h.resolve_left Bool.noConfusion]

theorem asking_of_enabled (h : s.cache.enabled = true) :
    s.asking counts (.compile text false name?) = if counts text then 1 else 0 := by
  simp [asking, h]

end Compilation

/-- Every look-up is counted once, as an answered one or as one without an answer. -/
theorem lookups_after (s : Shelf) (step : Step) :
    (s.after step).cache.hits + (s.after step).cache.misses =
        s.cache.hits + s.cache.misses + s.asked step ∧
      (s.after step).cache.misses = s.cache.misses + s.missed step := by
  cases step with
  | compile text bypass name? =>
      rw [cache_after_compile]
      rcases s.cache.compile_cases s.holds text bypass with
        ⟨hapart, hcases⟩ | ⟨⟨rfl, henabled⟩, hcases⟩
      · have hasked : s.asked (.compile text bypass name?) = 0 := asking_of_apart name? _ hapart
        have hmissed : s.missed (.compile text bypass name?) = 0 := asking_of_apart name? _ hapart
        rw [hasked, hmissed]
        rcases hcases with ⟨errors, -, heq⟩ | ⟨tree, -, heq⟩
        · rw [heq]
          exact ⟨rfl, rfl⟩
        · rw [heq]
          exact ⟨rfl, rfl⟩
      · have hasked : s.asked (.compile text false name?) = 1 :=
          asking_of_enabled name? (fun _ => true) henabled
        have hmissed : s.missed (.compile text false name?) =
            if (s.cache.get? s.holds text).isNone then 1 else 0 :=
          asking_of_enabled name? _ henabled
        rw [hasked, hmissed]
        rcases hcases with ⟨t, hget, heq⟩ | ⟨hget, ⟨errors, -, heq⟩ | ⟨tree, -, heq⟩⟩
        · rw [heq, hget]
          exact ⟨Nat.add_right_comm s.cache.hits 1 s.cache.misses, rfl⟩
        · rw [heq, hget]
          exact ⟨rfl, rfl⟩
        · rw [heq, hget]
          exact ⟨rfl, rfl⟩
  | get text name? =>
      rw [cache_after_get]
      exact ⟨rfl, rfl⟩
  | share name other =>
      rw [cache_after_share]
      exact ⟨rfl, rfl⟩
  | _ => exact ⟨rfl, rfl⟩

/-- What a compilation stores is an entry more, is in the place of a dead entry, or is swept
away. -/
theorem size_after_compile (s : Shelf) (text : String) (bypass : Bool) (name? : Option String) :
    (s.cache.compile s.holds text bypass).2.size + (s.cache.compile s.holds text bypass).2.pruned +
        s.replaced (.compile text bypass name?) =
      s.cache.size + s.cache.pruned + s.stored (.compile text bypass name?) := by
  rcases s.cache.compile_cases s.holds text bypass with
    ⟨hapart, hcases⟩ | ⟨⟨rfl, henabled⟩, hcases⟩
  · have hreplaced : s.replaced (.compile text bypass name?) = 0 := asking_of_apart name? _ hapart
    have hstored : s.stored (.compile text bypass name?) = 0 := asking_of_apart name? _ hapart
    rw [hreplaced, hstored]
    rcases hcases with ⟨errors, -, heq⟩ | ⟨tree, -, heq⟩
    · rw [heq]
    · rw [heq]
      rfl
  · have hreplaced : s.replaced (.compile text false name?) =
        if (s.stored? text).any (fun t => !s.holds t.id) && (parse text).isOk then 1 else 0 :=
      asking_of_enabled name? _ henabled
    have hstored : s.stored (.compile text false name?) =
        if (s.get? text).isNone && (parse text).isOk then 1 else 0 :=
      asking_of_enabled name? _ henabled
    rw [hreplaced, hstored]
    rcases hcases with ⟨t, hget, heq⟩ | ⟨hget, ⟨errors, hparse, heq⟩ | ⟨tree, hparse, heq⟩⟩
    · have hfound : s.get? text = some t := hget
      obtain ⟨hthere, hheld⟩ := get?_eq_some_iff.1 hfound
      simp only [heq, hfound, hthere, hheld, Option.any_some, Option.isNone_some, Bool.not_true,
        Bool.false_and, Bool.false_eq_true, if_false]
      rfl
    · have hfaulty : (parse text).isOk = false := by rw [hparse]; rfl
      simp only [heq, hfaulty, Bool.and_false, Bool.false_eq_true, if_false]
      rfl
    · have hfound : s.get? text = none := hget
      have hok : (parse text).isOk = true := by rw [hparse]; rfl
      simp only [heq, hfound, any_stored?_of_get? hfound, hok, Bool.and_true, Option.isNone_none,
        if_true]
      exact s.cache.size_stored s.holds text tree

/-- What is stored is an entry more, is in the place of a dead entry, is swept away, or goes when
the cache is emptied. -/
theorem size_after (s : Shelf) (step : Step) :
    (s.after step).cache.size + (s.after step).cache.pruned +
        (s.replaced step + s.emptied step) =
      s.cache.size + s.cache.pruned + s.stored step := by
  cases step with
  | compile text bypass name? =>
      rw [cache_after_compile]
      exact s.size_after_compile text bypass name?
  | get text name? =>
      rw [cache_after_get]
      rfl
  | share name other =>
      rw [cache_after_share]
      rfl
  | drop name => rfl
  | prune => exact FormulaCache.size_prune s.cache s.holds
  | clear =>
      change 0 + s.cache.pruned + (0 + s.cache.size) = s.cache.size + s.cache.pruned + 0
      omega
  | setEnabled enabled =>
      cases enabled with
      | true => rfl
      | false =>
          change 0 + s.cache.pruned + (0 + s.cache.size) = s.cache.size + s.cache.pruned + 0
          omega

/-! ## Runs -/

/-- The accounts of a shelf after a run. -/
structure Accounts (steps : List Step) (s : Shelf) : Prop where
  /-- every compilation through the cache is a look-up that is answered or not -/
  lookups : s.cache.hits + s.cache.misses = tally asked {} steps
  /-- those without an answer are counted apart, faults in the text or not -/
  misses : s.cache.misses = tally missed {} steps
  /-- what was stored is there, or it went away on one of four ways -/
  entries : s.cache.size + tally replaced {} steps + s.cache.pruned + tally emptied {} steps =
    tally stored {} steps
  /-- switched off, the cache is empty -/
  off : s.cache.enabled = false → s.cache.size = 0
  /-- when a tree has been stored, and is held by who asked for it, no entry is dead -/
  live_compile : ∀ text t, s.cache.enabled = true → s.get? text = none →
    (s.compile text false).1 = .ok t →
    (s.compile text false).2.cache.liveSize (fun id => id == t.id || s.holds id) =
      (s.compile text false).2.cache.size
  /-- a sweep answers with the number of dead entries -/
  dead_prune : s.prune.1 = s.cache.entries.countP fun entry => !s.holds entry.2.id
  /-- and leaves none -/
  live_prune : s.prune.2.cache.liveSize s.prune.2.holds = s.prune.2.cache.size

/-- When a tree has been stored, no entry is dead. -/
theorem liveSize_compile {s : Shelf} {text : String} {t : SharedTree}
    (henabled : s.cache.enabled = true) (hget : s.get? text = none)
    (h : (s.compile text false).1 = .ok t) :
    (s.compile text false).2.cache.liveSize (fun id => id == t.id || s.holds id) =
      (s.compile text false).2.cache.size := by
  rw [compile_eq] at h ⊢
  rcases s.cache.compile_cases s.holds text false with
    ⟨hoff, -⟩ | ⟨-, ⟨u, hfound, -⟩ | ⟨-, ⟨errors, -, heq⟩ | ⟨tree, -, heq⟩⟩⟩
  · simp [henabled] at hoff
  · exact nomatch hget.symm.trans hfound
  · rw [heq] at h
    exact nomatch h
  · rw [heq] at h ⊢
    cases h
    exact FormulaCache.liveSize_stored _ _ _ _

/-- **The accounts of a cache.**  After any run, from a new cache on, its look-ups are the
compilations that went through it; its entries are the trees that were stored, less those in the
place of a dead entry, less those that sweeps removed, less those that were there when it was
emptied; switched off, it is empty; and no entry is dead when a tree was stored, nor after a sweep,
which answers with the number of those that were. -/
theorem accounts_afterAll (steps : List Step) : Accounts steps (afterAll {} steps) where
  lookups := by
    have hgrowth := tally_growth (fun s => s.cache.hits + s.cache.misses) asked
      (fun s step => (s.lookups_after step).1) {} steps
    exact hgrowth.trans (Nat.zero_add _)
  misses := by
    have hgrowth := tally_growth (fun s => s.cache.misses) missed
      (fun s step => (s.lookups_after step).2) {} steps
    exact hgrowth.trans (Nat.zero_add _)
  entries := by
    have hbalance := tally_balance (fun s => s.cache.size + s.cache.pruned)
      (fun s step => s.replaced step + s.emptied step) stored size_after {} steps
    rw [tally_add] at hbalance
    change _ = 0 + tally stored {} steps at hbalance
    omega
  off hoff := by
    have horder : (afterAll {} steps).cache.Orderly := orderly_afterAll .new steps
    rw [FormulaCache.size, horder.off hoff]
    rfl
  live_compile _ _ henabled hget hok := liveSize_compile henabled hget hok
  dead_prune := FormulaCache.prune_eq_countP _ _
  live_prune := FormulaCache.liveSize_prune _ _

/-- The entry of `a` dies with its two handles, and the next tree of `a` takes its place; that of
`b` is stored beside it and dies in its turn, and a sweep removes it. -/
def replacedAndSwept : List Step :=
  [.compile "a" false (some "x"), .compile "a" false (some "y"), .drop "x", .drop "y",
    .compile "a" false (some "x"), .compile "b" false (some "y"), .drop "y"]

/-- Of the three trees that were stored one is in the place of a dead entry, one is swept away and
one is there; the four look-ups are an answered one and three without an answer.  The tree of `a`
that replaces the dead one leaves no dead entry. -/
theorem accounts_afterAll_replacedAndSwept :
    let swept := afterAll {} (replacedAndSwept ++ [.prune])
    let dead := afterAll {} (replacedAndSwept.take 4)
    (swept.cache.hits + swept.cache.misses = 4 ∧ swept.cache.misses = 3 ∧
      swept.cache.size + 1 + swept.cache.pruned + 0 = 3 ∧ swept.cache.size = 1) ∧
    (afterAll {} replacedAndSwept).prune.1 = 1 ∧
    dead.cache.liveSize dead.holds = 0 ∧ dead.cache.size = 1 ∧
      (dead.compile "a" false).2.cache.liveSize (fun id => id == 1 || dead.holds id) =
        (dead.compile "a" false).2.cache.size ∧
    (afterAll {} (replacedAndSwept ++ [.setEnabled false])).cache.size = 0 := by
  intro swept dead
  obtain ⟨hlookups, hmisses, hentries, -, -, -, -⟩ :=
    accounts_afterAll (replacedAndSwept ++ [.prune])
  have hasked : tally asked {} (replacedAndSwept ++ [.prune]) = 4 := by decide +kernel
  have hmissed : tally missed {} (replacedAndSwept ++ [.prune]) = 3 := by decide +kernel
  have hreplaced : tally replaced {} (replacedAndSwept ++ [.prune]) = 1 := by decide +kernel
  have hemptied : tally emptied {} (replacedAndSwept ++ [.prune]) = 0 := by decide +kernel
  have hstored : tally stored {} (replacedAndSwept ++ [.prune]) = 3 := by decide +kernel
  rw [hasked] at hlookups
  rw [hmissed] at hmisses
  rw [hreplaced, hemptied, hstored] at hentries
  have hdead := (accounts_afterAll replacedAndSwept).dead_prune
  have hread : parse "a" = .ok (.parameter "a") :=
    parse_eq_ok_iff.2 ⟨_, by decide +kernel, _, by decide, Expr.derives_written _⟩
  have henabled : dead.cache.enabled = true := by decide +kernel
  have hget : dead.get? "a" = none := by decide +kernel
  have hfresh : dead.cache.fresh = 1 := by decide +kernel
  have hcompile : (dead.compile "a" false).1 = .ok ⟨1, .parameter "a"⟩ := by
    rw [compile_eq, ← hfresh]
    exact congrArg Prod.fst (FormulaCache.compile_eq_stored henabled hget hread)
  refine ⟨⟨hlookups, hmisses, hentries, by decide +kernel⟩, ?_, by decide +kernel,
    by decide +kernel, ?_, ?_⟩
  · rw [hdead]
    decide +kernel
  · exact (accounts_afterAll (replacedAndSwept.take 4)).live_compile "a" ⟨1, .parameter "a"⟩
      henabled hget hcompile
  · exact (accounts_afterAll (replacedAndSwept ++ [.setEnabled false])).off (by decide +kernel)

end Shelf

end FormulaEngine
