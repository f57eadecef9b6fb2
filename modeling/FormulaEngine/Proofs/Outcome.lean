import Mathlib.Tactic.Common

/-!
# Outcomes of computations that may fail

When a sequence of computations succeeds, and when it fails.

* `bind_eq_ok_iff`, `map_eq_ok_iff`, `map_eq_error_iff` -- two steps in sequence;
* `mapM_eq_ok_iff`, `mapM_range_eq_ok_iff` -- a traversal succeeds exactly if all its members do;
* `mapM_eq_error_iff`, `mapM_range_eq_error_iff` -- it fails exactly with the failure of the first
  member that fails;
* `run_mapM_id` -- a traversal without effects of a host is one of outcomes.
-/

namespace FormulaEngine

variable {ε ε' α β : Type}

/-! ## Two steps -/

/-- A computation that may fail has a result exactly when both of its halves have one. -/
theorem bind_eq_ok_iff {x : Except ε α} {f : α → Except ε β} {b : β} :
    x >>= f = .ok b ↔ ∃ a, x = .ok a ∧ f a = .ok b := by
  cases x <;> simp [bind, Except.bind]

/-- A mapped outcome is a success exactly if the outcome is one. -/
theorem map_eq_ok_iff {f : α → β} {x : Except ε α} {b : β} :
    f <$> x = .ok b ↔ ∃ a, x = .ok a ∧ b = f a := by
  cases x <;> simp [Functor.map, Except.map, eq_comm]

/-- A mapped outcome fails exactly with the failure of the outcome. -/
theorem map_eq_error_iff {f : α → β} {x : Except ε α} {err : ε} :
    f <$> x = .error err ↔ x = .error err := by
  cases x <;> simp [Functor.map, Except.map]

theorem toOption_ok (a : α) : (Except.ok a : Except ε α).toOption = some a := rfl

theorem toOption_bind (x : Except ε α) (f : α → Except ε β) :
    (x >>= f).toOption = x.toOption.bind fun a => (f a).toOption := by
  cases x <;> rfl

theorem toOption_mapError (f : ε → ε') (x : Except ε α) :
    (x.mapError f).toOption = x.toOption := by
  cases x <;> rfl

/-! ## Traversals -/

/-- A traversal succeeds if its first member and the rest do. -/
theorem mapM_cons_eq_ok_iff {f : α → Except ε β} {x : α} {rest : List α} {ys : List β} :
    (x :: rest).mapM f = .ok ys ↔ ∃ y zs, f x = .ok y ∧ rest.mapM f = .ok zs ∧ ys = y :: zs := by
  rw [List.mapM_cons, bind_eq_ok_iff]
  constructor
  · intro h
    obtain ⟨y, hy, h⟩ := h
    obtain ⟨zs, hzs, h⟩ := bind_eq_ok_iff.1 h
    cases h
    exact ⟨y, zs, hy, hzs, rfl⟩
  · intro h
    obtain ⟨y, zs, hy, hzs, hys⟩ := h
    exact ⟨y, hy, bind_eq_ok_iff.2 ⟨zs, hzs, congrArg Except.ok hys.symm⟩⟩

/-- A traversal fails if its first member fails, or else the rest. -/
theorem mapM_cons_eq_error_iff {f : α → Except ε β} {x : α} {rest : List α} {err : ε} :
    (x :: rest).mapM f = .error err ↔
      f x = .error err ∨ ∃ y, f x = .ok y ∧ rest.mapM f = .error err := by
  rw [List.mapM_cons]
  cases f x with
  | error first => simp [bind, Except.bind]
  | ok y => cases rest.mapM f <;> simp [bind, Except.bind, pure, Except.pure]

/-- A traversal succeeds exactly if all its members do. -/
theorem mapM_eq_ok_iff (f : α → Except ε β) (xs : List α) (ys : List β) :
    xs.mapM f = .ok ys ↔
      ys.length = xs.length ∧
        ∀ k (h : k < xs.length) (h' : k < ys.length), f xs[k] = .ok ys[k] := by
  induction xs generalizing ys with
  | nil =>
      rw [List.mapM_nil]
      constructor
      · intro h
        cases h
        exact ⟨rfl, fun k hk => absurd hk (Nat.not_lt_zero k)⟩
      · intro h
        rw [List.length_eq_zero_iff.1 h.1]
        rfl
  | cons x rest ih =>
      rw [mapM_cons_eq_ok_iff]
      constructor
      · intro h
        obtain ⟨y, zs, hy, hzs, hys⟩ := h
        subst ys
        obtain ⟨hlen, hat⟩ := (ih zs).1 hzs
        refine ⟨congrArg (· + 1) hlen, ?_⟩
        intro k hk hk'
        cases k with
        | zero => exact hy
        | succ k => exact hat k (Nat.lt_of_succ_lt_succ hk) (Nat.lt_of_succ_lt_succ hk')
      · intro h
        obtain ⟨hlen, hat⟩ := h
        cases ys with
        | nil => exact nomatch hlen
        | cons y zs =>
            refine ⟨y, zs, hat 0 (Nat.zero_lt_succ _) (Nat.zero_lt_succ _), ?_, rfl⟩
            refine (ih zs).2 ⟨Nat.succ.inj hlen, ?_⟩
            intro k hk hk'
            exact hat (k + 1) (Nat.succ_lt_succ hk) (Nat.succ_lt_succ hk')

/-- A traversal fails exactly with the failure of its first member that fails. -/
theorem mapM_eq_error_iff (f : α → Except ε β) (xs : List α) (err : ε) :
    xs.mapM f = .error err ↔
      ∃ (k : Nat) (h : k < xs.length), f xs[k] = .error err ∧
        ∀ (j : Nat) (hj : j < k), ∃ y, f xs[j] = .ok y := by
  induction xs with
  | nil =>
      rw [List.mapM_nil]
      constructor
      · intro h
        exact nomatch h
      · intro h
        obtain ⟨k, hk, -⟩ := h
        exact absurd hk (Nat.not_lt_zero k)
  | cons x rest ih =>
      rw [mapM_cons_eq_error_iff, ih]
      constructor
      · intro h
        rcases h with hx | ⟨y, hy, k, hk, hfail, hbefore⟩
        · exact ⟨0, Nat.zero_lt_succ _, hx, fun j hj => absurd hj (Nat.not_lt_zero j)⟩
        · refine ⟨k + 1, Nat.succ_lt_succ hk, hfail, ?_⟩
          intro j hj
          cases j with
          | zero => exact ⟨y, hy⟩
          | succ j => exact hbefore j (Nat.lt_of_succ_lt_succ hj)
      · intro h
        obtain ⟨k, hk, hfail, hbefore⟩ := h
        cases k with
        | zero => exact .inl hfail
        | succ k =>
            obtain ⟨y, hy⟩ := hbefore 0 (Nat.zero_lt_succ k)
            refine .inr ⟨y, hy, k, Nat.lt_of_succ_lt_succ hk, hfail, ?_⟩
            intro j hj
            exact hbefore (j + 1) (Nat.succ_lt_succ hj)

/-- A traversal of the first positions succeeds exactly if all of them do. -/
theorem mapM_range_eq_ok_iff {f : Nat → Except ε β} {n : Nat} {ys : List β} :
    (List.range n).mapM f = .ok ys ↔
      ys.length = n ∧ ∀ k (h : k < ys.length), f k = .ok ys[k] := by
  rw [mapM_eq_ok_iff]
  simp only [List.length_range, List.getElem_range]
  constructor
  · intro h
    exact ⟨h.1, fun k hk => h.2 k (h.1 ▸ hk) hk⟩
  · intro h
    exact ⟨h.1, fun k _ hk => h.2 k hk⟩

/-- A traversal of the first positions fails exactly with the failure of the first that fails. -/
theorem mapM_range_eq_error_iff {f : Nat → Except ε β} {n : Nat} {err : ε} :
    (List.range n).mapM f = .error err ↔
      ∃ k < n, f k = .error err ∧ ∀ j < k, ∃ y, f j = .ok y := by
  rw [mapM_eq_error_iff]
  simp only [List.length_range, List.getElem_range, exists_prop]

/-! ## Without effects of a host -/

/-- Two steps without effects are those of the outcomes. -/
theorem run_bind_id (x : ExceptT ε Id α) (f : α → ExceptT ε Id β) :
    (x >>= f).run.run = x.run.run >>= fun a => (f a).run.run := by
  rw [ExceptT.run_bind]
  change (match x.run.run with
    | .ok a => (f a).run
    | .error err => pure (.error err)).run = _
  cases x.run.run <;> rfl

/-- A traversal without effects is one of outcomes. -/
theorem run_mapM_id (f : α → ExceptT ε Id β) (xs : List α) :
    (xs.mapM f).run.run = xs.mapM fun x => (f x).run.run := by
  induction xs with
  | nil => rfl
  | cons x rest ih =>
      rw [List.mapM_cons, List.mapM_cons, ← ih, run_bind_id]
      congr 1
      funext y
      rw [run_bind_id]
      rfl

end FormulaEngine
