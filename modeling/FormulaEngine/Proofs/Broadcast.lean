import FormulaEngine.Evaluation.Evaluate
import FormulaEngine.Proofs.Outcome
import Mathlib.Data.List.Forall2

/-!
# A broadcast evaluates a tree at each position

At a position every list parameter stands for one of its items.  The map of a position does not
depend on what the positions before it left in the map: each of them writes over all the lists,
under the spellings that the lists have.

* `Parameters.atPosition` -- the parameters of a position;
* `Parameters.LeftBy` -- what the positions before may have left of a map;
* `Parameters.writeNext_eq_atPosition` -- the next items make it the map of the position;
* `Pass.positions_eq_mapM` -- the loop over the positions is a traversal of their maps;
* `Expr.eval_single` -- a pass does not ask whether it is one of many;
* `Expr.evaluate_eq_mapM` -- a broadcast as a traversal of the positions, hooks included;
* `Expr.outcome_broadcast` -- its outcome when there are no hooks: the values of all positions, or
  the failure of the first one that fails.
-/

namespace FormulaEngine

/-- What a value stands for at a position: its item, if it is a list. -/
def Value.atPosition (i : Nat) : Value → Value
  | .list items => items.getD i (.list items)
  | v => v

theorem Value.atPosition_list {i : Nat} {items : List Value} (h : i < items.length) :
    (Value.list items).atPosition i = items[i] := by
  simp [Value.atPosition, h]

/-- Any value but a list stands for itself. -/
theorem Value.atPosition_of_ne_list {i : Nat} {v : Value} (h : ∀ items, v ≠ .list items) :
    v.atPosition i = v := by
  cases v with
  | list items => exact absurd rfl (h items)
  | _ => rfl

namespace Parameters

/-- The parameters of a position: each list is replaced by its item. -/
def atPosition (p : Parameters) (i : Nat) : Parameters where
  entries := p.entries.map fun entry => (entry.1, entry.2.atPosition i)
  ignoreCase := p.ignoreCase
  distinct := by
    rw [List.map_map]
    exact p.distinct

/-- What positions may have left of an entry: its name, and its value unless that is a list. -/
def EntryLeftBy (a b : String × Value) : Prop :=
  b.1 = a.1 ∧ ((∀ items, a.2 ≠ .list items) → b.2 = a.2)

/-- What positions may have left of a map. -/
def LeftBy (p q : Parameters) : Prop :=
  q.ignoreCase = p.ignoreCase ∧ List.Forall₂ EntryLeftBy p.entries q.entries

/-- Nothing has been written at first. -/
theorem leftBy_refl (p : Parameters) : p.LeftBy p :=
  ⟨rfl, List.forall₂_same.2 fun _ _ => ⟨rfl, fun _ => rfl⟩⟩

/-- A position leaves its own parameters. -/
theorem leftBy_atPosition (p : Parameters) (i : Nat) : p.LeftBy (p.atPosition i) := by
  refine ⟨rfl, List.forall₂_map_right_iff.2 (List.forall₂_same.2 fun entry _ => ?_)⟩
  exact ⟨rfl, Value.atPosition_of_ne_list⟩

/-- A name that means an entry means the same one at every position. -/
theorem get?_atPosition (p : Parameters) (i : Nat) (name : String) :
    (p.atPosition i).get? name = (p.get? name).map (·.atPosition i) := by
  unfold get? atPosition
  rw [List.find?_map, Option.map_map, Option.map_map]
  rfl

/-- Maps with the same rule for names are known by their entries. -/
theorem eq_of_entries_eq {p q : Parameters} (hcase : p.ignoreCase = q.ignoreCase)
    (hentries : p.entries = q.entries) : p = q := by
  cases p
  cases q
  cases hcase
  cases hentries
  rfl

/-! ## The next items -/

/-- The list parameters are the entries with a list. -/
theorem mem_lists {p : Parameters} {name : String} {items : List Value} :
    (name, items) ∈ p.lists ↔ (name, Value.list items) ∈ p.entries := by
  unfold lists
  rw [List.mem_filterMap]
  constructor
  · intro h
    obtain ⟨⟨n, value⟩, hmem, h⟩ := h
    cases value with
    | list l =>
        cases h
        exact hmem
    | _ => exact nomatch h
  · intro hmem
    exact ⟨_, hmem, rfl⟩

/-- Writing leaves the rule for names alone. -/
@[simp]
theorem ignoreCase_writeNext (p : Parameters) (sequences : List (String × List Value)) :
    (p.writeNext sequences).ignoreCase = p.ignoreCase := by
  unfold writeNext
  induction sequences generalizing p with
  | nil => rfl
  | cons s rest ih =>
      obtain ⟨name, items⟩ := s
      rw [List.foldl_cons, ih]
      cases items with
      | nil => rfl
      | cons item items => exact ignoreCase_insert p name item

/-- An entry behind others that fail the test is the one replaced. -/
theorem replaceFirst_append {test : String → Bool} {front : List (String × Value)}
    (hfront : ∀ entry ∈ front, test entry.1 = false) {old : String × Value}
    (hold : test old.1 = true) (new : String × Value) (tail : List (String × Value)) :
    replaceFirst test new (front ++ old :: tail) = front ++ new :: tail := by
  induction front with
  | nil => simp [replaceFirst, hold]
  | cons entry rest ih =>
      have hentry := hfront entry List.mem_cons_self
      have hrest := ih fun e he => hfront e (List.mem_cons_of_mem entry he)
      simp only [List.cons_append, replaceFirst, hentry, hrest]
      rfl

/-- A name that an entry has is set in the place of this entry. -/
theorem entries_insert_append {p : Parameters} {front tail : List (String × Value)}
    {name : String} {old : Value} (h : p.entries = front ++ (name, old) :: tail) (new : Value) :
    (p.insert name new).entries = front ++ (name, new) :: tail := by
  have hnodup := p.distinct
  rw [h, List.map_append, List.map_cons] at hnodup
  have hfront : ∀ entry ∈ front, p.agree entry.1 name = false := by
    intro entry hentry
    have hne := (List.nodup_append.1 hnodup).2.2 _ (List.mem_map_of_mem hentry)
      _ List.mem_cons_self
    exact beq_eq_false_iff_ne.2 hne
  have hself : p.agree name name = true := beq_self_eq_true _
  change replaceFirst (p.agree · name) (name, new) p.entries = _
  rw [h]
  exact replaceFirst_append hfront hself (name, new) tail

/-- The items of an entry from a position on, if it is a list. -/
def itemsFrom (i : Nat) : String × Value → Option (String × List Value)
  | (name, .list items) => some (name, items.drop i)
  | _ => none

theorem itemsFrom_of_ne_list (i : Nat) (name : String) {value : Value}
    (h : ∀ items, value ≠ .list items) : itemsFrom i (name, value) = none := by
  cases value with
  | list items => exact absurd rfl (h items)
  | _ => rfl

/-- The list parameters with their items from a position on. -/
def sequences (p : Parameters) (i : Nat) : List (String × List Value) :=
  p.entries.filterMap (itemsFrom i)

/-- All items are still to come at first. -/
theorem sequences_zero (p : Parameters) : p.sequences 0 = p.lists := by
  refine List.filterMap_congr fun entry _ => ?_
  obtain ⟨name, value⟩ := entry
  cases value <;> rfl

/-- A position takes one item of each list. -/
theorem map_tail_sequences (p : Parameters) (i : Nat) :
    (p.sequences i).map (fun (name, items) => (name, items.tail)) = p.sequences (i + 1) := by
  unfold sequences
  rw [List.map_filterMap]
  refine List.filterMap_congr fun entry _ => ?_
  obtain ⟨name, value⟩ := entry
  cases value with
  | list items => simp [itemsFrom]
  | _ => rfl

/-- The next item of a list is written before those of the entries behind it. -/
theorem writeNext_list (q : Parameters) (name : String) {i : Nat} {items : List Value}
    (h : i < items.length) (todo : List (String × Value)) :
    q.writeNext (((name, Value.list items) :: todo).filterMap (itemsFrom i)) =
      (q.insert name items[i]).writeNext (todo.filterMap (itemsFrom i)) := by
  simp only [List.filterMap_cons, itemsFrom, List.drop_eq_getElem_cons h]
  rfl

/-- The next items, written from some entry on.  The entries in front are those of the position
already; those behind still hold what was left there. -/
theorem entries_writeNext (i : Nat) {todo left : List (String × Value)}
    (hleft : List.Forall₂ EntryLeftBy todo left)
    (hlong : ∀ name items, (name, Value.list items) ∈ todo → i < items.length)
    {q : Parameters} {front : List (String × Value)} (hq : q.entries = front ++ left) :
    (q.writeNext (todo.filterMap (itemsFrom i))).entries =
      front ++ todo.map fun entry => (entry.1, entry.2.atPosition i) := by
  induction hleft generalizing q front with
  | nil => exact hq
  | @cons a b todo left hab _ ih =>
      obtain ⟨name, value⟩ := a
      obtain ⟨name', old⟩ := b
      obtain ⟨hname, hscalar⟩ := hab
      change name' = name at hname
      subst name'
      have hrest : ∀ n items, (n, Value.list items) ∈ todo → i < items.length := by
        intro n items hmem
        exact hlong n items (List.mem_cons_of_mem _ hmem)
      -- Either way the entry, as it is at the position, moves to the front.
      have hstep : ∀ r : Parameters, r.entries = front ++ (name, value.atPosition i) :: left →
          (r.writeNext (todo.filterMap (itemsFrom i))).entries =
            front ++ ((name, value) :: todo).map fun entry => (entry.1, entry.2.atPosition i) := by
        intro r hr
        rw [List.append_cons] at hr
        rw [ih hrest hr, List.append_assoc]
        rfl
      by_cases hlist : ∃ items, value = .list items
      · obtain ⟨items, rfl⟩ := hlist
        have hi : i < items.length := hlong name items List.mem_cons_self
        rw [writeNext_list q name hi todo]
        apply hstep
        rw [Value.atPosition_list hi]
        exact entries_insert_append hq items[i]
      · have hvalue : ∀ items, value ≠ .list items := fun items h => hlist ⟨items, h⟩
        have hold : old = value := hscalar hvalue
        rw [List.filterMap_cons_none (itemsFrom_of_ne_list i name hvalue)]
        apply hstep
        rw [Value.atPosition_of_ne_list hvalue, ← hold]
        exact hq

/-- **The map of a position does not depend on the positions before it.** -/
theorem writeNext_eq_atPosition {p q : Parameters} (h : p.LeftBy q) {i : Nat}
    (hlong : ∀ name items, (name, Value.list items) ∈ p.entries → i < items.length) :
    q.writeNext (p.sequences i) = p.atPosition i := by
  refine eq_of_entries_eq ?_ ?_
  · rw [ignoreCase_writeNext, h.1]
    rfl
  · exact entries_writeNext i h.2 hlong (List.nil_append q.entries).symm

end Parameters

/-! ## The loop -/

section Loop

variable {m : Type → Type} [Monad m]

/-- **The loop over the positions is a traversal of their maps**, whatever positions before it
have left. -/
theorem Pass.positions_eq_mapM [LawfulMonad m] (once : Pass m → ExceptT EvalError m Value)
    {p : Parameters} {n : Nat}
    (hlength : ∀ name items, (name, Value.list items) ∈ p.entries → items.length = n)
    (count i : Nat) (hi : i + count = n) (pass : Pass m) (hleft : p.LeftBy pass.parameters) :
    Pass.positions once count (p.sequences i) pass =
      (List.range' i count).mapM fun k => once { pass with parameters := p.atPosition k } := by
  induction count generalizing i pass with
  | zero => rfl
  | succ count ih =>
      have hlong : ∀ name items, (name, Value.list items) ∈ p.entries → i < items.length := by
        intro name items hmem
        have hn := hlength name items hmem
        omega
      have hwrite := Parameters.writeNext_eq_atPosition hleft hlong
      have hrest := ih (i + 1) (by omega) { pass with parameters := p.atPosition i }
        (p.leftBy_atPosition i)
      rw [List.range'_succ, List.mapM_cons]
      unfold Pass.positions
      simp only [hwrite, Parameters.map_tail_sequences, hrest]

/-- Lists of one length are broadcast over. -/
theorem Pass.broadcast_eq_mapM [LawfulMonad m] (once : Pass m → ExceptT EvalError m Value)
    (pass : Pass m) {n : Nat}
    (hsome : ∃ name items, (name, Value.list items) ∈ pass.parameters.entries)
    (hlength : ∀ name items, (name, Value.list items) ∈ pass.parameters.entries →
      items.length = n) :
    pass.broadcast once = Value.list <$> (List.range n).mapM fun k =>
      once { pass with parameters := pass.parameters.atPosition k } := by
  have hlists : ∀ s ∈ pass.parameters.lists, s.2.length = n := by
    intro s hs
    exact hlength s.1 s.2 (Parameters.mem_lists.1 hs)
  have hloop := Pass.positions_eq_mapM once hlength n 0 (Nat.zero_add n) pass
    pass.parameters.leftBy_refl
  rw [Parameters.sequences_zero, ← List.range_eq_range'] at hloop
  obtain ⟨name, items, hmem⟩ := hsome
  have hin := Parameters.mem_lists.2 hmem
  unfold Pass.broadcast
  cases hcons : pass.parameters.lists with
  | nil =>
      rw [hcons] at hin
      exact absurd hin List.not_mem_nil
  | cons s rest =>
      rw [hcons] at hlists hloop
      have hfirst : s.2.length = n := hlists s List.mem_cons_self
      have hall : rest.all (·.2.length == s.2.length) = true := by
        apply List.all_eq_true.2
        intro r hr
        apply beq_iff_eq.2
        rw [hlists r (List.mem_cons_of_mem _ hr), hfirst]
      change (if rest.all (·.2.length == s.2.length) then _ else _) = _
      rw [if_pos hall, hfirst, hloop, bind_pure_comp]

/-- Lists of different lengths are refused. -/
theorem Pass.broadcast_of_length_ne (once : Pass m → ExceptT EvalError m Value) (pass : Pass m)
    {a b : String} {as bs : List Value} (ha : (a, Value.list as) ∈ pass.parameters.entries)
    (hb : (b, Value.list bs) ∈ pass.parameters.entries) (hne : as.length ≠ bs.length) :
    pass.broadcast once = throw .unequalLists := by
  have ha' := Parameters.mem_lists.2 ha
  have hb' := Parameters.mem_lists.2 hb
  unfold Pass.broadcast
  cases hcons : pass.parameters.lists with
  | nil =>
      rw [hcons] at ha'
      exact absurd ha' List.not_mem_nil
  | cons s rest =>
      rw [hcons] at ha' hb'
      apply if_neg
      intro hall
      -- All lists would have the length of the first.
      have hfirst : ∀ r ∈ s :: rest, r.2.length = s.2.length := by
        intro r hr
        rcases List.mem_cons.1 hr with rfl | hr
        · rfl
        · exact eq_of_beq (List.all_eq_true.1 hall r hr)
      exact hne ((hfirst _ ha').trans (hfirst _ hb').symm)

end Loop

/-! ## One pass -/

section OnePass

variable {m : Type → Type} [Monad m]

/-- The same pass for a single evaluation. -/
def Pass.single (pass : Pass m) : Pass m := { pass with options := pass.options.singlePass }

/-- A built-in function does not ask whether the pass is one of many. -/
theorem Builtin.call_singlePass (f : Builtin) (options : Options) (args : List Value) :
    f.call options.singlePass args = f.call options args := by
  unfold Builtin.call Builtin.apply
  rfl

/-- The arguments for a hook are evaluated in single passes anyway. -/
theorem lazyArguments_single (arguments : List Expr) (pass : Pass m) :
    lazyArguments arguments pass.single = lazyArguments arguments pass := by
  induction arguments with
  | nil => rfl
  | cons e rest ih =>
      unfold lazyArguments
      rw [ih]
      rfl

theorem evalAll_single {arguments : List Expr} {pass : Pass m}
    (h : ∀ e ∈ arguments, e.eval pass.single = e.eval pass) :
    evalAll arguments pass.single = evalAll arguments pass := by
  induction arguments with
  | nil => rfl
  | cons e rest ih =>
      have hrest := ih fun d hd => h d (List.mem_cons_of_mem e hd)
      unfold evalAll
      rw [h e List.mem_cons_self, hrest]

theorem evalChoice_single {arguments : List Expr} {pass : Pass m}
    (h : ∀ e ∈ arguments, e.eval pass.single = e.eval pass) :
    evalChoice arguments pass.single = evalChoice arguments pass := by
  match arguments, h with
  | [condition, yes, no], h =>
      unfold evalChoice
      rw [h condition (by simp), h yes (by simp), h no (by simp)]
  | [], _ => rfl
  | [_], _ => rfl
  | [_, _], _ => rfl
  | _ :: _ :: _ :: _ :: _, _ => rfl

/-- **A pass does not ask whether it is one of many.** -/
theorem Expr.eval_single (e : Expr) (pass : Pass m) : e.eval pass.single = e.eval pass := by
  induction e using Expr.byParts with
  | literal l => rfl
  | parameter name => rfl
  | call name arguments ih =>
      unfold Expr.eval
      rw [lazyArguments_single, evalAll_single ih, evalChoice_single ih]
      simp only [Pass.single, Builtin.call_singlePass]
      rfl
  | unary op operand ih =>
      unfold Expr.eval
      rw [ih]
  | binary op left right ihl ihr =>
      unfold Expr.eval
      rw [ihl, ihr]
  | conditional condition yes no ihc ihy ihn =>
      unfold Expr.eval
      rw [ihc, ihy, ihn]

/-- With the option to iterate, a tree is broadcast. -/
theorem Expr.evaluate_of_iterate (e : Expr) {pass : Pass m}
    (h : pass.options.iterate = true) :
    e.evaluate pass = pass.broadcast fun p => e.eval p := if_pos h

/-- A single evaluation is one pass. -/
theorem Expr.evaluate_single (e : Expr) (pass : Pass m) : e.evaluate pass.single = e.eval pass := by
  unfold Expr.evaluate Pass.run
  rw [if_neg (by simp [Pass.single, Options.singlePass])]
  exact e.eval_single pass

/-- **A broadcast evaluates the tree once for each position**, each time as a single evaluation
under the parameters of the position.  What hooks do happens in the order of the positions. -/
theorem Expr.evaluate_eq_mapM [LawfulMonad m] (e : Expr) (pass : Pass m) {n : Nat}
    (hiterate : pass.options.iterate = true)
    (hsome : ∃ name items, (name, Value.list items) ∈ pass.parameters.entries)
    (hlength : ∀ name items, (name, Value.list items) ∈ pass.parameters.entries →
      items.length = n) :
    e.evaluate pass = Value.list <$> (List.range n).mapM fun k =>
      e.evaluate { pass with
        options := pass.options.singlePass
        parameters := pass.parameters.atPosition k } := by
  rw [e.evaluate_of_iterate hiterate, Pass.broadcast_eq_mapM _ pass hsome hlength]
  congr 2
  funext k
  exact (e.evaluate_single { pass with parameters := pass.parameters.atPosition k }).symm

end OnePass

/-! ## The outcome without hooks -/

/-- The outcome of a tree when there are no hooks. -/
def Expr.outcome (e : Expr) (options : Options) (parameters : Parameters) :
    Except EvalError Value :=
  (e.evaluate (m := Id) { options, parameters }).run.run

/-- The outcome of a broadcast as a traversal of the positions. -/
theorem Expr.outcome_eq_mapM (e : Expr) {options : Options} {p : Parameters} {n : Nat}
    (hiterate : options.iterate = true)
    (hsome : ∃ name items, (name, Value.list items) ∈ p.entries)
    (hlength : ∀ name items, (name, Value.list items) ∈ p.entries → items.length = n) :
    e.outcome options p = Value.list <$> (List.range n).mapM fun k =>
      e.outcome options.singlePass (p.atPosition k) := by
  have h := e.evaluate_eq_mapM (m := Id) { options, parameters := p } hiterate hsome hlength
  unfold Expr.outcome
  rw [h, ← run_mapM_id, ExceptT.run_map]
  rfl

/-- Without list parameters there are no positions. -/
theorem Expr.outcome_of_no_lists (e : Expr) {options : Options} {p : Parameters}
    (hiterate : options.iterate = true)
    (hnone : ∀ name items, (name, Value.list items) ∉ p.entries) :
    e.outcome options p = .ok (.list []) := by
  have hlists : p.lists = [] := by
    refine List.eq_nil_iff_forall_not_mem.2 ?_
    intro s hmem
    exact hnone s.1 s.2 (Parameters.mem_lists.1 hmem)
  unfold Expr.outcome
  rw [e.evaluate_of_iterate hiterate, Pass.broadcast_of_lists_eq_nil _ hlists]
  rfl

/-- List parameters of different lengths are refused before any evaluation. -/
theorem Expr.outcome_of_length_ne (e : Expr) {options : Options} {p : Parameters}
    (hiterate : options.iterate = true) {a b : String} {as bs : List Value}
    (ha : (a, Value.list as) ∈ p.entries) (hb : (b, Value.list bs) ∈ p.entries)
    (hne : as.length ≠ bs.length) : e.outcome options p = .error .unequalLists := by
  unfold Expr.outcome
  rw [e.evaluate_of_iterate hiterate, Pass.broadcast_of_length_ne _ _ ha hb hne]
  rfl

/-- **A broadcast is the pointwise map of single evaluations.**  Without lists it is empty, lists
of different lengths are refused, and lists of one length are gone through together: the outcome
is the list of the values at all positions, or the failure of the first position that fails. -/
theorem Expr.outcome_broadcast (e : Expr) (options : Options) (p : Parameters)
    (hiterate : options.iterate = true) :
    ((∀ name items, (name, Value.list items) ∉ p.entries) →
      e.outcome options p = .ok (.list [])) ∧
    (∀ a as b bs, (a, Value.list as) ∈ p.entries → (b, Value.list bs) ∈ p.entries →
      as.length ≠ bs.length → e.outcome options p = .error .unequalLists) ∧
    (∀ n, (∃ name items, (name, Value.list items) ∈ p.entries) →
      (∀ name items, (name, Value.list items) ∈ p.entries → items.length = n) →
      (∀ v, e.outcome options p = .ok v ↔
        ∃ vs : List Value, v = .list vs ∧ vs.length = n ∧
          ∀ k (h : k < vs.length), e.outcome options.singlePass (p.atPosition k) = .ok vs[k]) ∧
      (∀ err, e.outcome options p = .error err ↔
        ∃ k < n, e.outcome options.singlePass (p.atPosition k) = .error err ∧
          ∀ j < k, ∃ v, e.outcome options.singlePass (p.atPosition j) = .ok v)) := by
  refine ⟨e.outcome_of_no_lists hiterate, fun a as b bs => e.outcome_of_length_ne hiterate, ?_⟩
  intro n hsome hlength
  rw [e.outcome_eq_mapM hiterate hsome hlength]
  constructor
  · intro v
    rw [map_eq_ok_iff]
    constructor
    · intro h
      obtain ⟨vs, hvs, hv⟩ := h
      exact ⟨vs, hv, mapM_range_eq_ok_iff.1 hvs⟩
    · intro h
      obtain ⟨vs, hv, hvs⟩ := h
      exact ⟨vs, mapM_range_eq_ok_iff.2 hvs, hv⟩
  · intro err
    rw [map_eq_error_iff]
    exact mapM_range_eq_error_iff

end FormulaEngine
