import FormulaEngine.Grammar.Parser
import FormulaEngine.Grammar.Reader

/-!
# The parser follows the readers

At every cursor the parser of a rule answers what the reader of that rule, which may open the levels
that are left, makes of the tokens ahead.  In particular it comes back: between two tokens at most
seven calls are made inside of one another, so that eight for each token are enough.

* `Onward` -- the levels are closed again and no token comes back;
* `Parser.Follows` -- a parser comes back with the outcome of a reader;
* `Parser.Follows.bind`, `Parser.Follows.eat`, `Parser.Follows.expect` -- parsers one after the
  other;
* `Parser.Call.rank` -- how many calls a call may need before a token is taken;
* `Parser.follows_nested` -- the parsers of the rules that open a level;
* `Parser.formula_answer` -- the parser of a whole list of tokens.
-/

namespace FormulaEngine

/-- The cursor one token further on. -/
def Cursor.next (s : Cursor) : Cursor := { s with index := s.index + 1 }

/-- The tokens ahead of a cursor. -/
def Input.ahead (input : Input) (s : Cursor) : List Located := input.tokens.toList.drop s.index

/-- From the first cursor to the second one no token comes back, and every level that was opened has
been closed again. -/
structure Onward (input : Input) (s s' : Cursor) : Prop where
  depth : s'.depth = s.depth
  forward : s.index ≤ s'.index
  inside : s'.index ≤ input.tokens.size

section Cursors

variable {input : Input} {s s' s'' : Cursor}

theorem Onward.refl (hs : s.index ≤ input.tokens.size) : Onward input s s :=
  ⟨rfl, Nat.le_refl _, hs⟩

theorem Onward.trans (h : Onward input s s') (h' : Onward input s' s'') : Onward input s s'' :=
  ⟨h'.depth.trans h.depth, Nat.le_trans h.forward h'.forward, h'.inside⟩

namespace Input

theorem head?_ahead (input : Input) (s : Cursor) : (input.ahead s).head? = input.current? s := by
  simp [ahead, current?, List.head?_drop]

theorem length_ahead (input : Input) (s : Cursor) :
    (input.ahead s).length = input.tokens.size - s.index := by
  simp [ahead]

theorem position_ahead (input : Input) (s : Cursor) :
    Reader.position input.textEnd (input.ahead s) = input.position s := by
  rw [position, ← head?_ahead]
  cases input.ahead s <;> rfl

/-- A next token is the first one ahead, and a cursor can go past it. -/
theorem ahead_of_token {t : Located} (h : input.current? s = some t) :
    input.ahead s = t :: input.ahead s.next ∧ Onward input s s.next := by
  obtain ⟨hlt, rfl⟩ := Array.getElem?_eq_some_iff.1 h
  refine ⟨?_, rfl, Nat.le_succ _, hlt⟩
  rw [ahead, List.drop_eq_getElem_cons (by simpa using hlt)]
  rfl

/-- Without a next token there is none ahead. -/
theorem ahead_of_end (h : input.current? s = none) : input.ahead s = [] := by
  rw [← List.head?_eq_none_iff, head?_ahead, h]

end Input

/-- Fewer tokens are ahead of a cursor further on. -/
theorem Onward.length_ahead_lt (h : Onward input s s') (hlt : s.index < s'.index) :
    (input.ahead s').length < (input.ahead s).length := by
  have hinside := h.inside
  rw [Input.length_ahead, Input.length_ahead]
  omega

end Cursors

namespace Parser

variable {α β : Type} {input : Input} {s : Cursor} {least : Nat}

theorem answer_bind_of_ok {p : Parser α} {f : α → Parser β} {a : α} {s' : Cursor}
    (h : p.answer s = some (.ok a, s')) : (p >>= f).answer s = (f a).answer s' := by
  change ((p.answer s).bind fun r => _) = _
  rw [h]
  rfl

theorem answer_bind_of_error {p : Parser α} {f : α → Parser β} {e : SyntaxError} {s' : Cursor}
    (h : p.answer s = some (.error e, s')) : (p >>= f).answer s = some (.error e, s') := by
  change ((p.answer s).bind fun r => _) = _
  rw [h]
  rfl

/-- A parser comes back from a cursor with the outcome that a reader has on the tokens ahead.
Whether it takes something or refuses it, the levels that it has opened are closed again; what it
takes ends at the index `least` or further on. -/
inductive Follows (input : Input) (least : Nat) (p : Parser α) (s : Cursor) :
    Except SyntaxError (α × List Located) → Prop
  | takes {a : α} {s' : Cursor} (hp : p.answer s = some (.ok a, s')) (h : Onward input s s')
      (hleast : least ≤ s'.index) : Follows input least p s (.ok (a, input.ahead s'))
  | refuses {e : SyntaxError} {s' : Cursor} (hp : p.answer s = some (.error e, s'))
      (h : Onward input s s') : Follows input least p s (.error e)

/-! ## Parsers one after the other -/

namespace Follows

variable {p : Parser α} {f : α → Parser β} {x : Except SyntaxError (α × List Located)}
  {y : Except SyntaxError (β × List Located)}

theorem done (hs : s.index ≤ input.tokens.size) (hleast : least ≤ s.index) (a : α) :
    Follows input least (pure a) s (.ok (a, input.ahead s)) :=
  .takes rfl (.refl hs) hleast

theorem fault (hs : s.index ≤ input.tokens.size) (e : SyntaxError) :
    Follows input least (throw e : Parser α) s (.error e) :=
  .refuses rfl (.refl hs)

theorem mono {more : Nat} (h : Follows input more p s x) (hle : least ≤ more) :
    Follows input least p s x := by
  cases h with
  | takes hp h hmore => exact .takes hp h (Nat.le_trans hle hmore)
  | refuses hp h => exact .refuses hp h

/-- A parser that answers as another one does from a cursor further on. -/
theorem goesOn {q : Parser α} {s' : Cursor} (h : Follows input least q s' x)
    (hpq : p.answer s = q.answer s') (hs : Onward input s s') : Follows input least p s x := by
  cases h with
  | takes hp h hleast => exact .takes (hpq.trans hp) (hs.trans h) hleast
  | refuses hp h => exact .refuses (hpq.trans hp) (hs.trans h)

/-- **Parsers one after the other** follow readers one after the other. -/
theorem bind {k : α × List Located → Except SyntaxError (β × List Located)} {first : Nat}
    (h : Follows input first p s x)
    (hf : ∀ a s', Onward input s s' → first ≤ s'.index →
      Follows input least (f a) s' (k (a, input.ahead s'))) :
    Follows input least (p >>= f) s (x >>= k) := by
  cases h with
  | takes hp h hfirst => exact (hf _ _ h hfirst).goesOn (answer_bind_of_ok hp) h
  | refuses hp h => exact .refuses (answer_bind_of_error hp) h

/-- A look at the next token. -/
theorem look {f : Option Located → Parser β}
    (h : Follows input least (f (input.current? s)) s y) :
    Follows input least (next? input >>= f) s y := by
  cases h with
  | takes hp h hleast => exact .takes hp h hleast
  | refuses hp h => exact .refuses hp h

/-- Past the next token. -/
theorem advance {f : Unit → Parser β} (hs : Onward input s s.next)
    (h : Follows input least (f ()) s.next y) : Follows input least (advance >>= f) s y :=
  h.goesOn rfl hs

/-- Past a symbol if it comes next, or on the spot. -/
theorem eat {sym : Symbol} {f : Bool → Parser β}
    (hyes : Onward input s s.next →
      Reader.accept? sym (input.ahead s) = some (input.ahead s.next) →
      Follows input least (f true) s.next y)
    (hno : Reader.accept? sym (input.ahead s) = none → Follows input least (f false) s y) :
    Follows input least (eat input sym >>= f) s y := by
  unfold Parser.eat
  rw [bind_assoc]
  refine look ?_
  cases ht : input.current? s with
  | none =>
      refine hno ?_
      rw [Input.ahead_of_end ht]
      rfl
  | some t =>
      obtain ⟨hahead, hs⟩ := Input.ahead_of_token ht
      by_cases hsym : t.token = .symbol sym
      · simp only [hsym, if_true]
        refine advance (f := fun _ => f true) hs (hyes hs ?_)
        rw [hahead, Reader.accept?, if_pos hsym]
      · simp only [hsym, if_false]
        refine hno ?_
        rw [hahead, Reader.accept?, if_neg hsym]

/-- Past a symbol that must come next. -/
theorem expect {sym : Symbol} {what : Expectation} {f : Unit → Parser β}
    {k : List Located → Except SyntaxError (β × List Located)} (hs : s.index ≤ input.tokens.size)
    (h : Onward input s s.next → Follows input least (f ()) s.next (k (input.ahead s.next))) :
    Follows input least (expect input sym what >>= f) s
      (Reader.expect input.textEnd sym what (input.ahead s) >>= k) := by
  unfold Parser.expect
  rw [bind_assoc]
  refine look ?_
  cases ht : input.current? s with
  | none =>
      rw [Input.ahead_of_end ht]
      exact fault hs _
  | some t =>
      obtain ⟨hahead, hnext⟩ := Input.ahead_of_token ht
      rw [hahead, Reader.expect]
      by_cases hsym : t.token = .symbol sym
      · simp only [hsym, if_true]
        exact advance hnext (h hnext)
      · simp only [hsym, if_false]
        exact fault hs _

end Follows

/-! ## The rules -/

/-- How many calls inside of one another a call may need before a token is taken, itself
included. -/
def Call.rank : Call → Nat
  | .primary | .operators _ _ => 1
  | .unary => 2
  | .binary _ | .operand => 3
  | .conditional => 4
  | .expression => 5
  | .arguments _ _ => 6
  | .function _ => 7

theorem Call.rank_pos (c : Call) : 0 < c.rank := by
  cases c <;> simp [rank]

theorem Call.rank_le (c : Call) : c.rank ≤ 7 := by
  cases c <;> simp [rank]

/-- This number of calls inside of one another is enough for a call: eight for each token ahead, and
those that are made in front of the next one. -/
def Enough (input : Input) (calls : Nat) (c : Call) (s : Cursor) : Prop :=
  8 * (input.ahead s).length + c.rank ≤ calls

section Enough

variable {calls : Nat} {c c' : Call} {s' : Cursor}

theorem Enough.more (h : Enough input calls c s) : Enough input (calls + 1) c s :=
  Nat.le_succ_of_le h

/-- At least the call itself is made. -/
theorem Enough.exists_succ (h : Enough input calls c s) : ∃ n, calls = n + 1 := by
  have hpos := c.rank_pos
  unfold Enough at h
  exact ⟨calls - 1, by omega⟩

/-- What is enough for a call is enough for one of lower rank inside of it. -/
theorem Enough.inner (h : Enough input (calls + 1) c s) (hrank : c'.rank < c.rank) :
    Enough input calls c' s := by
  unfold Enough at *
  omega

/-- What is enough for a call is enough for any one inside of it behind a further token. -/
theorem Enough.behind (h : Enough input (calls + 1) c s) (c' : Call) (hs : Onward input s s')
    (hlt : s.index < s'.index) : Enough input calls c' s' := by
  have hlength := hs.length_ahead_lt hlt
  have hpos := c.rank_pos
  have hle := c'.rank_le
  unfold Enough at *
  omega

end Enough

/-- The allowance is enough for every call. -/
theorem enough_allowance (input : Input) (c : Call) (s : Cursor) :
    Enough input (input.allowance s) c s := by
  have hle := c.rank_le
  rw [Enough, Input.length_ahead, Input.allowance]
  omega

/-- The parser of a call follows a reader wherever this number of levels is open, and what it takes
has a token. -/
def FollowsAt (input : Input) (depth : Nat) (c : Call) (r : Reader Expr) : Prop :=
  ∀ calls s, s.depth = depth → s.index ≤ input.tokens.size → Enough input calls c s →
    Follows input (s.index + 1) (within input calls c) s (r (input.ahead s))

section Rules

variable {depth : Nat} {E O u r : Reader Expr}

/-- A call is what its rule makes of the calls that are left. -/
theorem FollowsAt.of_rule {c : Call}
    (h : ∀ calls s, s.depth = depth → s.index ≤ input.tokens.size → Enough input (calls + 1) c s →
      Follows input (s.index + 1) (rule input (within input calls) c) s (r (input.ahead s))) :
    FollowsAt input depth c r := by
  intro calls s hd hs hcalls
  obtain ⟨calls, rfl⟩ := hcalls.exists_succ
  exact h calls s hd hs hcalls

/-- The loop over arguments, from behind an argument.  By induction on a bound on the tokens
ahead. -/
theorem follows_moreArguments {c : Call} (hE : FollowsAt input depth .expression E) (name : String)
    (bound calls : Nat) (s : Cursor) (before : Array Expr) (e : Expr) (hd : s.depth = depth)
    (hs : s.index ≤ input.tokens.size) (hleast : least ≤ s.index)
    (hbound : (input.ahead s).length ≤ bound) (hcalls : Enough input (calls + 1) c s) :
    Follows input least (moreArguments input (within input calls) name (before.push e)) s (do
      let (more, ts) ← Reader.repeated (Reader.nextArgument E) bound (input.ahead s)
      let ts ← Reader.expect input.textEnd .rightParen .commaOrClosing ts
      .ok (.call name (before.toList ++ e :: more), ts)) := by
  induction bound using Nat.strongRecOn generalizing calls s before e c with
  | ind bound ih =>
      rw [moreArguments]
      refine .eat (fun hnext hcomma => ?_) fun hcomma => ?_
      · have hlength := hnext.length_ahead_lt (Nat.lt_succ_self _)
        obtain ⟨bound, rfl⟩ : ∃ n, bound = n + 1 := ⟨bound - 1, by omega⟩
        have hstep : Reader.nextArgument E (input.ahead s) = some (E (input.ahead s.next)) := by
          rw [Reader.nextArgument, hcomma, Option.map_some]
        have hcalls : Enough input calls (.arguments name (before.push e)) s.next :=
          hcalls.behind _ hnext (Nat.lt_succ_self _)
        obtain ⟨calls, rfl⟩ := hcalls.exists_succ
        simp only [Reader.repeated, hstep, bind_assoc, if_true]
        rw [within, rule]
        have hargument := hE calls s.next (hnext.depth.trans hd) hnext.inside
          (hcalls.inner (Nat.lt_succ_self _))
        refine hargument.bind fun e' s' hs' hlt => ?_
        have hlength' := hs'.length_ahead_lt hlt
        have hrest := ih bound (Nat.lt_succ_self _) calls s' (before.push e) e'
          (hs'.depth.trans (hnext.depth.trans hd)) hs'.inside
          (Nat.le_trans hleast (hnext.trans hs').forward) (by omega)
          (hcalls.behind .expression hs' hlt).more
        have hlist : ∀ more, (before.push e).toList ++ e' :: more =
            before.toList ++ e :: e' :: more := by simp
        simp only [hlist] at hrest
        exact hrest
      · have hend : Reader.nextArgument E (input.ahead s) = none := by
          rw [Reader.nextArgument, hcomma, Option.map_none]
        simp only [Reader.repeated_of_none hend]
        refine Follows.expect hs fun hclose => ?_
        rw [Array.toList_push]
        exact .done hclose.inside (Nat.le_trans hleast hclose.forward) _

theorem follows_arguments (hE : FollowsAt input depth .expression E) (name : String)
    (before : Array Expr) : FollowsAt input depth (.arguments name before) (fun ts => do
      let (first, ts) ← E ts
      let (more, ts) ← Reader.many (Reader.nextArgument E) ts
      let ts ← Reader.expect input.textEnd .rightParen .commaOrClosing ts
      .ok (.call name (before.toList ++ first :: more), ts)) := by
  refine .of_rule fun calls s hd hs hcalls => ?_
  have hargument := hE calls s hd hs (hcalls.inner (Nat.lt_succ_self _))
  refine hargument.bind fun e s' hs' hlt => ?_
  exact follows_moreArguments hE name _ calls s' before e (hs'.depth.trans hd) hs'.inside hlt
    (Nat.le_refl _) (hcalls.behind .expression hs' hlt).more

theorem follows_function (hE : FollowsAt input depth .expression E) (name : String) :
    FollowsAt input depth (.function name) (fun ts => do
      let (es, ts) ← Reader.arguments input.textEnd E ts
      .ok (.call name es, ts)) := by
  refine .of_rule fun calls s hd hs hcalls => ?_
  rw [rule, Reader.arguments]
  refine .eat (fun hnext hclose => ?_) fun hclose => ?_
  · simp only [hclose]
    exact .done hnext.inside (Nat.le_refl _) _
  · simp only [hclose, bind_assoc]
    rw [if_neg Bool.false_ne_true]
    exact follows_arguments hE name #[] calls s hd hs (hcalls.inner (Nat.lt_succ_self _))

theorem follows_primary (hE : FollowsAt input depth .expression E) :
    FollowsAt input depth .primary (Reader.primary input.textEnd E) := by
  refine .of_rule fun calls s hd hs hcalls => ?_
  rw [rule, primary]
  refine .look ?_
  cases ht : input.current? s with
  | none =>
      rw [Input.ahead_of_end ht]
      exact .fault hs _
  | some t =>
      obtain ⟨hahead, hnext⟩ := Input.ahead_of_token ht
      have hdepth : s.next.depth = depth := hnext.depth.trans hd
      rw [hahead, Reader.primary]
      refine Follows.advance hnext ?_
      cases htoken : t.token with
      | literal l => exact .done hnext.inside (Nat.le_refl _) _
      | name name =>
          refine .eat (fun hopen hcall => ?_) fun hcall => ?_
          · simp only [hcall]
            have hfunction := follows_function hE name calls s.next.next
              (hopen.depth.trans hdepth) hopen.inside
              (hcalls.behind _ (hnext.trans hopen) (Nat.lt_succ_of_le hnext.forward))
            exact hfunction.mono (Nat.le_succ_of_le hopen.forward)
          · simp only [hcall]
            exact .done hnext.inside (Nat.le_refl _) _
      | symbol sym =>
          by_cases hsym : sym = .leftParen
          · simp only [hsym, if_true]
            have hinner := hE calls s.next hdepth hnext.inside
              (hcalls.behind _ hnext (Nat.lt_succ_self _))
            refine hinner.bind fun e s' hs' hlt => ?_
            refine Follows.expect hs'.inside fun hclose => ?_
            exact .done hclose.inside (Nat.le_trans (Nat.le_of_lt hlt) hclose.forward) _
          · simp only [hsym, if_false]
            exact .fault hnext.inside _

theorem follows_unary (hE : FollowsAt input depth .expression E)
    (hO : FollowsAt input depth .operand O) :
    FollowsAt input depth .unary (Reader.unary input.textEnd E O) := by
  refine .of_rule fun calls s hd hs hcalls => ?_
  rw [rule, unary, Reader.unary, Input.head?_ahead]
  refine .look ?_
  cases hop : (input.current? s).bind (·.token.unary?) with
  | none => exact follows_primary hE calls s hd hs (hcalls.inner (by decide))
  | some op =>
      obtain ⟨t, ht, -⟩ := Option.bind_eq_some_iff.1 hop
      obtain ⟨hahead, hnext⟩ := Input.ahead_of_token ht
      rw [hahead, List.tail_cons]
      refine Follows.advance hnext ?_
      have hoperand := hO calls s.next (hnext.depth.trans hd) hnext.inside
        (hcalls.behind _ hnext (Nat.lt_succ_self _))
      refine hoperand.bind fun e s' hs' hlt => ?_
      exact .done hs'.inside (Nat.le_of_lt hlt) _

/-- The next operator of at least a level, and the operand behind it. -/
theorem nextOperand_ahead {level : Nat} {op : BinaryOp} {t : Located} {rest : List Located}
    (hop : (input.current? s).bind (·.token.binary?) = some op) (hlevel : level ≤ op.precedence)
    (hahead : input.ahead s = t :: rest) :
    Reader.nextOperand level (fun op _ => Reader.climb u (op.precedence + 1)) (input.ahead s) =
      some (do
        let (e, ts) ← Reader.climb u (op.precedence + 1) rest
        .ok ((op, e), ts)) := by
  simp only [Reader.nextOperand, Input.head?_ahead, hop, hlevel, dif_pos]
  rw [hahead]
  rfl

/-- No next operator of at least a level. -/
theorem nextOperand_ahead_eq_none (u : Reader Expr) (level : Nat)
    (h : ∀ op, (input.current? s).bind (·.token.binary?) = some op → op.precedence < level) :
    Reader.nextOperand level (fun op _ => Reader.climb u (op.precedence + 1)) (input.ahead s) =
      none := by
  cases hop : (input.current? s).bind (·.token.binary?) with
  | none => simp [Reader.nextOperand, Input.head?_ahead, hop]
  | some op => simp [Reader.nextOperand, Input.head?_ahead, hop, h op hop]

/-- The loop over binary operators.  By induction on a bound on the tokens ahead. -/
theorem follows_operators {level : Nat}
    (h : ∀ op : BinaryOp, level ≤ op.precedence →
      FollowsAt input depth (.binary (op.precedence + 1)) (Reader.climb u (op.precedence + 1)))
    (bound calls : Nat) (s : Cursor) (left : Expr) (hd : s.depth = depth)
    (hs : s.index ≤ input.tokens.size) (hleast : least ≤ s.index)
    (hbound : (input.ahead s).length ≤ bound)
    (hcalls : Enough input calls (.operators level left) s) :
    Follows input least (within input calls (.operators level left)) s (do
      let (more, ts) ← Reader.repeated
        (Reader.nextOperand level fun op _ => Reader.climb u (op.precedence + 1)) bound
        (input.ahead s)
      .ok (more.foldl (fun left (op, right) => .binary op left right) left, ts)) := by
  induction bound using Nat.strongRecOn generalizing calls s left with
  | ind bound ih =>
      obtain ⟨calls, rfl⟩ := hcalls.exists_succ
      rw [within, rule, operators]
      refine .look ?_
      cases hop : (input.current? s).bind (·.token.binary?) with
      | none =>
          have hstop := nextOperand_ahead_eq_none u level fun op h => nomatch hop.symm.trans h
          simp only [Reader.repeated_of_none hstop]
          exact .done hs hleast left
      | some op =>
          by_cases hlevel : op.precedence < level
          · have hstop := nextOperand_ahead_eq_none u level fun op' h => by
              rw [← Option.some.inj (hop.symm.trans h)]
              exact hlevel
            simp only [Reader.repeated_of_none hstop, if_pos hlevel]
            exact .done hs hleast left
          · obtain ⟨t, ht, -⟩ := Option.bind_eq_some_iff.1 hop
            obtain ⟨hahead, hnext⟩ := Input.ahead_of_token ht
            have hlength := hnext.length_ahead_lt (Nat.lt_succ_self _)
            obtain ⟨bound, rfl⟩ : ∃ n, bound = n + 1 := ⟨bound - 1, by omega⟩
            have hnot := Nat.not_lt.1 hlevel
            simp only [Reader.repeated, nextOperand_ahead hop hnot hahead, bind_assoc,
              if_neg hlevel]
            refine Follows.advance hnext ?_
            have hright := h op hnot calls s.next (hnext.depth.trans hd) hnext.inside
              (hcalls.behind _ hnext (Nat.lt_succ_self _))
            refine hright.bind fun right s' hs' hlt => ?_
            have hlength' := hs'.length_ahead_lt hlt
            exact ih bound (Nat.lt_succ_self _) calls s' (.binary op left right)
              (hs'.depth.trans (hnext.depth.trans hd)) hs'.inside
              (Nat.le_trans hleast (hnext.trans hs').forward) (by omega)
              (hcalls.behind _ (hnext.trans hs') (Nat.lt_trans (Nat.lt_succ_self _) hlt))

/-- By induction from the tightest level down. -/
theorem follows_binary (hu : FollowsAt input depth .unary u) (level : Nat) :
    FollowsAt input depth (.binary level) (Reader.climb u level) := by
  obtain ⟨d, hd⟩ : ∃ d, d = 11 - level := ⟨_, rfl⟩
  induction d using Nat.strongRecOn generalizing level with
  | ind d ih =>
      have htighter : ∀ op : BinaryOp, level ≤ op.precedence → FollowsAt input depth
          (.binary (op.precedence + 1)) (Reader.climb u (op.precedence + 1)) := by
        intro op hl
        have hle := op.precedence_lt_unary .not
        simp only [UnaryOp.precedence] at hle
        exact ih (11 - (op.precedence + 1)) (by omega) _ rfl
      refine .of_rule fun calls s hdepth hs hcalls => ?_
      rw [rule, Reader.climb]
      have hfirst := hu calls s hdepth hs (hcalls.inner (Nat.lt_succ_self _))
      refine hfirst.bind fun first s' hs' hlt => ?_
      exact follows_operators htighter _ calls s' first (hs'.depth.trans hdepth) hs'.inside hlt
        (Nat.le_refl _) (hcalls.behind _ hs' hlt)

theorem follows_conditional (hE : FollowsAt input depth .expression E)
    (hu : FollowsAt input depth .unary u) :
    FollowsAt input depth .conditional (Reader.conditional input.textEnd E u) := by
  refine .of_rule fun calls s hd hs hcalls => ?_
  rw [rule, conditional, Reader.conditional]
  have hcondition := follows_binary hu 1 calls s hd hs (hcalls.inner (Nat.lt_succ_self _))
  refine hcondition.bind fun c s₁ h₁ hlt₁ => ?_
  refine .eat (fun hnext hquestion => ?_) fun hquestion => ?_
  · simp only [hquestion, if_true]
    have h₂ := h₁.trans hnext
    have hlt₂ : s.index < s₁.next.index := Nat.lt_succ_of_lt hlt₁
    have hyes := hE calls s₁.next (h₂.depth.trans hd) h₂.inside (hcalls.behind _ h₂ hlt₂)
    refine hyes.bind fun yes s₃ h₃ _ => ?_
    have h₃ := h₂.trans h₃
    refine Follows.expect h₃.inside fun hnext => ?_
    have h₄ := h₃.trans hnext
    have hlt₄ : s.index < s₃.next.index := Nat.lt_succ_of_le h₃.forward
    have hno := hE calls s₃.next (h₄.depth.trans hd) h₄.inside (hcalls.behind _ h₄ hlt₄)
    refine hno.bind fun no s₅ h₅ _ => ?_
    exact .done h₅.inside (Nat.lt_of_lt_of_le hlt₄ h₅.forward) _
  · simp only [hquestion]
    exact .done h₁.inside hlt₁ _

/-! ## Levels of nesting -/

section Nested

variable {p : Parser α}

theorem answer_nested_of_limit (h : nestingLimit ≤ s.depth) :
    (nested input p).answer s = some (.error ⟨.nestedTooDeep, input.position s⟩, s) := by
  change nested input p s = _
  rw [nested, if_pos h]

theorem answer_nested (h : s.depth < nestingLimit) :
    (nested input p).answer s = (p.answer { s with depth := s.depth + 1 }).bind fun r =>
      some (r.1, { r.2 with depth := r.2.depth - 1 }) := by
  change nested input p s = _
  rw [nested, if_neg (Nat.not_le.2 h)]
  rfl

/-- A level is opened and closed again. -/
theorem Follows.nested {x : Except SyntaxError (α × List Located)} (hlt : s.depth < nestingLimit)
    (h : Follows input least p { s with depth := s.depth + 1 } x) :
    Follows input least (nested input p) s x := by
  have hclosed : ∀ {s'}, Onward input { s with depth := s.depth + 1 } s' →
      Onward input s { s' with depth := s'.depth - 1 } := by
    intro s' h'
    exact ⟨by simp [h'.depth], h'.forward, h'.inside⟩
  cases h with
  | @takes a s' hp h' hleast =>
      have hanswer : (Parser.nested input p).answer s =
          some (.ok a, { s' with depth := s'.depth - 1 }) := by
        rw [answer_nested hlt, hp, Option.bind_some]
      have htakes := Follows.takes hanswer (hclosed h') hleast
      exact htakes
  | refuses hp h' =>
      refine .refuses ?_ (hclosed h')
      rw [answer_nested hlt, hp, Option.bind_some]

end Nested

/-- Without a level left nothing is parsed. -/
theorem follows_tooDeep {c : Call} (inner : Call)
    (hrule : ∀ call, rule input call c = nested input (call inner)) :
    FollowsAt input nestingLimit c (Reader.tooDeep input.textEnd) := by
  refine .of_rule fun calls s hd hs _ => ?_
  rw [hrule, Reader.tooDeep, Input.position_ahead]
  exact .refuses (answer_nested_of_limit (Nat.le_of_eq hd.symm)) (.refl hs)

/-- With a level left a call one level deeper is made. -/
theorem follows_deeper {c inner : Call} (hrank : inner.rank < c.rank)
    (hrule : ∀ call, rule input call c = nested input (call inner)) (hlt : depth < nestingLimit)
    (h : FollowsAt input (depth + 1) inner r) : FollowsAt input depth c r := by
  refine .of_rule fun calls s hd hs hcalls => ?_
  subst hd
  rw [hrule]
  have hinner : Enough input calls inner { s with depth := s.depth + 1 } := hcalls.inner hrank
  have hdeeper := h calls { s with depth := s.depth + 1 } rfl hs hinner
  exact hdeeper.nested hlt

/-- **The parsers of the rules that open a level** follow the readers that may open the levels that
are left. -/
theorem follows_nested (input : Input) {levels : Nat} (h : depth + levels = nestingLimit) :
    FollowsAt input depth .expression (Reader.nested input.textEnd levels).1 ∧
      FollowsAt input depth .operand (Reader.nested input.textEnd levels).2 := by
  induction levels generalizing depth with
  | zero =>
      obtain rfl : depth = nestingLimit := h
      exact ⟨follows_tooDeep .conditional fun _ => rfl, follows_tooDeep .unary fun _ => rfl⟩
  | succ levels ih =>
      have hlevels : depth + 1 + levels = nestingLimit := by omega
      obtain ⟨hE, hO⟩ := ih hlevels
      have hu := follows_unary hE hO
      have hc := follows_conditional hE hu
      exact ⟨follows_deeper (by decide) (fun _ => rfl) (by omega) hc,
        follows_deeper (by decide) (fun _ => rfl) (by omega) hu⟩

end Rules

/-! ## Whole lists of tokens -/

/-- What a parser answers is what the reader that it follows makes of the tokens. -/
theorem Follows.exists_answer {p : Parser α} {x : Except SyntaxError (α × List Located)}
    (h : Follows input least p s x) : ∃ s', p.answer s = some (Prod.fst <$> x, s') := by
  cases h with
  | takes hp _ _ => exact ⟨_, hp⟩
  | refuses hp _ => exact ⟨_, hp⟩

/-- **The parser of a formula comes back** with the outcome of the reader that may open all levels,
and asks for the end of the tokens behind it. -/
theorem formula_answer (input : Input) :
    ∃ s', (formula input (input.allowance ⟨0, 0⟩)).answer ⟨0, 0⟩ = some (do
      let (e, rest) ← (Reader.nested input.textEnd nestingLimit).1 input.tokens.toList
      match rest with
      | [] => .ok e
      | t :: _ => .error ⟨.unexpected t.token, t.start⟩, s') := by
  have hE := (follows_nested input (Nat.zero_add nestingLimit)).1 _ ⟨0, 0⟩ rfl (Nat.zero_le _)
    (enough_allowance input .expression ⟨0, 0⟩)
  have hend : Follows input 0 (formula input (input.allowance ⟨0, 0⟩)) ⟨0, 0⟩
      ((Reader.nested input.textEnd nestingLimit).1 (input.ahead ⟨0, 0⟩) >>= fun p =>
        match p.2 with
        | [] => .ok p
        | t :: _ => .error ⟨.unexpected t.token, t.start⟩) := by
    rw [formula]
    refine hE.bind fun e s' hs' _ => ?_
    refine .look ?_
    cases ht : input.current? s' with
    | none =>
        have hdone := Follows.done hs'.inside (Nat.zero_le _) e
        rw [Input.ahead_of_end ht] at hdone ⊢
        exact hdone
    | some t =>
        rw [(Input.ahead_of_token ht).1]
        exact .fault hs'.inside _
  obtain ⟨s', hs'⟩ := hend.exists_answer
  refine ⟨s', hs'.trans ?_⟩
  change some (Prod.fst <$>
    ((Reader.nested input.textEnd nestingLimit).1 input.tokens.toList >>= _), s') = _
  cases (Reader.nested input.textEnd nestingLimit).1 input.tokens.toList with
  | error e => rfl
  | ok p => cases hrest : p.2 <;> simp [bind, Except.bind, Functor.map, Except.map, hrest]

theorem isSome_formula_answer (input : Input) :
    ((formula input (input.allowance ⟨0, 0⟩)).answer ⟨0, 0⟩).isSome = true := by
  obtain ⟨s', h⟩ := formula_answer input
  rw [h, Option.isSome_some]

end Parser

end FormulaEngine
