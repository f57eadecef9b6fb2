import FormulaEngine.Grammar.Parse
import FormulaEngine.Proofs.Derivation
import FormulaEngine.Proofs.Outcome

/-!
# Reading accepts the grammar

The readers of formulas, which climb precedences, accept exactly the token lists that the layered
grammar derives within the limit on nesting.

* `takes_nested` -- what a reader takes is derived, within the levels that it may open;
* `recovers_of_derives` -- what is derived is read, whatever follows, if the levels suffice, and is
  refused if they do not;
* `Derives.determined` -- tokens have at most one tree, and it needs one number of levels;
* `Expr.ofTokens_reads_grammar` -- the trees of whole lists of tokens are those of the grammar.
-/

namespace FormulaEngine

/-- The tokens without their places. -/
def tokens (ts : List Located) : List Token := ts.map (·.token)

@[simp]
theorem tokens_nil : tokens [] = [] := rfl

@[simp]
theorem tokens_cons (t : Located) (ts : List Located) :
    tokens (t :: ts) = t.token :: tokens ts := rfl

@[simp]
theorem tokens_append (ts us : List Located) : tokens (ts ++ us) = tokens ts ++ tokens us :=
  List.map_append

theorem Token.binary?_eq_some_iff {t : Token} {op : BinaryOp} :
    t.binary? = some op ↔ t = .symbol (.ofBinary op) := by
  cases t <;> simp [Token.binary?, Symbol.binary?_eq_some_iff]

theorem Token.unary?_eq_some_iff {t : Token} {op : UnaryOp} :
    t.unary? = some op ↔ t = .symbol (.ofUnary op) := by
  cases t <;> simp [Token.unary?, Symbol.unary?_eq_some_iff]

theorem BinaryOp.precedence_le (op : BinaryOp) : op.precedence ≤ 10 := by
  cases op <;> decide

namespace Reader

/-- The next token, if there is one. -/
def next? (ts : List Located) : Option Token := ts.head?.map (·.token)

theorem accept?_eq_some_iff {s : Symbol} {ts rest : List Located} :
    accept? s ts = some rest ↔ ∃ t, ts = t :: rest ∧ t.token = .symbol s := by
  cases ts with
  | nil => simp [accept?]
  | cons t us => simp [accept?, and_comm, and_assoc]

theorem accept?_eq_none_iff {s : Symbol} {ts : List Located} :
    accept? s ts = none ↔ next? ts ≠ some (.symbol s) := by
  cases ts <;> simp [accept?, next?]

theorem expect_eq_ok_iff {textEnd : Nat} {s : Symbol} {what : Expectation}
    {ts rest : List Located} :
    expect textEnd s what ts = .ok rest ↔ ∃ t, ts = t :: rest ∧ t.token = .symbol s := by
  cases ts with
  | nil => simp [expect]
  | cons t us =>
      by_cases h : t.token = .symbol s <;> simp [expect, h, and_assoc]

/-! ## Repetition -/

/-- A step that finds nothing to do at the end of the tokens, and otherwise takes some. -/
structure Advances {α : Type}
    (step : List Located → Option (Except SyntaxError (α × List Located))) : Prop where
  nil : step [] = none
  shorter : ∀ {ts a rest}, step ts = some (.ok (a, rest)) → rest.length < ts.length

section Repetition

variable {α : Type} {step : List Located → Option (Except SyntaxError (α × List Located))}

/-- A bound that is at least the number of tokens stops nothing. -/
private theorem repeated_eq_many (h : Advances step) {bound : Nat} {ts : List Located}
    (hb : ts.length ≤ bound) : repeated step bound ts = many step ts := by
  induction bound using Nat.strongRecOn generalizing ts with
  | ind bound ih =>
      cases hs : step ts with
      | none => rw [many, repeated_of_none hs, repeated_of_none hs]
      | some r =>
          obtain ⟨t, us, rfl⟩ : ∃ t us, ts = t :: us := by
            cases ts with
            | nil => rw [h.nil] at hs; exact nomatch hs
            | cons t us => exact ⟨t, us, rfl⟩
          obtain ⟨bound, rfl⟩ : ∃ b, bound = b + 1 :=
            ⟨bound - 1, by simp only [List.length_cons] at hb; omega⟩
          rw [many, List.length_cons, repeated, repeated, hs]
          cases r with
          | error e => rfl
          | ok p =>
              have hlt : p.2.length < us.length + 1 := h.shorter hs
              have hle : us.length ≤ bound := by simpa using hb
              have hsame : repeated step bound p.2 = repeated step us.length p.2 := by
                rw [ih bound (by omega) (by omega), ih us.length (by omega) (by omega)]
              simp only [bind, Except.bind, hsame]

/-- A repetition takes its steps one by one. -/
theorem many_eq (h : Advances step) (ts : List Located) :
    many step ts =
      (match step ts with
      | none => .ok ([], ts)
      | some r => do
        let (a, ts) ← r
        let (as, ts) ← many step ts
        .ok (a :: as, ts)) := by
  cases ts with
  | nil => simp [many, repeated, h.nil]
  | cons t us =>
      rw [many, List.length_cons, repeated]
      cases hs : step (t :: us) with
      | none => rfl
      | some r =>
          cases r with
          | error e => rfl
          | ok p =>
              have hlt : p.2.length < us.length + 1 := h.shorter hs
              simp only [bind, Except.bind]
              rw [repeated_eq_many h (by omega)]

end Repetition

/-! ## What a reader takes is derived -/

/-- What the reader returns is the tree of a phrase that it cuts off the tokens, with fewer than
`bound` levels open at once. -/
def Takes (r : Reader Expr) (phrase : Phrase) (bound : Nat) : Prop :=
  ∀ ⦃ts e rest⦄, r ts = .ok (e, rest) →
    ∃ used n, ts = used ++ rest ∧ n < bound ∧ Derives phrase n (tokens used) e

/-- A reader that takes phrases leaves fewer tokens. -/
theorem Takes.shorter {r : Reader Expr} {phrase : Phrase} {bound : Nat} (h : Takes r phrase bound)
    {ts rest : List Located} {e : Expr} (hr : r ts = .ok (e, rest)) :
    rest.length < ts.length := by
  obtain ⟨used, n, rfl, _, hd⟩ := h hr
  have hne : used ≠ [] := fun hu => hd.ne_nil (by rw [hu]; rfl)
  have := List.length_pos_iff.2 hne
  rw [List.length_append]
  omega

variable {textEnd bound : Nat} {expression operand : Reader Expr}

/-! ### Arguments and primaries -/

theorem nextArgument_eq_some_iff {ts : List Located} {r} :
    nextArgument expression ts = some r ↔
      ∃ t rest, ts = t :: rest ∧ t.token = .symbol .comma ∧ expression rest = r := by
  simp only [nextArgument, Option.map_eq_some_iff, accept?_eq_some_iff]
  constructor
  · intro h
    obtain ⟨rest, ⟨t, rfl, ht⟩, rfl⟩ := h
    exact ⟨t, rest, rfl, ht, rfl⟩
  · intro h
    obtain ⟨t, rest, rfl, ht, rfl⟩ := h
    exact ⟨rest, ⟨t, rfl, ht⟩, rfl⟩

theorem advances_nextArgument (h : Takes expression .expression bound) :
    Advances (nextArgument expression) where
  nil := rfl
  shorter hs := by
    obtain ⟨t, rest, rfl, _, hr⟩ := nextArgument_eq_some_iff.1 hs
    have := h.shorter hr
    rw [List.length_cons]
    omega

/-- An argument and those behind its comma. -/
theorem takes_arguments_from (h : Takes expression .expression bound) (name : String) :
    ∀ {more : List Expr} {ts rest used : List Located} {e : Expr} {n : Nat},
      Derives .expression n (tokens used) e → n < bound →
      many (nextArgument expression) ts = .ok (more, rest) →
      ∃ us k, ts = us ++ rest ∧ k < bound ∧
        Derives (.arguments name) k (tokens (used ++ us)) (.call name (e :: more)) := by
  intro more
  induction more with
  | nil =>
      intro ts rest used e n hd hn hm
      rw [many_eq (advances_nextArgument h)] at hm
      split at hm
      · cases hm
        exact ⟨[], n, rfl, hn, by simpa using hd.argument⟩
      · simp [bind_eq_ok_iff] at hm
  | cons e' more ih =>
      intro ts rest used e n hd hn hm
      rw [many_eq (advances_nextArgument h)] at hm
      split at hm
      · cases hm
      · next r hs =>
        obtain ⟨t, ts', rfl, ht, rfl⟩ := nextArgument_eq_some_iff.1 hs
        simp only [bind_eq_ok_iff] at hm
        obtain ⟨⟨a, ts₁⟩, ha, ⟨as, ts₂⟩, hrest, hout⟩ := hm
        cases hout
        obtain ⟨used₁, n₁, rfl, hn₁, hd₁⟩ := h ha
        obtain ⟨us, k, rfl, hk, hds⟩ := ih hd₁ hn₁ hrest
        refine ⟨t :: used₁ ++ us, max n k, by simp, by omega, ?_⟩
        simpa [ht] using hd.arguments hds

/-- The arguments of a call, up to and including the closing parenthesis, complete a primary. -/
private theorem takes_arguments (h : Takes expression .expression bound) (hb : 0 < bound)
    {t o : Located} {name : String} (ht : t.token = .name name) (ho : o.token = .symbol .leftParen)
    {ts rest : List Located} {es : List Expr}
    (hr : arguments textEnd expression ts = .ok (es, rest)) :
    ∃ used n, ts = used ++ rest ∧ n < bound ∧
      Derives .primary n (tokens (t :: o :: used)) (.call name es) := by
  unfold arguments at hr
  split at hr
  · next hclose =>
    obtain ⟨c, rfl, hc⟩ := accept?_eq_some_iff.1 hclose
    cases hr
    exact ⟨[c], 0, rfl, hb, by simpa [ht, ho, hc] using Derives.constant name⟩
  · simp only [bind_eq_ok_iff] at hr
    obtain ⟨⟨e, ts₁⟩, he, ⟨more, ts₂⟩, hm, ts₃, hclose, hout⟩ := hr
    cases hout
    obtain ⟨c, rfl, hc⟩ := expect_eq_ok_iff.1 hclose
    obtain ⟨used, n, rfl, hn, hd⟩ := h he
    obtain ⟨us, k, rfl, hk, hds⟩ := takes_arguments_from h name hd hn hm
    refine ⟨used ++ us ++ [c], k, by simp, hk, ?_⟩
    simpa [ht, ho, hc] using hds.call

theorem takes_primary (h : Takes expression .expression bound) (hb : 0 < bound) :
    Takes (primary textEnd expression) .primary bound := by
  intro ts e rest hr
  match ts with
  | [] => simp [primary] at hr
  | t :: ts =>
      rw [primary] at hr
      split at hr
      · next l ht =>
        cases hr
        exact ⟨[t], 0, rfl, hb, by simpa [ht] using Derives.literal l⟩
      · next name ht =>
        split at hr
        · cases hr
          exact ⟨[t], 0, rfl, hb, by simpa [ht] using Derives.parameter name⟩
        · next ts₁ hopen =>
          obtain ⟨o, rfl, ho⟩ := accept?_eq_some_iff.1 hopen
          simp only [bind_eq_ok_iff] at hr
          obtain ⟨⟨es, ts₂⟩, hargs, hout⟩ := hr
          cases hout
          obtain ⟨used, n, rfl, hn, hd⟩ := takes_arguments h hb ht ho hargs
          exact ⟨t :: o :: used, n, rfl, hn, hd⟩
      · next sym ht =>
        split at hr
        · next hsym =>
          simp only [bind_eq_ok_iff] at hr
          obtain ⟨⟨e₁, ts₁⟩, he, ts₂, hclose, hout⟩ := hr
          cases hout
          obtain ⟨used, n, rfl, hn, hd⟩ := h he
          obtain ⟨c, rfl, hc⟩ := expect_eq_ok_iff.1 hclose
          exact ⟨t :: used ++ [c], n, by simp, hn, by simpa [ht, hsym, hc] using hd.parens⟩
        · cases hr

/-! ### Operators -/

/-- The next token spells a unary operator exactly when the reader sees one. -/
theorem head_unary?_eq_some_iff {ts : List Located} {op : UnaryOp} :
    ts.head?.bind (·.token.unary?) = some op ↔
      ∃ t rest, ts = t :: rest ∧ t.token = .symbol (.ofUnary op) := by
  cases ts <;> simp [Token.unary?_eq_some_iff]

private theorem head_binary?_eq_some_iff {ts : List Located} {op : BinaryOp} :
    ts.head?.bind (·.token.binary?) = some op ↔
      ∃ t rest, ts = t :: rest ∧ t.token = .symbol (.ofBinary op) := by
  cases ts <;> simp [Token.binary?_eq_some_iff]

theorem takes_unary (h : Takes expression .expression (bound + 1))
    (ho : Takes operand .unary bound) :
    Takes (unary textEnd expression operand) .unary (bound + 1) := by
  intro ts e rest hr
  rw [Reader.unary] at hr
  split at hr
  · obtain ⟨used, n, hts, hn, hd⟩ := takes_primary h (Nat.succ_pos bound) hr
    exact ⟨used, n, hts, hn, hd.primary⟩
  · next op hop =>
    obtain ⟨t, ts, rfl, ht⟩ := head_unary?_eq_some_iff.1 hop
    simp only [bind_eq_ok_iff] at hr
    obtain ⟨⟨e₁, ts₁⟩, he, hout⟩ := hr
    cases hout
    obtain ⟨used, n, hts, hn, hd⟩ := ho he
    refine ⟨t :: used, n + 1, by simpa using hts, by omega, ?_⟩
    simpa [ht] using hd.unary op

theorem nextOperand_eq_some_iff {level : Nat} {ts : List Located} {r}
    {reader : (op : BinaryOp) → level ≤ op.precedence → Reader Expr} :
    nextOperand level reader ts = some r ↔
      ∃ t rest op, ts = t :: rest ∧ t.token = .symbol (.ofBinary op) ∧
        ∃ hl : level ≤ op.precedence, r = (do
          let (e, ts) ← reader op hl rest
          .ok ((op, e), ts)) := by
  unfold nextOperand
  constructor
  · intro h
    split at h
    · cases h
    · next op hop =>
      obtain ⟨t, rest, rfl, ht⟩ := head_binary?_eq_some_iff.1 hop
      split at h
      · next hl => exact ⟨t, rest, op, rfl, ht, hl, (Option.some.inj h).symm⟩
      · cases h
  · intro h
    obtain ⟨t, rest, op, rfl, ht, hl, rfl⟩ := h
    have hop : (t :: rest).head?.bind (·.token.binary?) = some op :=
      head_binary?_eq_some_iff.2 ⟨t, rest, rfl, ht⟩
    simp only [hop, dif_pos hl]
    rfl

theorem nextOperand_eq_none_iff {level : Nat} {ts : List Located}
    {reader : (op : BinaryOp) → level ≤ op.precedence → Reader Expr} :
    nextOperand level reader ts = none ↔
      ∀ op, next? ts = some (.symbol (.ofBinary op)) → op.precedence < level := by
  constructor
  · intro h op hop
    cases ts with
    | nil => simp [next?] at hop
    | cons t rest =>
        refine Nat.lt_of_not_le fun hl => ?_
        have ht : t.token = .symbol (.ofBinary op) := by simpa [next?] using hop
        have hs : nextOperand level reader (t :: rest) = some (do
            let (e, ts) ← reader op hl rest
            .ok ((op, e), ts)) := nextOperand_eq_some_iff.2 ⟨t, rest, op, rfl, ht, hl, rfl⟩
        rw [h] at hs
        cases hs
  · intro h
    cases hs : nextOperand level reader ts with
    | none => rfl
    | some r =>
        obtain ⟨t, rest, op, rfl, ht, hl, _⟩ := nextOperand_eq_some_iff.1 hs
        have := h op (by simp [next?, ht])
        omega

/-- The step of the loop over binary operators of at least a level. -/
abbrev climbStep (u : Reader Expr) (level : Nat) :=
  nextOperand level fun op _ => climb u (op.precedence + 1)

/-- The loop over binary operators, on the way with a left operand. -/
def climbOn (u : Reader Expr) (level : Nat) (left : Expr) : Reader Expr := fun ts => do
  let (more, ts) ← many (climbStep u level) ts
  .ok (more.foldl (fun left (op, right) => .binary op left right) left, ts)

theorem climb_eq (u : Reader Expr) (level : Nat) (ts : List Located) :
    climb u level ts = (do
      let (first, ts) ← u ts
      climbOn u level first ts) := by
  rw [climb]
  rfl

/-- No operator of at least a level comes next. -/
def Settled (level : Nat) (ts : List Located) : Prop :=
  ∀ op, next? ts = some (.symbol (.ofBinary op)) → op.precedence < level

/-- What the loop returns is an operation of its level, behind which no operator of that level or
of a tighter one is left over. -/
def TakesOperation (u : Reader Expr) (bound level : Nat) : Prop :=
  Takes (climb u level) (.operation level) bound ∧
    ∀ ⦃ts e rest⦄, climb u level ts = .ok (e, rest) → Settled level rest

section Climbing

variable {u : Reader Expr} {level : Nat}

theorem advances_climbStep
    (h : ∀ op : BinaryOp, level ≤ op.precedence → TakesOperation u bound (op.precedence + 1)) :
    Advances (climbStep u level) where
  nil := rfl
  shorter hs := by
    obtain ⟨t, rest, op, rfl, _, hl, hr⟩ := nextOperand_eq_some_iff.1 hs
    obtain ⟨⟨e, ts⟩, he, hout⟩ := bind_eq_ok_iff.1 hr.symm
    cases hout
    have := (h op hl).1.shorter he
    rw [List.length_cons]
    omega

/-- The invariant of the loop: the left operand is an operation of some level `q`, and the next
operator, unless it ends the loop, binds at most as tightly as that. -/
private theorem takes_climbOn
    (h : ∀ op : BinaryOp, level ≤ op.precedence → TakesOperation u bound (op.precedence + 1)) :
    ∀ {more : List (BinaryOp × Expr)} {ts rest used : List Located} {left : Expr} {q n : Nat},
      Derives (.operation q) n (tokens used) left → n < bound → level ≤ q → q ≤ 11 →
      Settled (q + 1) ts → many (climbStep u level) ts = .ok (more, rest) →
      (∃ us k, ts = us ++ rest ∧ k < bound ∧
        Derives (.operation level) k (tokens (used ++ us))
          (more.foldl (fun left (op, right) => .binary op left right) left)) ∧
        Settled level rest := by
  intro more
  induction more with
  | nil =>
      intro ts rest used left q n hd hn hlq hq _ hm
      rw [many_eq (advances_climbStep h)] at hm
      split at hm
      · next hs =>
        cases hm
        refine ⟨⟨[], n, rfl, hn, ?_⟩, nextOperand_eq_none_iff.1 hs⟩
        simpa using hd.lower hlq hq
      · simp [bind_eq_ok_iff] at hm
  | cons step more ih =>
      intro ts rest used left q n hd hn hlq hq hsettled hm
      rw [many_eq (advances_climbStep h)] at hm
      split at hm
      · cases hm
      · next r hs =>
        obtain ⟨t, ts, op, rfl, ht, hl, rfl⟩ := nextOperand_eq_some_iff.1 hs
        simp only [bind_eq_ok_iff] at hm
        obtain ⟨_, ⟨⟨right, ts₁⟩, hright, hstep⟩, ⟨more', ts₂⟩, hrest, hout⟩ := hm
        cases hstep
        cases hout
        have hop : op.precedence ≤ q := Nat.lt_succ_iff.1 (hsettled op (by simp [next?, ht]))
        obtain ⟨used₁, n₁, rfl, hn₁, hd₁⟩ := (h op hl).1 hright
        have hleft : Derives (.operation op.precedence) (max n n₁)
            (tokens (used ++ t :: used₁)) (.binary op left right) := by
          simpa [ht] using Derives.binary op (hd.lower hop hq) hd₁
        obtain ⟨⟨us, k, rfl, hk, hds⟩, hstop⟩ :=
          ih hleft (by omega) hl (by have := op.precedence_le; omega) ((h op hl).2 hright) hrest
        exact ⟨⟨t :: used₁ ++ us, k, by simp, hk, by simpa using hds⟩, hstop⟩

/-- **Climbing takes operations of its level.**  By induction from the tightest level down: the
operands behind the operators of a level are read at tighter ones. -/
theorem takes_climb (h : Takes u .unary bound) (hlevel : level ≤ 11) :
    TakesOperation u bound level := by
  obtain ⟨d, hd⟩ : ∃ d, d = 11 - level := ⟨_, rfl⟩
  induction d using Nat.strongRecOn generalizing level with
  | ind d ih =>
      have htighter : ∀ op : BinaryOp, level ≤ op.precedence →
          TakesOperation u bound (op.precedence + 1) := by
        intro op hl
        have := op.precedence_le
        exact ih (11 - (op.precedence + 1)) (by omega) (by omega) rfl
      have hboth : ∀ ⦃ts e rest⦄, climb u level ts = .ok (e, rest) →
          (∃ used n, ts = used ++ rest ∧ n < bound ∧
            Derives (.operation level) n (tokens used) e) ∧ Settled level rest := by
        intro ts e rest hr
        rw [climb_eq] at hr
        simp only [climbOn, bind_eq_ok_iff] at hr
        obtain ⟨⟨first, ts₁⟩, hfirst, ⟨more, ts₂⟩, hm, hout⟩ := hr
        cases hout
        obtain ⟨used, n, rfl, hn, hd₁⟩ := h hfirst
        have hsettled : Settled 12 ts₁ := fun op _ => by have := op.precedence_le; omega
        obtain ⟨⟨us, k, rfl, hk, hds⟩, hstop⟩ :=
          takes_climbOn htighter hd₁.operand hn hlevel (Nat.le_refl 11) hsettled hm
        exact ⟨⟨used ++ us, k, by simp, hk, hds⟩, hstop⟩
      exact ⟨fun _ _ _ hr => (hboth hr).1, fun _ _ _ hr => (hboth hr).2⟩

end Climbing

/-! ### Conditionals and nesting -/

theorem takes_conditional {u : Reader Expr} (h : Takes expression .expression bound)
    (hu : Takes u .unary bound) :
    Takes (conditional textEnd expression u) .expression (bound + 1) := by
  intro ts e rest hr
  simp only [conditional, bind_eq_ok_iff] at hr
  obtain ⟨⟨c, ts₁⟩, hc, hr⟩ := hr
  obtain ⟨used, k, rfl, hk, hd⟩ := (takes_climb hu (by decide)).1 hc
  split at hr
  · cases hr
    exact ⟨used, k + 1, rfl, by omega, hd.operation⟩
  · next ts₂ hquestion =>
    obtain ⟨q, rfl, hq⟩ := accept?_eq_some_iff.1 hquestion
    simp only [bind_eq_ok_iff] at hr
    obtain ⟨⟨yes, ts₃⟩, hyes, ts₄, hcolon, ⟨no, ts₅⟩, hno, hout⟩ := hr
    cases hout
    obtain ⟨used₁, m, rfl, hm, hd₁⟩ := h hyes
    obtain ⟨o, rfl, ho⟩ := expect_eq_ok_iff.1 hcolon
    obtain ⟨used₂, n, rfl, hn, hd₂⟩ := h hno
    refine ⟨used ++ q :: (used₁ ++ o :: used₂), max k (max m n) + 1, by simp, by omega, ?_⟩
    simpa [hq, ho] using hd.conditional hd₁ hd₂

/-- **What is read is derived**, with no more levels open at once than the reader may open. -/
theorem takes_nested (textEnd levels : Nat) :
    Takes (nested textEnd levels).1 .expression (levels + 1) ∧
      Takes (nested textEnd levels).2 .unary levels := by
  induction levels with
  | zero =>
      constructor
      · intro ts e rest hr
        cases hr
      · intro ts e rest hr
        cases hr
  | succ levels ih =>
      have hu : Takes (unary textEnd (nested textEnd levels).1 (nested textEnd levels).2) .unary
          (levels + 1) := takes_unary ih.1 ih.2
      exact ⟨takes_conditional ih.1 hu, hu⟩

/-! ## What is derived is read -/

/-- What may follow a phrase: nothing that could continue it. -/
def EndsBefore : Phrase → List Located → Prop
  | .expression, ts =>
    next? ts ≠ some (.symbol .leftParen) ∧ next? ts ≠ some (.symbol .question) ∧ Settled 1 ts
  | .operation level, ts => next? ts ≠ some (.symbol .leftParen) ∧ Settled (level + 1) ts
  | .unary, ts | .primary, ts => next? ts ≠ some (.symbol .leftParen)
  | .arguments _, ts => next? ts = some (.symbol .rightParen)

/-- The reader of unary phrases inside of which a number of levels may be opened. -/
abbrev unaryWithin (textEnd levels : Nat) : Reader Expr :=
  Reader.unary textEnd (nested textEnd levels).1 (nested textEnd levels).2

/-- An argument, and those behind the commas that follow. -/
def argumentList (expression : Reader Expr) : Reader (List Expr) := fun ts => do
  let (first, ts) ← expression ts
  let (more, ts) ← many (nextArgument expression) ts
  .ok (first :: more, ts)

/-- How tokens of a phrase are read in front of others that may follow it: the reader that may
open `levels` levels finds the phrase's tree if these are enough, and fails otherwise.  The loop
over binary operators goes on from that tree. -/
def Recovers (textEnd levels n : Nat) (us rest : List Located) (e : Expr) : Phrase → Prop
  | .expression =>
    ((nested textEnd levels).1 (us ++ rest)).toOption = if n ≤ levels then some (e, rest) else none
  | .operation p => ∀ level, level ≤ p →
    (climb (unaryWithin textEnd levels) level (us ++ rest)).toOption =
      if n ≤ levels then (climbOn (unaryWithin textEnd levels) level e rest).toOption else none
  | .unary =>
    (unaryWithin textEnd levels (us ++ rest)).toOption = if n ≤ levels then some (e, rest) else none
  | .primary =>
    (primary textEnd (nested textEnd levels).1 (us ++ rest)).toOption =
      if n ≤ levels then some (e, rest) else none
  | .arguments name => ∀ es, e = .call name es →
    (argumentList (nested textEnd levels).1 (us ++ rest)).toOption =
      if n ≤ levels then some (es, rest) else none

theorem tokens_eq_append_iff {us : List Located} {ts₁ ts₂ : List Token} :
    tokens us = ts₁ ++ ts₂ ↔
      ∃ us₁ us₂, us = us₁ ++ us₂ ∧ tokens us₁ = ts₁ ∧ tokens us₂ = ts₂ :=
  List.map_eq_append_iff

theorem tokens_eq_cons_iff {us : List Located} {t : Token} {ts : List Token} :
    tokens us = t :: ts ↔ ∃ u us', us = u :: us' ∧ u.token = t ∧ tokens us' = ts :=
  List.map_eq_cons_iff

section Climbing

variable {u : Reader Expr} {level : Nat} {left : Expr}

theorem climbOn_of_settled {ts : List Located} (h : Settled level ts) :
    climbOn u level left ts = .ok (left, ts) := by
  have hs : climbStep u level ts = none := nextOperand_eq_none_iff.2 h
  simp [climbOn, many, repeated_of_none hs, bind, Except.bind]

theorem climbOn_cons (h : Takes u .unary bound) {t : Located} {ts : List Located} {op : BinaryOp}
    (ht : t.token = .symbol (.ofBinary op)) (hl : level ≤ op.precedence) :
    climbOn u level left (t :: ts) = (do
      let (right, ts) ← climb u (op.precedence + 1) ts
      climbOn u level (.binary op left right) ts) := by
  have hadv : Advances (climbStep u level) := advances_climbStep fun op _ =>
    takes_climb h (by have := op.precedence_le; omega)
  have hs : climbStep u level (t :: ts) = some (do
      let (right, ts) ← climb u (op.precedence + 1) ts
      .ok ((op, right), ts)) := nextOperand_eq_some_iff.2 ⟨t, ts, op, rfl, ht, hl, rfl⟩
  rw [climbOn, many_eq hadv, hs]
  cases climb u (op.precedence + 1) ts with
  | error e => rfl
  | ok p =>
      simp only [climbOn, bind, Except.bind]
      cases many (climbStep u level) p.2 <;> rfl

end Climbing

section Recovering

variable {textEnd levels m n : Nat} {us rest : List Located} {ts : List Token} {e : Expr}

theorem takes_unaryWithin (textEnd levels : Nat) :
    Takes (unaryWithin textEnd levels) .unary (levels + 1) :=
  takes_unary (takes_nested textEnd levels).1 (takes_nested textEnd levels).2

/-- In front of what may follow an expression, climbing from the lowest level ends. -/
private theorem Recovers.climb_lowest {us : List Located}
    (h : Recovers textEnd levels n us rest e (.operation 1)) (hrest : Settled 1 rest) :
    (climb (unaryWithin textEnd levels) 1 (us ++ rest)).toOption =
      if n ≤ levels then some (e, rest) else none := by
  rw [h 1 (Nat.le_refl 1), climbOn_of_settled hrest]
  rfl

private theorem recovers_operation (h : ∀ levels, EndsBefore (.operation 1) rest →
      Recovers textEnd levels n us rest e (.operation 1))
    (hrest : EndsBefore .expression rest) :
    Recovers textEnd levels (n + 1) us rest e .expression := by
  obtain ⟨hparen, hquestion, hsettled⟩ := hrest
  cases levels with
  | zero => simp [Recovers, nested, tooDeep, Except.toOption]
  | succ levels =>
      have hc := (h levels ⟨hparen, fun op hop => by have := hsettled op hop; omega⟩).climb_lowest
        hsettled
      simp only [Recovers, nested, conditional, toOption_bind, hc, Nat.add_le_add_iff_right]
      split
      · rw [Option.bind_some, accept?_eq_none_iff.2 hquestion]
        rfl
      · rfl

private theorem endsBefore_of_symbol {t : Located} {ts : List Located} {s : Symbol}
    (ht : t.token = .symbol s) (hs : s = .colon ∨ s = .comma ∨ s = .rightParen) :
    EndsBefore .expression (t :: ts) := by
  have hnext : next? (t :: ts) = some (.symbol s) := by simp [next?, ht]
  refine ⟨?_, ?_, fun op hop => ?_⟩
  · rw [hnext]; rcases hs with rfl | rfl | rfl <;> simp
  · rw [hnext]; rcases hs with rfl | rfl | rfl <;> simp
  · rw [hnext] at hop
    cases op <;> rcases hs with rfl | rfl | rfl <;> simp [Symbol.ofBinary] at hop

theorem accept?_cons {t : Located} {ts : List Located} {s : Symbol}
    (ht : t.token = .symbol s) : accept? s (t :: ts) = some ts :=
  accept?_eq_some_iff.2 ⟨t, rfl, ht⟩

private theorem expect_cons {t : Located} {ts : List Located} {s : Symbol} {what : Expectation}
    (ht : t.token = .symbol s) : expect textEnd s what (t :: ts) = .ok ts :=
  expect_eq_ok_iff.2 ⟨t, rfl, ht⟩

private theorem recovers_conditional {k : Nat} {q o : Located} {cs ys ns : List Located}
    {c y x : Expr} (hq : q.token = .symbol .question) (ho : o.token = .symbol .colon)
    (hc : ∀ levels rest, EndsBefore (.operation 1) rest →
      Recovers textEnd levels k cs rest c (.operation 1))
    (hy : ∀ levels rest, EndsBefore .expression rest →
      Recovers textEnd levels m ys rest y .expression)
    (hn : ∀ levels rest, EndsBefore .expression rest →
      Recovers textEnd levels n ns rest x .expression)
    (hrest : EndsBefore .expression rest) :
    Recovers textEnd levels (max k (max m n) + 1) (cs ++ q :: (ys ++ o :: ns)) rest
      (.conditional c y x) .expression := by
  have hnext : ∀ us, next? (q :: us) = some (.symbol .question) := by simp [next?, hq]
  cases levels with
  | zero => simp [Recovers, nested, tooDeep, Except.toOption]
  | succ levels =>
      have hsettled : Settled 1 (q :: (ys ++ o :: (ns ++ rest))) := by
        intro op hop
        rw [hnext] at hop
        cases op <;> simp [Symbol.ofBinary] at hop
      have hc' := (hc levels _ ⟨by simp [hnext], fun op hop => by
        have := hsettled op hop; omega⟩).climb_lowest hsettled
      have hy' := hy levels (o :: (ns ++ rest)) (endsBefore_of_symbol ho (.inl rfl))
      have hn' := hn levels rest hrest
      simp only [Recovers] at hy' hn'
      simp only [Recovers, nested, conditional, toOption_bind, List.append_assoc, List.cons_append,
        hc', Nat.add_le_add_iff_right, Nat.max_le]
      by_cases hk : k ≤ levels
      · simp only [hk, if_true, Option.bind_some, accept?_cons hq, toOption_bind, hy', true_and]
        by_cases hm : m ≤ levels
        · simp only [hm, if_true, Option.bind_some, expect_cons ho, toOption_ok, true_and, hn']
          by_cases hn : n ≤ levels
          · simp [hn]
          · simp [hn]
        · simp [hm]
      · simp [hk]

private theorem recovers_binary {op : BinaryOp} {t : Located} {ls rs : List Located} {l r : Expr}
    (ht : t.token = .symbol (.ofBinary op))
    (hl : ∀ rest, EndsBefore (.operation op.precedence) rest →
      Recovers textEnd levels m ls rest l (.operation op.precedence))
    (hr : EndsBefore (.operation (op.precedence + 1)) rest →
      Recovers textEnd levels n rs rest r (.operation (op.precedence + 1)))
    (hrest : EndsBefore (.operation op.precedence) rest) :
    Recovers textEnd levels (max m n) (ls ++ t :: rs) rest (.binary op l r)
      (.operation op.precedence) := by
  intro level hlevel
  have hbefore : EndsBefore (.operation op.precedence) (t :: (rs ++ rest)) := by
    have hnext : next? (t :: (rs ++ rest)) = some (.symbol (.ofBinary op)) := by simp [next?, ht]
    constructor
    · rw [hnext]; cases op <;> simp [Symbol.ofBinary]
    · intro op' hop
      have : op = op' := by
        have hs : Symbol.ofBinary op = .ofBinary op' := by simpa [hnext] using hop
        exact Option.some.inj ((Symbol.binary?_eq_some_iff.2 rfl).symm.trans
          (Symbol.binary?_eq_some_iff.2 hs))
      subst this
      exact Nat.lt_succ_self _
  have hl' := hl _ hbefore level hlevel
  have hr' := hr ⟨hrest.1, fun op' hop => by have := hrest.2 op' hop; omega⟩
    (op.precedence + 1) (Nat.le_refl _)
  rw [climbOn_of_settled hrest.2] at hr'
  rw [List.append_assoc, List.cons_append, hl',
    climbOn_cons (takes_unaryWithin textEnd levels) ht hlevel, toOption_bind, hr']
  by_cases hm : m ≤ levels
  · by_cases hn : n ≤ levels
    · simp only [hm, hn, Nat.max_le, and_self, if_true, Option.bind_some, toOption_ok]
    · simp only [hm, hn, Nat.max_le, and_false, if_true, if_false, Option.bind_none]
  · simp only [hm, Nat.max_le, false_and, if_false]

theorem unary_of_operator {op : UnaryOp} {t : Located} (us : List Located)
    (ht : t.token = .symbol (.ofUnary op)) {expression operand : Reader Expr} :
    Reader.unary textEnd expression operand (t :: us) = (do
      let (e, ts) ← operand us
      .ok (.unary op e, ts)) := by
  have hop : (t :: us).head?.bind (·.token.unary?) = some op :=
    head_unary?_eq_some_iff.2 ⟨t, us, rfl, ht⟩
  simp only [Reader.unary, hop, List.tail_cons]

theorem unary_of_primary {us : List Located}
    (hus : ∀ op, next? us ≠ some (.symbol (.ofUnary op))) {expression operand : Reader Expr} :
    Reader.unary textEnd expression operand us = primary textEnd expression us := by
  have hnone : us.head?.bind (·.token.unary?) = none := by
    cases hop : us.head?.bind (·.token.unary?) with
    | none => rfl
    | some op =>
        obtain ⟨t, us, rfl, ht⟩ := head_unary?_eq_some_iff.1 hop
        exact absurd (by simp [next?, ht]) (hus op)
  simp only [Reader.unary, hnone]

private theorem recovers_unary {op : UnaryOp} {t : Located} (ht : t.token = .symbol (.ofUnary op))
    (h : ∀ levels, Recovers textEnd levels n us rest e .unary) :
    Recovers textEnd levels (n + 1) (t :: us) rest (.unary op e) .unary := by
  simp only [Recovers, unaryWithin, List.cons_append, unary_of_operator (us ++ rest) ht,
    toOption_bind]
  cases levels with
  | zero => simp [nested, tooDeep, Except.toOption]
  | succ levels =>
      have h' : ((nested textEnd (levels + 1)).2 (us ++ rest)).toOption = _ := h levels
      simp only [h', Nat.add_le_add_iff_right]
      split
      · rfl
      · rfl

private theorem recovers_primary (hd : Derives .primary n (tokens us) e)
    (h : Recovers textEnd levels n us rest e .primary) :
    Recovers textEnd levels n us rest e .unary := by
  have hhead : ∀ op, next? (us ++ rest) ≠ some (.symbol (.ofUnary op)) := by
    obtain ⟨t, ts, hts, ht⟩ : ∃ t ts, tokens us = t :: ts ∧ t.unary? = none := by
      generalize tokens us = ts at hd
      cases hd <;> exact ⟨_, _, rfl, rfl⟩
    obtain ⟨u, us, rfl, rfl, rfl⟩ := tokens_eq_cons_iff.1 hts
    intro op hop
    have hu : u.token = .symbol (.ofUnary op) := by simpa [next?] using hop
    rw [Token.unary?_eq_some_iff.2 hu] at ht
    cases ht
  rw [Recovers, unaryWithin, unary_of_primary hhead]
  exact h

private theorem recovers_parameter {t : Located} {name : String} (ht : t.token = .name name)
    (hrest : EndsBefore .primary rest) :
    Recovers textEnd levels 0 [t] rest (.parameter name) .primary := by
  simp [Recovers, primary, ht, accept?_eq_none_iff.2 hrest, toOption_ok]

private theorem recovers_parens {o c : Located} (ho : o.token = .symbol .leftParen)
    (hc : c.token = .symbol .rightParen)
    (h : EndsBefore .expression (c :: rest) →
      Recovers textEnd levels n us (c :: rest) e .expression) :
    Recovers textEnd levels n (o :: (us ++ [c])) rest e .primary := by
  have h' := h (endsBefore_of_symbol hc (.inr (.inr rfl)))
  simp only [Recovers] at h'
  simp only [Recovers, primary, ho, List.cons_append, List.append_assoc, List.nil_append, if_true,
    toOption_bind, h']
  split
  · simp only [Option.bind_some, expect_cons hc, toOption_ok]
  · rfl

private theorem arguments_of_next_ne {expression : Reader Expr} {us : List Located}
    (h : next? us ≠ some (.symbol .rightParen)) :
    arguments textEnd expression us = (do
      let (es, us) ← argumentList expression us
      let us ← expect textEnd .rightParen .commaOrClosing us
      .ok (es, us)) := by
  simp only [arguments, accept?_eq_none_iff.2 h, argumentList]
  cases expression us with
  | error _ => rfl
  | ok p =>
      simp only [bind, Except.bind]
      cases many (nextArgument expression) p.2 <;> rfl

private theorem recovers_call {t o c : Located} {name : String} {es : List Expr}
    (ht : t.token = .name name) (ho : o.token = .symbol .leftParen)
    (hc : c.token = .symbol .rightParen)
    (hd : Derives (.arguments name) n (tokens us) (.call name es))
    (h : EndsBefore (.arguments name) (c :: rest) →
      Recovers textEnd levels n us (c :: rest) (.call name es) (.arguments name)) :
    Recovers textEnd levels n (t :: o :: (us ++ [c])) rest (.call name es) .primary := by
  have h' := h (by simp [EndsBefore, next?, hc]) es rfl
  have hus : next? (us ++ c :: rest) ≠ some (.symbol .rightParen) := by
    obtain ⟨t, ts, hts, hopens⟩ := hd.head_opens
    obtain ⟨u, us, rfl, rfl, rfl⟩ := tokens_eq_cons_iff.1 hts
    intro hu
    have hu : u.token = .symbol .rightParen := by simpa [next?] using hu
    rw [hu] at hopens
    cases hopens
  simp only [Recovers, primary, ht, List.cons_append, List.append_assoc, List.nil_append,
    accept?_cons ho, arguments_of_next_ne hus, toOption_bind, h']
  split
  · simp only [Option.bind_some, expect_cons hc, toOption_ok]
  · rfl

private theorem recovers_argument {name : String}
    (h : EndsBefore .expression rest → Recovers textEnd levels n us rest e .expression)
    (hrest : EndsBefore (.arguments name) rest) :
    Recovers textEnd levels n us rest (.call name [e]) (.arguments name) := by
  obtain ⟨c, rest, rfl, hc⟩ : ∃ c rest', rest = c :: rest' ∧ c.token = .symbol .rightParen := by
    cases rest <;> simp_all [EndsBefore, next?]
  have h' := h (endsBefore_of_symbol hc (.inr (.inr rfl)))
  have hs : nextArgument (nested textEnd levels).1 (c :: rest) = none := by
    simp [nextArgument, accept?_eq_none_iff, next?, hc]
  simp only [Recovers] at h'
  intro es hes
  cases hes
  simp only [argumentList, toOption_bind, h']
  split
  · simp only [Option.bind_some, many, repeated_of_none hs, toOption_ok]
  · rfl

/-- Behind a comma the list of arguments begins anew. -/
private theorem many_nextArgument_cons {o : Located} (ho : o.token = .symbol .comma)
    (us : List Located) :
    many (nextArgument (nested textEnd levels).1) (o :: us) =
      argumentList (nested textEnd levels).1 us := by
  have hstep : nextArgument (nested textEnd levels).1 (o :: us) =
      some ((nested textEnd levels).1 us) :=
    nextArgument_eq_some_iff.2 ⟨o, us, rfl, ho, rfl⟩
  rw [many_eq (advances_nextArgument (takes_nested textEnd levels).1), hstep]
  rfl

private theorem recovers_arguments {name : String} {o : Located} {us₁ us₂ : List Located}
    {es : List Expr} (ho : o.token = .symbol .comma)
    (h : ∀ rest, EndsBefore .expression rest → Recovers textEnd levels m us₁ rest e .expression)
    (hs : Recovers textEnd levels n us₂ rest (.call name es) (.arguments name)) :
    Recovers textEnd levels (max m n) (us₁ ++ o :: us₂) rest (.call name (e :: es))
      (.arguments name) := by
  intro es' hes
  cases hes
  have h' := h (o :: (us₂ ++ rest)) (endsBefore_of_symbol ho (.inr (.inl rfl)))
  simp only [Recovers] at h'
  rw [argumentList, toOption_bind, List.append_assoc, List.cons_append, h']
  by_cases hm : m ≤ levels
  · simp only [hm, if_true, Option.bind_some, toOption_bind, many_nextArgument_cons ho, hs es rfl,
      Nat.max_le, true_and]
    split
    · rfl
    · rfl
  · simp only [hm, Nat.max_le, false_and, if_false, Option.bind_none]

/-- **What is derived is read**, whatever follows the phrase, if its levels may be opened; if they
may not, the reader fails. -/
theorem recovers_of_derives {phrase : Phrase} {n : Nat} {ts : List Token} {e : Expr}
    (h : Derives phrase n ts e) : ∀ {levels : Nat} {us rest : List Located},
      tokens us = ts → EndsBefore phrase rest → Recovers textEnd levels n us rest e phrase := by
  induction h with
  | operation h ih =>
      intro levels us rest hus hrest
      exact recovers_operation (fun _ hr => ih hus hr) hrest
  | conditional hc hy hn ihc ihy ihn =>
      intro levels us rest hus hrest
      obtain ⟨cs, us, rfl, hcs, hus⟩ := tokens_eq_append_iff.1 hus
      obtain ⟨q, us, rfl, hq, hus⟩ := tokens_eq_cons_iff.1 hus
      obtain ⟨ys, us, rfl, hys, hus⟩ := tokens_eq_append_iff.1 hus
      obtain ⟨o, ns, rfl, ho, hns⟩ := tokens_eq_cons_iff.1 hus
      exact recovers_conditional hq ho (fun _ _ hr => ihc hcs hr) (fun _ _ hr => ihy hys hr)
        (fun _ _ hr => ihn hns hr) hrest
  | operand h ih =>
      intro levels us rest hus hrest level hlevel
      have h' : Recovers textEnd levels _ us rest _ .unary := ih hus hrest.1
      simp only [Recovers] at h'
      rw [climb_eq, toOption_bind, h']
      split
      · rfl
      · rfl
  | tighter hp h ih =>
      intro levels us rest hus hrest level hlevel
      exact ih hus ⟨hrest.1, fun op hop => Nat.lt_succ_of_lt (hrest.2 op hop)⟩ level
        (Nat.le_succ_of_le hlevel)
  | binary op hl hr ihl ihr =>
      intro levels us rest hus hrest
      obtain ⟨ls, us, rfl, hls, hus⟩ := tokens_eq_append_iff.1 hus
      obtain ⟨t, rs, rfl, ht, hrs⟩ := tokens_eq_cons_iff.1 hus
      exact recovers_binary ht (fun _ hr => ihl hls hr) (fun hr => ihr hrs hr) hrest
  | primary h ih =>
      intro levels us rest hus hrest
      exact recovers_primary (hus ▸ h) (ih hus hrest)
  | unary op h ih =>
      intro levels us rest hus hrest
      obtain ⟨t, us, rfl, ht, hus⟩ := tokens_eq_cons_iff.1 hus
      exact recovers_unary ht fun _ => ih hus hrest
  | literal l =>
      intro levels us rest hus hrest
      obtain ⟨t, us, rfl, ht, hus⟩ := tokens_eq_cons_iff.1 hus
      obtain rfl : us = [] := List.map_eq_nil_iff.1 hus
      simp [Recovers, primary, ht, toOption_ok]
  | parameter name =>
      intro levels us rest hus hrest
      obtain ⟨t, us, rfl, ht, hus⟩ := tokens_eq_cons_iff.1 hus
      obtain rfl : us = [] := List.map_eq_nil_iff.1 hus
      exact recovers_parameter ht hrest
  | constant name =>
      intro levels us rest hus hrest
      obtain ⟨t, us, rfl, ht, hus⟩ := tokens_eq_cons_iff.1 hus
      obtain ⟨o, us, rfl, ho, hus⟩ := tokens_eq_cons_iff.1 hus
      obtain ⟨c, us, rfl, hc, hus⟩ := tokens_eq_cons_iff.1 hus
      obtain rfl : us = [] := List.map_eq_nil_iff.1 hus
      simp [Recovers, primary, ht, accept?_cons ho, arguments, accept?_cons hc, toOption_ok, bind,
        Except.bind]
  | call h ih =>
      intro levels us rest hus hrest
      obtain ⟨t, us, rfl, ht, hus⟩ := tokens_eq_cons_iff.1 hus
      obtain ⟨o, us, rfl, ho, hus⟩ := tokens_eq_cons_iff.1 hus
      obtain ⟨us, cs, rfl, hin, hcs⟩ := tokens_eq_append_iff.1 hus
      obtain ⟨c, cs, rfl, hc, hcs⟩ := tokens_eq_cons_iff.1 hcs
      obtain rfl : cs = [] := List.map_eq_nil_iff.1 hcs
      obtain ⟨e₁, es, rfl⟩ := h.exists_call
      exact recovers_call ht ho hc (hin ▸ h) fun hr => ih hin hr
  | parens h ih =>
      intro levels us rest hus hrest
      obtain ⟨o, us, rfl, ho, hus⟩ := tokens_eq_cons_iff.1 hus
      obtain ⟨us, cs, rfl, hin, hcs⟩ := tokens_eq_append_iff.1 hus
      obtain ⟨c, cs, rfl, hc, hcs⟩ := tokens_eq_cons_iff.1 hcs
      obtain rfl : cs = [] := List.map_eq_nil_iff.1 hcs
      exact recovers_parens ho hc fun hr => ih hin hr
  | argument h ih =>
      intro levels us rest hus hrest
      exact recovers_argument (fun hr => ih hus hr) hrest
  | arguments h hs ih ihs =>
      intro levels us rest hus hrest
      obtain ⟨us₁, us, rfl, hus₁, hus⟩ := tokens_eq_append_iff.1 hus
      obtain ⟨o, us₂, rfl, ho, hus₂⟩ := tokens_eq_cons_iff.1 hus
      exact recovers_arguments ho (fun _ hr => ih hus₁ hr) (ihs hus₂ hrest)

/-- The reader of a whole list of tokens finds the tree that they derive exactly if it may open the
levels of the derivation. -/
theorem nested_of_derives (textEnd : Nat) (h : Derives .expression n (tokens us) e)
    (levels : Nat) :
    ((nested textEnd levels).1 us).toOption = if n ≤ levels then some (e, []) else none := by
  have hend : EndsBefore .expression [] := ⟨by simp [next?], by simp [next?], by
    intro op hop
    cases hop⟩
  have hr : Recovers textEnd levels n us [] e .expression := recovers_of_derives h rfl hend
  rw [Recovers, List.append_nil] at hr
  exact hr

end Recovering

end Reader

/-- **Tokens have at most one tree**, and all of its derivations open the same number of levels. -/
theorem Derives.determined {m n : Nat} {ts : List Token} {d e : Expr}
    (hd : Derives .expression m ts d) (he : Derives .expression n ts e) : m = n ∧ d = e := by
  obtain ⟨us, rfl⟩ : ∃ us, tokens us = ts :=
    ⟨ts.map fun t => ⟨t, 0, 0⟩, by simp [tokens, Function.comp_def]⟩
  have hread : ∀ levels, (if m ≤ levels then some (d, ([] : List Located)) else none) =
      if n ≤ levels then some (e, []) else none := fun levels =>
    (Reader.nested_of_derives 0 hd levels).symm.trans (Reader.nested_of_derives 0 he levels)
  have hm : n ≤ m ∧ d = e := by simpa using hread m
  have hn : m ≤ n ∧ d = e := by simpa using hread n
  exact ⟨Nat.le_antisymm hn.1 hm.1, hm.2⟩

/-- The tree of a list of tokens is the one that the grammar derives within the limit. -/
theorem Expr.ofTokens_eq_ok_iff {textEnd : Nat} {ts : List Located} {e : Expr} :
    Expr.ofTokens textEnd ts = .ok e ↔
      ∃ n ≤ nestingLimit, Derives .expression n (tokens ts) e := by
  rw [Expr.ofTokens_eq_nested, bind_eq_ok_iff]
  constructor
  · intro h
    obtain ⟨⟨e', rest⟩, hr, hout⟩ := h
    cases rest with
    | nil =>
        cases hout
        obtain ⟨used, n, rfl, hn, hd⟩ := (Reader.takes_nested textEnd nestingLimit).1 hr
        exact ⟨n, Nat.lt_succ_iff.1 hn, by simpa using hd⟩
    | cons t rest => cases hout
  · intro h
    obtain ⟨n, hn, hd⟩ := h
    have hr := Reader.nested_of_derives textEnd hd nestingLimit
    rw [if_pos hn] at hr
    cases hres : (Reader.nested textEnd nestingLimit).1 ts with
    | error _ => rw [hres] at hr; cases hr
    | ok p =>
        rw [hres] at hr
        obtain rfl : p = (e, []) := Option.some.inj hr
        exact ⟨(e, []), rfl, rfl⟩

/-- **Reading is deriving.**  A list of tokens is read as a tree exactly if the grammar derives that
tree from all of them with no more levels of nesting open at once than the limit allows, and the
grammar derives at most one. -/
theorem Expr.ofTokens_reads_grammar (textEnd : Nat) (ts : List Located) :
    (∀ e, Expr.ofTokens textEnd ts = .ok e ↔
      ∃ n ≤ nestingLimit, Derives .expression n (tokens ts) e) ∧
    (∀ m n d e, Derives .expression m (tokens ts) d → Derives .expression n (tokens ts) e →
      m = n ∧ d = e) :=
  ⟨fun _ => Expr.ofTokens_eq_ok_iff, fun _ _ _ _ => Derives.determined⟩

/-- The tokens of `1 - 2 - 3` have the tree that is grouped to the left, and no other one. -/
theorem Expr.ofTokens_reads_difference :
    Expr.ofTokens 9 [⟨.literal (.integer 1), 0, 1⟩, ⟨.symbol .minus, 2, 3⟩,
        ⟨.literal (.integer 2), 4, 5⟩, ⟨.symbol .minus, 6, 7⟩, ⟨.literal (.integer 3), 8, 9⟩] =
      .ok (.binary .subtract
        (.binary .subtract (.literal (.integer 1)) (.literal (.integer 2)))
        (.literal (.integer 3))) ∧
    ∀ n e, Derives .expression n [.literal (.integer 1), .symbol .minus, .literal (.integer 2),
        .symbol .minus, .literal (.integer 3)] e →
      n = 1 ∧ e = .binary .subtract
        (.binary .subtract (.literal (.integer 1)) (.literal (.integer 2)))
        (.literal (.integer 3)) := by
  have hd : Derives .expression 1 [.literal (.integer 1), .symbol .minus, .literal (.integer 2),
      .symbol .minus, .literal (.integer 3)] (.binary .subtract
        (.binary .subtract (.literal (.integer 1)) (.literal (.integer 2)))
        (.literal (.integer 3))) := by
    have hlit : ∀ p ≤ 11, ∀ i, Derives (.operation p) 0 [.literal (.integer i)]
        (.literal (.integer i)) := fun p hp i => (Derives.literal _).ofPrimary hp
    have hleft := Derives.binary .subtract (hlit _ (by decide) 1) (hlit _ (by decide) 2)
    have hboth := Derives.binary .subtract hleft (hlit _ (by decide) 3)
    exact (hboth.lower (by decide) (by decide)).operation
  have hreads := Expr.ofTokens_reads_grammar 9 [⟨.literal (.integer 1), 0, 1⟩,
    ⟨.symbol .minus, 2, 3⟩, ⟨.literal (.integer 2), 4, 5⟩, ⟨.symbol .minus, 6, 7⟩,
    ⟨.literal (.integer 3), 8, 9⟩]
  exact ⟨(hreads.1 _).2 ⟨1, by decide, hd⟩, fun n e he => hreads.2 n 1 e _ he hd⟩

end FormulaEngine
