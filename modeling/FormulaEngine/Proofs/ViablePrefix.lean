import FormulaEngine.Proofs.Reading

/-!
# Faults stand at the first token that is wrong

When a reader refuses a token, it has gone past the ones before and has looked no further.  Those
before can be completed to a phrase, at whatever depth of nesting they leave off; with the refused
token behind them, nothing completes them.

* `Reader.Sees` -- a reader looks one token ahead;
* `Reader.Attentive` -- what a reader takes and what it refuses at a place of the grammar;
* `Attentive.andThen`, `Attentive.cons`, `Attentive.expectThen` -- readers one after the other;
* `attentive_nested` -- the readers of formulas;
* `Expr.viable_prefix_of_error` -- the faults of whole lists of tokens.
-/

namespace FormulaEngine

/-- Tokens that can be completed to tokens with a property. -/
def Begins (D : List Token → Prop) (ts : List Token) : Prop := ∃ more, D (ts ++ more)

theorem Begins.of {D : List Token → Prop} {ts : List Token} (h : D ts) : Begins D ts :=
  ⟨[], by simpa using h⟩

namespace Reader

/-- The tokens of a phrase with fewer than `bound` levels open at once. -/
def Within (phrase : Phrase) (bound : Nat) (ts : List Token) : Prop :=
  ∃ n e, n < bound ∧ Derives phrase n ts e

/-- The answer of a reader that has gone past the tokens `used` depends on those and on the next
one, but on none behind it. -/
def Sees {α : Type} (r : Reader α) (used rest : List Located) : Prop :=
  ∀ rest', rest'.head? = rest.head? →
    r (used ++ rest') = (r (used ++ rest)).map fun p => (p.1, rest')

/-- A fault that is found with these tokens still ahead. -/
structure FoundAt (textEnd : Nat) (err : SyntaxError) (rest : List Located) : Prop where
  position : err.position = Reader.position textEnd rest
  unexpected : ∀ token, err.fault = .unexpected token → next? rest = some token
  expected : ∀ what, err.fault = .expected what → rest ≠ []
  endOfInput : err.fault = .endOfInput → rest = []

/-- A reader at a place that tokens with a property complete.  It looks one token ahead; and unless
the levels of nesting are used up, what it has gone past before a fault can be completed. -/
structure Attentive {α : Type} (textEnd : Nat) (D : List Token → Prop) (r : Reader α)
    (ts : List Located) : Prop where
  takes : ∀ {a rest}, r ts = .ok (a, rest) → ∃ used, ts = used ++ rest ∧ Sees r used rest
  refuses : ∀ {err}, r ts = .error err →
    ∃ before rest, ts = before ++ rest ∧ Sees r before rest ∧ FoundAt textEnd err rest ∧
      (err.fault ≠ .nestedTooDeep → Begins D (tokens before))

/-- One reader, and then another one, which may depend on what the first one has read. -/
def andThen {α β : Type} (r : Reader α) (s : α → Reader β) : Reader β := fun ts =>
  r ts >>= fun p => s p.1 p.2

/-! ## Rules for readers -/

section Rules

variable {α β : Type} {textEnd : Nat} {D E : List Token → Prop} {r s : Reader α}
  {ts : List Located}

theorem head?_append_congr {used rest rest' : List Located} (h : rest'.head? = rest.head?) :
    (used ++ rest').head? = (used ++ rest).head? := by
  cases used with
  | nil => exact h
  | cons t us => rfl

/-- A reader that takes nothing. -/
theorem Attentive.done (a : α) : Attentive textEnd D (fun ts => .ok (a, ts)) ts where
  takes := by
    intro b rest h
    cases h
    exact ⟨[], rfl, fun _ _ => rfl⟩
  refuses := fun h => nomatch h

theorem Attentive.imp (h : Attentive textEnd D r ts) (hDE : ∀ us, D us → Begins E us) :
    Attentive textEnd E r ts where
  takes := h.takes
  refuses := by
    intro err herr
    obtain ⟨before, rest, hts, hsees, hfound, hbegins⟩ := h.refuses herr
    refine ⟨before, rest, hts, hsees, hfound, fun hdeep => ?_⟩
    obtain ⟨more, hmore⟩ := hbegins hdeep
    obtain ⟨more', hmore'⟩ := hDE _ hmore
    exact ⟨more ++ more', by rwa [← List.append_assoc]⟩

/-- Readers that agree on all tokens with the same first one. -/
theorem Attentive.congr (h : Attentive textEnd D s ts)
    (hrs : ∀ us, us.head? = ts.head? → r us = s us) : Attentive textEnd D r ts := by
  have hsees : ∀ {used rest}, ts = used ++ rest → Sees s used rest → Sees r used rest := by
    intro used rest hts hs rest' hrest'
    subst hts
    rw [hrs _ (head?_append_congr hrest'), hrs _ rfl]
    exact hs rest' hrest'
  constructor
  · intro a rest hr
    obtain ⟨used, hts, hs⟩ := h.takes ((hrs ts rfl).symm.trans hr)
    exact ⟨used, hts, hsees hts hs⟩
  · intro err hr
    obtain ⟨before, rest, hts, hs, hfound⟩ := h.refuses ((hrs ts rfl).symm.trans hr)
    exact ⟨before, rest, hts, hsees hts hs, hfound⟩

/-- A reader that takes nothing in front of such a token. -/
theorem Attentive.stop (a : α) (hr : ∀ us, us.head? = ts.head? → r us = .ok (a, us)) :
    Attentive textEnd D r ts := (Attentive.done a).congr hr

/-- A reader that takes a first token and goes on as another one. -/
theorem Attentive.cons {t : Located} (h : Attentive textEnd (fun us => D (t.token :: us)) s ts)
    (hrs : ∀ us, r (t :: us) = s us) : Attentive textEnd D r (t :: ts) := by
  have hsees : ∀ {used rest}, Sees s used rest → Sees r (t :: used) rest := by
    intro used rest hs rest' hrest'
    rw [List.cons_append, List.cons_append, hrs, hrs]
    exact hs rest' hrest'
  constructor
  · intro a rest hr
    obtain ⟨used, hts, hs⟩ := h.takes ((hrs ts).symm.trans hr)
    exact ⟨t :: used, congrArg (t :: ·) hts, hsees hs⟩
  · intro err hr
    obtain ⟨before, rest, hts, hs, hfound⟩ := h.refuses ((hrs ts).symm.trans hr)
    exact ⟨t :: before, rest, congrArg (t :: ·) hts, hsees hs, hfound⟩

/-- A reader that refuses the next token, or the end of the tokens. -/
theorem Attentive.fault (fault : Fault)
    (hr : ∀ us, us.head? = ts.head? → r us = .error ⟨fault, position textEnd us⟩)
    (hfound : FoundAt textEnd ⟨fault, position textEnd ts⟩ ts)
    (hbegins : fault ≠ .nestedTooDeep → ∃ more, D more) : Attentive textEnd D r ts where
  takes := by
    intro a rest h
    rw [hr ts rfl] at h
    exact nomatch h
  refuses := by
    intro err h
    rw [hr ts rfl] at h
    cases h
    refine ⟨[], ts, rfl, fun rest' hrest' => ?_, hfound, fun hdeep => hbegins hdeep⟩
    have hposition : position textEnd rest' = position textEnd ts := by
      cases rest' <;> cases ts <;> simp_all [position]
    rw [List.nil_append, List.nil_append, hr rest' hrest', hr ts rfl, hposition]
    rfl

/-- What the first reader sees, and then the second one. -/
theorem Sees.andThen {s : α → Reader β} {used more rest : List Located} {a : α}
    (hr : r (used ++ (more ++ rest)) = .ok (a, more ++ rest)) (hsees : Sees r used (more ++ rest))
    (hsees' : Sees (s a) more rest) : Sees (r.andThen s) (used ++ more) rest := by
  intro rest' hrest'
  have hfirst := hsees (more ++ rest') (head?_append_congr hrest')
  rw [hr] at hfirst
  have hsecond := hsees' rest' hrest'
  simp only [Reader.andThen, List.append_assoc, hfirst, hr]
  exact hsecond

/-- **Readers one after the other.**  The second one completes the place behind what the first one
has taken; and what completes the first one begins what completes both. -/
theorem Attentive.andThen {s : α → Reader β} (hr : Attentive textEnd D r ts)
    (hs : ∀ used a rest, ts = used ++ rest → r ts = .ok (a, rest) →
      Attentive textEnd (fun us => E (tokens used ++ us)) (s a) rest)
    (hDE : ∀ us, D us → Begins E us) : Attentive textEnd E (r.andThen s) ts where
  takes := by
    intro b rest h
    obtain ⟨⟨a, ts₁⟩, ha, hb⟩ := bind_eq_ok_iff.1 h
    obtain ⟨used, rfl, hsees⟩ := hr.takes ha
    obtain ⟨more, rfl, hsees'⟩ := (hs used a ts₁ rfl ha).takes hb
    exact ⟨used ++ more, (List.append_assoc ..).symm, hsees.andThen ha hsees'⟩
  refuses := by
    intro err h
    unfold Reader.andThen at h
    cases ha : r ts with
    | error err' =>
        obtain ⟨before, rest, rfl, hsees, hfound, hbegins⟩ := (hr.imp hDE).refuses ha
        rw [ha] at h
        cases h
        refine ⟨before, rest, rfl, fun rest' hrest' => ?_, hfound, hbegins⟩
        have hfirst := hsees rest' hrest'
        rw [ha] at hfirst
        simp only [Reader.andThen, hfirst, ha]
        rfl
    | ok p =>
        obtain ⟨a, ts₁⟩ := p
        rw [ha] at h
        obtain ⟨used, rfl, hsees⟩ := hr.takes ha
        obtain ⟨before, rest, rfl, hsees', hfound, hbegins⟩ := (hs used a ts₁ rfl ha).refuses h
        refine ⟨used ++ before, rest, (List.append_assoc ..).symm, hsees.andThen ha hsees', hfound,
          fun hdeep => ?_⟩
        obtain ⟨more, hmore⟩ := hbegins hdeep
        exact ⟨more, by rwa [tokens_append, List.append_assoc]⟩

/-- A symbol that must come next, and then a reader. -/
theorem Attentive.expectThen {sym : Symbol} {what : Expectation}
    (hs : ∀ us, ts.length = us.length + 1 →
      Attentive textEnd (fun us => D (.symbol sym :: us)) s us)
    (hbegins : ∃ more, D more) :
    Attentive textEnd D (fun ts => expect textEnd sym what ts >>= s) ts := by
  cases ts with
  | nil =>
      refine Attentive.fault .endOfInput ?_ ?_ fun _ => hbegins
      · intro us hus
        rw [List.head?_eq_none_iff.1 hus]
        rfl
      · exact ⟨rfl, by simp, by simp, fun _ => rfl⟩
  | cons t us =>
      by_cases ht : t.token = .symbol sym
      · refine Attentive.cons (s := s) ?_ fun us => ?_
        · rw [ht]
          exact hs us rfl
        · rw [expect, if_pos ht]
          rfl
      · refine Attentive.fault (.expected what) ?_ ?_ fun _ => hbegins
        · intro us hus
          obtain ⟨us, rfl⟩ := List.head?_eq_some_iff.1 hus
          rw [expect, if_neg ht]
          rfl
        · exact ⟨rfl, by simp, by simp, by simp⟩

end Rules

/-! ## The readers of formulas -/

section Readers

variable {textEnd bound level : Nat} {expression operand u : Reader Expr}

theorem accept?_eq_none_of_head? {sym : Symbol} {ts us : List Located}
    (h : accept? sym ts = none) (hus : us.head? = ts.head?) : accept? sym us = none := by
  rw [accept?_eq_none_iff] at h ⊢
  rwa [next?, hus]

theorem Takes.derives {phrase : Phrase} (h : Takes expression phrase bound)
    {used rest : List Located} {e : Expr} (hr : expression (used ++ rest) = .ok (e, rest)) :
    ∃ n < bound, Derives phrase n (tokens used) e := by
  obtain ⟨used', n, hused, hn, hd⟩ := h hr
  rw [List.append_cancel_right hused]
  exact ⟨n, hn, hd⟩

/-- A literal is a phrase of every sort that a reader begins with. -/
theorem within_literal (hb : 0 < bound) : Within .primary bound [.literal (.integer 0)] :=
  ⟨0, _, hb, .literal _⟩

/-- An expression opens a level of its own. -/
theorem expression_levels_pos {n : Nat} {ts : List Token} {e : Expr}
    (h : Derives .expression n ts e) : 0 < n := by
  cases h <;> exact Nat.succ_pos _

/-- Where an expression may stand, a literal may stand. -/
theorem within_expression_literal {n : Nat} {ts : List Token} {e : Expr}
    (h : Derives .expression n ts e) (hn : n < bound) :
    Within .expression bound [.literal (.integer 0)] := by
  have hpos := expression_levels_pos h
  exact ⟨1, _, by omega, .operation ((Derives.literal _).ofPrimary (by decide))⟩

/-- The loop over the arguments behind the first one, which the tokens `us` are. -/
theorem attentive_moreArguments (htakes : Takes expression .expression bound)
    (h : ∀ ts, Attentive textEnd (Within .expression bound) expression ts) (name : String)
    {us : List Token} {n : Nat} {e : Expr} (hd : Derives .expression n us e) (hn : n < bound)
    (ts : List Located) :
    Attentive textEnd (fun vs => Within (.arguments name) bound (us ++ vs))
      (many (nextArgument expression)) ts := by
  have hadv := advances_nextArgument htakes
  obtain ⟨size, hsize⟩ : ∃ size, size = ts.length := ⟨_, rfl⟩
  induction size using Nat.strongRecOn generalizing us n e ts with
  | ind size ih =>
      cases hcomma : accept? .comma ts with
      | none =>
          refine Attentive.stop [] fun ts' hts' => ?_
          rw [many_eq hadv, nextArgument, accept?_eq_none_of_head? hcomma hts']
          rfl
      | some behind =>
          obtain ⟨t, rfl, ht⟩ := accept?_eq_some_iff.1 hcomma
          refine Attentive.cons (s := expression.andThen fun a =>
            (many (nextArgument expression)).andThen fun as ts => .ok (a :: as, ts)) ?_
            fun ts' => ?_
          · rw [ht]
            refine (h behind).andThen ?_ ?_
            · intro used a rest hused ha
              subst hused
              obtain ⟨n', hn', hd'⟩ := htakes.derives ha
              have hrest := ih rest.length (by simp at hsize; omega) hd' hn' rest rfl
              refine Attentive.andThen hrest (fun _ _ _ _ _ => Attentive.done _) ?_
              intro vs hvs
              obtain ⟨k, c, hk, hc⟩ := hvs
              obtain ⟨e₁, es, rfl⟩ := hc.exists_call
              exact .of ⟨max n k, _, by omega, hd.arguments hc⟩
            · intro vs hvs
              obtain ⟨k, c, hk, hc⟩ := hvs
              exact .of ⟨max n k, _, by omega, hd.arguments hc.argument⟩
          · rw [many_eq hadv, nextArgument, accept?_cons ht]
            rfl

/-- The arguments of a call and the parenthesis behind them, at a place that they complete. -/
theorem attentive_arguments (htakes : Takes expression .expression bound)
    (h : ∀ ts, Attentive textEnd (Within .expression bound) expression ts) (name : String)
    {D : List Token → Prop}
    (hsome : ∀ us, Within (.arguments name) bound us → D (us ++ [.symbol .rightParen]))
    (ts : List Located) : Attentive textEnd D (arguments textEnd expression) ts := by
  cases hclose : accept? .rightParen ts with
  | some behind =>
      obtain ⟨t, rfl, ht⟩ := accept?_eq_some_iff.1 hclose
      refine Attentive.cons (Attentive.done []) fun us => ?_
      rw [arguments, accept?_cons ht]
  | none =>
      refine Attentive.congr (s := expression.andThen fun first =>
        (many (nextArgument expression)).andThen fun more ts =>
          expect textEnd .rightParen .commaOrClosing ts >>= fun ts => .ok (first :: more, ts))
        ?_ fun us hus => ?_
      · refine (h ts).andThen ?_ ?_
        · intro used e rest hused he
          subst hused
          obtain ⟨n, hn, hd⟩ := htakes.derives he
          refine (attentive_moreArguments htakes h name hd hn rest).andThen ?_ ?_
          · intro used' more rest' hused' hmore
            subst hused'
            refine Attentive.expectThen (fun us _ => Attentive.done _) ?_
            obtain ⟨us, k, hus, hk, hds⟩ := takes_arguments_from htakes name hd hn hmore
            rw [← List.append_cancel_right hus, tokens_append] at hds
            exact ⟨[.symbol .rightParen], by simpa using hsome _ ⟨k, _, hk, hds⟩⟩
          · intro vs hvs
            exact ⟨[.symbol .rightParen], by simpa using hsome _ hvs⟩
        · intro us hus
          obtain ⟨n, e, hn, hd⟩ := hus
          exact ⟨_, hsome us ⟨n, _, hn, hd.argument⟩⟩
      · rw [arguments, accept?_eq_none_of_head? hclose hus]
        rfl

/-- A name, which is that of a function in front of a parenthesis. -/
theorem attentive_name (htakes : Takes expression .expression bound)
    (h : ∀ ts, Attentive textEnd (Within .expression bound) expression ts) {t : Located}
    {name : String} (ht : t.token = .name name) (us : List Located) :
    Attentive textEnd (Within .primary bound) (primary textEnd expression) (t :: us) := by
  refine Attentive.cons (s := fun vs => primary textEnd expression (t :: vs)) ?_ fun _ => rfl
  cases hopen : accept? .leftParen us with
  | none =>
      refine Attentive.stop (.parameter name) fun vs hvs => ?_
      simp only [primary, ht, accept?_eq_none_of_head? hopen hvs]
  | some behind =>
      obtain ⟨o, rfl, ho⟩ := accept?_eq_some_iff.1 hopen
      refine Attentive.cons (s := (arguments textEnd expression).andThen fun args vs =>
        .ok (.call name args, vs)) ?_ fun vs => ?_
      · have hcall : ∀ vs, Within (.arguments name) bound vs → Within .primary bound
            (.name name :: .symbol .leftParen :: (vs ++ [.symbol .rightParen])) := by
          intro vs hvs
          obtain ⟨n, e, hn, hd⟩ := hvs
          exact ⟨n, e, hn, hd.call⟩
        refine Attentive.andThen (D := fun vs =>
          Within .primary bound (.name name :: .symbol .leftParen :: vs))
          (attentive_arguments htakes h name hcall behind) (fun _ _ _ _ _ => Attentive.done _) ?_
        intro vs hvs
        rw [ht, ho]
        exact .of hvs
      · simp only [primary, ht, accept?_cons ho]
        rfl

/-- An expression in parentheses. -/
theorem attentive_parens (htakes : Takes expression .expression bound)
    (h : ∀ ts, Attentive textEnd (Within .expression bound) expression ts) {t : Located}
    (ht : t.token = .symbol .leftParen) (us : List Located) :
    Attentive textEnd (Within .primary bound) (primary textEnd expression) (t :: us) := by
  refine Attentive.cons (s := expression.andThen fun e vs =>
    expect textEnd .rightParen .closing vs >>= fun vs => .ok (e, vs)) ?_ fun vs => ?_
  · rw [ht]
    refine (h us).andThen ?_ ?_
    · intro used e rest hused he
      subst hused
      obtain ⟨n, hn, hd⟩ := htakes.derives he
      exact Attentive.expectThen (fun _ _ => Attentive.done e)
        ⟨[.symbol .rightParen], n, e, hn, hd.parens⟩
    · intro vs hvs
      obtain ⟨n, e, hn, hd⟩ := hvs
      exact ⟨[.symbol .rightParen], n, e, hn, hd.parens⟩
  · simp only [primary, ht, if_true]
    rfl

theorem attentive_primary (htakes : Takes expression .expression bound) (hb : 0 < bound)
    (h : ∀ ts, Attentive textEnd (Within .expression bound) expression ts) (ts : List Located) :
    Attentive textEnd (Within .primary bound) (primary textEnd expression) ts := by
  cases ts with
  | nil =>
      refine Attentive.fault .endOfInput ?_ ?_ fun _ => ⟨_, within_literal hb⟩
      · intro us hus
        rw [List.head?_eq_none_iff.1 hus]
        rfl
      · exact ⟨rfl, by simp, by simp, fun _ => rfl⟩
  | cons t us =>
      cases ht : t.token with
      | literal l =>
          refine Attentive.cons (Attentive.done (.literal l)) fun vs => ?_
          simp only [primary, ht]
      | name name => exact attentive_name htakes h ht us
      | symbol sym =>
          by_cases hsym : sym = .leftParen
          · subst hsym
            exact attentive_parens htakes h ht us
          · refine Attentive.fault (.unexpected t.token) ?_ ?_ fun _ => ⟨_, within_literal hb⟩
            · intro vs hvs
              obtain ⟨vs, rfl⟩ := List.head?_eq_some_iff.1 hvs
              simp only [primary, ht, if_neg hsym]
              rfl
            · exact ⟨rfl, by simp [next?], by simp, by simp⟩

/-- The operand of a unary operator opens a level. -/
theorem attentive_unary (htakes : Takes expression .expression (bound + 1))
    (h : ∀ ts, Attentive textEnd (Within .expression (bound + 1)) expression ts)
    (ho : ∀ ts, Attentive textEnd (Within .unary bound) operand ts) (ts : List Located) :
    Attentive textEnd (Within .unary (bound + 1)) (Reader.unary textEnd expression operand) ts := by
  cases hop : ts.head?.bind (·.token.unary?) with
  | some op =>
      obtain ⟨t, us, rfl, ht⟩ := head_unary?_eq_some_iff.1 hop
      refine Attentive.cons (s := operand.andThen fun e vs => .ok (.unary op e, vs)) ?_ fun vs => ?_
      · refine (ho us).andThen (fun _ _ _ _ _ => Attentive.done _) ?_
        intro vs hvs
        obtain ⟨n, e, hn, hd⟩ := hvs
        rw [ht]
        exact .of ⟨n + 1, _, by omega, hd.unary op⟩
      · rw [unary_of_operator vs ht]
        rfl
  | none =>
      have hprimary := (attentive_primary htakes (Nat.succ_pos bound) h ts).imp
        (E := Within .unary (bound + 1)) fun us hus => by
          obtain ⟨n, e, hn, hd⟩ := hus
          exact .of ⟨n, e, hn, hd.primary⟩
      refine hprimary.congr fun us hus => ?_
      simp only [Reader.unary, hus, hop]

/-- The loop over binary operators.  As in `takes_climb`, the left operand `us` is an operation of
some level `q`, and the next operator, unless it ends the loop, binds at most as tightly. -/
theorem attentive_climbOn (htakes : Takes u .unary bound)
    (h : ∀ op : BinaryOp, level ≤ op.precedence → ∀ ts,
      Attentive textEnd (Within (.operation (op.precedence + 1)) bound)
        (climb u (op.precedence + 1)) ts)
    {us : List Token} {left : Expr} {q n : Nat} (hd : Derives (.operation q) n us left)
    (hn : n < bound) (hq : q ≤ 11) (ts : List Located) (hsettled : Settled (q + 1) ts) :
    Attentive textEnd (fun vs => Within (.operation level) bound (us ++ vs))
      (climbOn u level left) ts := by
  obtain ⟨size, hsize⟩ : ∃ size, size = ts.length := ⟨_, rfl⟩
  induction size using Nat.strongRecOn generalizing us left q n ts with
  | ind size ih =>
      by_cases hstop : Settled level ts
      · refine Attentive.stop left fun ts' hts' => climbOn_of_settled ?_
        intro op hop
        rw [next?, hts'] at hop
        exact hstop op hop
      · obtain ⟨op, hop, hlevel⟩ : ∃ op, next? ts = some (.symbol (.ofBinary op)) ∧
            level ≤ op.precedence := by
          simpa [Settled] using hstop
        obtain ⟨t, behind, rfl, ht⟩ : ∃ t behind, ts = t :: behind ∧
            t.token = .symbol (.ofBinary op) := by
          cases ts <;> simp_all [next?]
        have hopq : op.precedence ≤ q := Nat.lt_succ_iff.1 (hsettled op hop)
        refine Attentive.cons (s := Reader.andThen (climb u (op.precedence + 1)) fun right =>
          climbOn u level (.binary op left right)) ?_ fun vs => climbOn_cons htakes ht hlevel
        rw [ht]
        refine (h op hlevel behind).andThen ?_ ?_
        · intro used right rest hused hright
          subst hused
          have hle := op.precedence_le
          have htight : op.precedence + 1 ≤ 11 := by omega
          have hoperation := takes_climb htakes htight
          obtain ⟨m, hm, hd'⟩ := hoperation.1.derives hright
          have hboth := (hd.lower hopq hq).binary op hd'
          have hrest := ih rest.length (by simp at hsize; omega) hboth (by omega) (by omega) rest
            (hoperation.2 hright) rfl
          simpa using hrest
        · intro vs hvs
          obtain ⟨m, right, hm, hd'⟩ := hvs
          have hle := op.precedence_le
          have hboth := (hd.lower hopq hq).binary op hd'
          exact .of ⟨max n m, _, by omega, hboth.lower hlevel (by omega)⟩

/-- By induction from the tightest level down, as for `takes_climb`. -/
theorem attentive_climb (htakes : Takes u .unary bound)
    (h : ∀ ts, Attentive textEnd (Within .unary bound) u ts) (hlevel : level ≤ 11)
    (ts : List Located) :
    Attentive textEnd (Within (.operation level) bound) (climb u level) ts := by
  obtain ⟨d, hd⟩ : ∃ d, d = 11 - level := ⟨_, rfl⟩
  induction d using Nat.strongRecOn generalizing level ts with
  | ind d ih =>
      have htighter : ∀ op : BinaryOp, level ≤ op.precedence → ∀ ts,
          Attentive textEnd (Within (.operation (op.precedence + 1)) bound)
            (climb u (op.precedence + 1)) ts := by
        intro op hl ts
        have hle := op.precedence_le
        exact ih (11 - (op.precedence + 1)) (by omega) (by omega) ts rfl
      refine Attentive.congr (s := u.andThen (climbOn u level)) ?_ fun us _ => climb_eq u level us
      refine (h ts).andThen ?_ ?_
      · intro used first rest hused hfirst
        subst hused
        obtain ⟨n, hn, hd'⟩ := htakes.derives hfirst
        refine attentive_climbOn htakes htighter hd'.operand hn (Nat.le_refl 11) rest ?_
        intro op _
        have hle := op.precedence_le
        omega
      · intro vs hvs
        obtain ⟨n, e, hn, hd'⟩ := hvs
        exact .of ⟨n, e, hn, hd'.operand.lower hlevel (Nat.le_refl 11)⟩

/-- What comes behind a condition: a question mark and two branches, or nothing. -/
def branches (textEnd : Nat) (expression : Reader Expr) (c : Expr) : Reader Expr := fun vs =>
  match accept? .question vs with
  | none => .ok (c, vs)
  | some vs => (expression.andThen fun yes vs => expect textEnd .colon .colon vs >>=
      expression.andThen fun no vs => .ok (.conditional c yes no, vs)) vs

/-- The branches are expressions that open a level inside of the conditional. -/
theorem attentive_branches (htakes : Takes expression .expression bound)
    (h : ∀ ts, Attentive textEnd (Within .expression bound) expression ts) {us : List Token}
    {c : Expr} {k : Nat} (hdc : Derives (.operation 1) k us c) (hk : k < bound)
    (ts : List Located) :
    Attentive textEnd (fun vs => Within .expression (bound + 1) (us ++ vs))
      (branches textEnd expression c) ts := by
  cases hquestion : accept? .question ts with
  | none =>
      refine Attentive.stop c fun us hus => ?_
      rw [branches, accept?_eq_none_of_head? hquestion hus]
  | some behind =>
      obtain ⟨t, rfl, ht⟩ := accept?_eq_some_iff.1 hquestion
      refine Attentive.cons (s := expression.andThen fun yes vs =>
        expect textEnd .colon .colon vs >>=
          expression.andThen fun no vs => .ok (.conditional c yes no, vs)) ?_ fun vs => ?_
      · rw [ht]
        refine (h behind).andThen ?_ ?_
        · intro used yes rest hused hyes
          subst hused
          obtain ⟨m, hm, hdy⟩ := htakes.derives hyes
          have hno : ∀ vs, Within .expression bound vs → Within .expression (bound + 1)
              (us ++ .symbol .question :: (tokens used ++ .symbol .colon :: vs)) := by
            intro vs hvs
            obtain ⟨n, e, hn, hdn⟩ := hvs
            exact ⟨_, _, by omega, hdc.conditional hdy hdn⟩
          refine Attentive.expectThen (fun us _ => ?_) ⟨_, hno _ (within_expression_literal hdy hm)⟩
          exact (h us).andThen (fun _ _ _ _ _ => Attentive.done _) fun vs hvs => .of (hno vs hvs)
        · intro vs hvs
          obtain ⟨m, yes, hm, hdy⟩ := hvs
          obtain ⟨n, no, hn, hdn⟩ := within_expression_literal hdy hm
          exact ⟨_, _, _, by omega, hdc.conditional hdy hdn⟩
      · rw [branches, accept?_cons ht]

/-- A conditional begins with an operation, which may be all of it. -/
theorem attentive_conditional (htakes : Takes expression .expression bound)
    (h : ∀ ts, Attentive textEnd (Within .expression bound) expression ts)
    (hutakes : Takes u .unary bound)
    (hu : ∀ ts, Attentive textEnd (Within .unary bound) u ts) (ts : List Located) :
    Attentive textEnd (Within .expression (bound + 1)) (conditional textEnd expression u) ts := by
  refine Attentive.congr (s := Reader.andThen (climb u 1) (branches textEnd expression)) ?_
    fun _ _ => rfl
  refine (attentive_climb hutakes hu (by decide) ts).andThen ?_ ?_
  · intro used c rest hused hc
    subst hused
    obtain ⟨k, hk, hdc⟩ := (takes_climb hutakes (by decide)).1.derives hc
    exact attentive_branches htakes h hdc hk rest
  · intro vs hvs
    obtain ⟨n, e, hn, hd⟩ := hvs
    exact .of ⟨n + 1, e, by omega, hd.operation⟩

/-- **The readers of formulas are attentive**, however many levels they may open. -/
theorem attentive_nested (textEnd levels : Nat) :
    (∀ ts, Attentive textEnd (Within .expression (levels + 1)) (nested textEnd levels).1 ts) ∧
      ∀ ts, Attentive textEnd (Within .unary levels) (nested textEnd levels).2 ts := by
  have hdeep : ∀ {D ts}, Attentive textEnd D (tooDeep textEnd) ts := by
    intro D ts
    refine Attentive.fault .nestedTooDeep (fun _ _ => rfl) ?_ fun h => absurd rfl h
    exact ⟨rfl, by simp, by simp, by simp⟩
  induction levels with
  | zero => exact ⟨fun _ => hdeep, fun _ => hdeep⟩
  | succ levels ih =>
      have htakes := takes_nested textEnd levels
      have hu := attentive_unary htakes.1 ih.1 ih.2
      exact ⟨attentive_conditional htakes.1 ih.1 (takes_unary htakes.1 htakes.2) hu, hu⟩

end Readers

end Reader

/-! ## Whole lists of tokens -/

/-- The reader that asks for the end of the tokens. -/
def Reader.atEnd (e : Expr) : Reader Expr
  | [] => .ok (e, [])
  | t :: _ => .error ⟨.unexpected t.token, t.start⟩

namespace Expr

/-- A formula is an expression and the end of the tokens. -/
theorem ofTokens_eq (textEnd : Nat) (ts : List Located) : ofTokens textEnd ts =
    Prod.fst <$> (Reader.nested textEnd nestingLimit).1.andThen Reader.atEnd ts := by
  rw [ofTokens_eq_nested]
  unfold Reader.andThen
  cases (Reader.nested textEnd nestingLimit).1 ts with
  | error err => rfl
  | ok p =>
      obtain ⟨e, rest⟩ := p
      cases rest <;> rfl

theorem attentive_formula (textEnd : Nat) (ts : List Located) :
    Reader.Attentive textEnd (Reader.Within .expression (nestingLimit + 1))
      ((Reader.nested textEnd nestingLimit).1.andThen Reader.atEnd) ts := by
  refine ((Reader.attentive_nested textEnd nestingLimit).1 ts).andThen ?_ fun _ => .of
  intro used e rest hused he
  subst hused
  obtain ⟨n, hn, hd⟩ := (Reader.takes_nested textEnd nestingLimit).1.derives he
  cases rest with
  | nil =>
      refine Reader.Attentive.stop e fun us hus => ?_
      rw [List.head?_eq_none_iff.1 hus]
      rfl
  | cons t after =>
      refine Reader.Attentive.fault (.unexpected t.token) ?_ ?_ fun _ =>
        ⟨[], n, e, hn, by simpa using hd⟩
      · intro us hus
        obtain ⟨us, rfl⟩ := List.head?_eq_some_iff.1 hus
        rfl
      · exact ⟨rfl, by simp [Reader.next?], by simp, by simp⟩

/-- Tokens that are read as a formula, wherever their text ends. -/
def Accepts (ts : List Located) : Prop := ∃ e, ∀ textEnd, ofTokens textEnd ts = .ok e

/-- Tokens that can be continued to a formula. -/
def Viable (ts : List Located) : Prop := ∃ more, Accepts (ts ++ more)

/-- Whether tokens are a formula does not depend on the end of the text. -/
theorem accepts_iff {textEnd : Nat} {ts : List Located} :
    Accepts ts ↔ ∃ e, ofTokens textEnd ts = .ok e := by
  constructor
  · intro h
    obtain ⟨e, he⟩ := h
    exact ⟨e, he textEnd⟩
  · intro h
    obtain ⟨e, he⟩ := h
    exact ⟨e, fun _ => ofTokens_eq_ok_iff.2 (ofTokens_eq_ok_iff.1 he)⟩

theorem not_accepts_of_error {textEnd : Nat} {ts : List Located} {err : SyntaxError}
    (h : ofTokens textEnd ts = .error err) : ¬Accepts ts := by
  intro haccepts
  obtain ⟨e, he⟩ := accepts_iff.1 haccepts
  exact nomatch h.symm.trans he

/-- Tokens that begin an expression within the limit can be continued to a formula. -/
theorem viable_of_begins {ts : List Located}
    (h : Begins (Reader.Within .expression (nestingLimit + 1)) (tokens ts)) : Viable ts := by
  obtain ⟨more, n, e, hn, hd⟩ := h
  refine ⟨more.map fun t => ⟨t, 0, 0⟩, e, fun _ => ofTokens_eq_ok_iff.2 ⟨n, by omega, ?_⟩⟩
  simpa [tokens, Function.comp_def] using hd

/-- What is read before a fault can be continued to a formula, unless the levels of nesting are used
up; with the token behind it, or without one, it cannot. -/
theorem ofTokens_error {textEnd : Nat} {ts : List Located} {err : SyntaxError}
    (h : ofTokens textEnd ts = .error err) :
    ∃ before rest, ts = before ++ rest ∧ Reader.FoundAt textEnd err rest ∧
      (err.fault ≠ .nestedTooDeep → Viable before) ∧
      ∀ rest', rest'.head? = rest.head? → ¬Accepts (before ++ rest') := by
  rw [ofTokens_eq, map_eq_error_iff] at h
  obtain ⟨before, rest, rfl, hsees, hfound, hbegins⟩ := (attentive_formula textEnd ts).refuses h
  refine ⟨before, rest, rfl, hfound, fun hdeep => viable_of_begins (hbegins hdeep), ?_⟩
  intro rest' hrest'
  have hsame := hsees rest' hrest'
  rw [h] at hsame
  have hfault : ofTokens textEnd (before ++ rest') = .error err := by
    rw [ofTokens_eq, hsame]
    rfl
  exact not_accepts_of_error hfault

/-- A token that is refused is the first one with which nothing can be continued to a formula. -/
theorem viable_take_of_found {textEnd : Nat} {err : SyntaxError} {before after : List Located}
    {t : Located} (hfound : Reader.FoundAt textEnd err (t :: after)) (hviable : Viable before)
    (hnone : ∀ rest', rest'.head? = some t → ¬Accepts (before ++ rest')) :
    ∃ i, ∃ hi : i < (before ++ t :: after).length, (before ++ t :: after)[i] = t ∧
      err.position = t.start ∧ Viable ((before ++ t :: after).take i) ∧
      ¬Viable ((before ++ t :: after).take (i + 1)) := by
  refine ⟨before.length, by simp, by simp, hfound.position, by simpa using hviable, ?_⟩
  intro h
  obtain ⟨more, hmore⟩ := h
  have htake : (before ++ t :: after).take (before.length + 1) = before ++ [t] := by
    rw [List.take_length_add_append]
    rfl
  rw [htake, List.append_assoc] at hmore
  exact hnone (t :: more) rfl hmore

/-- **A fault stands at the first token that is wrong.**  The tokens before a token that is refused,
or in whose place another one is expected, can be continued to a formula; with that token, whatever
comes behind it, they cannot.  Where the tokens end too early, all of them can be continued to a
formula and are none. -/
theorem viable_prefix_of_error {textEnd : Nat} {ts : List Located} {err : SyntaxError}
    (h : ofTokens textEnd ts = .error err) :
    (∀ token, err.fault = .unexpected token →
      ∃ i, ∃ hi : i < ts.length, ts[i].token = token ∧ err.position = ts[i].start ∧
        Viable (ts.take i) ∧ ¬Viable (ts.take (i + 1))) ∧
    (∀ what, err.fault = .expected what →
      ∃ i, ∃ hi : i < ts.length, err.position = ts[i].start ∧
        Viable (ts.take i) ∧ ¬Viable (ts.take (i + 1))) ∧
    (err.fault = .endOfInput → err.position = textEnd ∧ Viable ts ∧ ¬Accepts ts) := by
  obtain ⟨before, rest, rfl, hfound, hviable, hnone⟩ := ofTokens_error h
  refine ⟨?_, ?_, ?_⟩
  · intro token hfault
    have hnext := hfound.unexpected token hfault
    cases rest with
    | nil => exact nomatch hnext
    | cons t after =>
        obtain ⟨i, hi, ht, hposition, hrest⟩ :=
          viable_take_of_found hfound (hviable (by simp [hfault])) hnone
        refine ⟨i, hi, ?_, by rw [ht]; exact hposition, hrest⟩
        rw [ht]
        exact Option.some.inj hnext
  · intro what hfault
    cases rest with
    | nil => exact absurd rfl (hfound.expected what hfault)
    | cons t after =>
        obtain ⟨i, hi, ht, hposition, hrest⟩ :=
          viable_take_of_found hfound (hviable (by simp [hfault])) hnone
        exact ⟨i, hi, by rw [ht]; exact hposition, hrest⟩
  · intro hfault
    obtain rfl := hfound.endOfInput hfault
    have hall := hviable (by simp [hfault])
    rw [List.append_nil]
    exact ⟨hfound.position, hall, by simpa using hnone [] rfl⟩

/-- The tokens of `a ? 1 2`. -/
def lostColon : List Located :=
  [⟨.name "a", 0, 1⟩, ⟨.symbol .question, 2, 3⟩, ⟨.literal (.integer 1), 4, 5⟩,
    ⟨.literal (.integer 2), 6, 7⟩]

/-- The fourth token should be a colon: the first three can be continued, all four cannot. -/
theorem viable_prefix_of_error_lostColon :
    ofTokens 7 lostColon = .error ⟨.expected .colon, 6⟩ ∧
      Viable (lostColon.take 3) ∧ ¬Viable lostColon := by
  have hread : ofTokens 7 lostColon = .error ⟨.expected .colon, 6⟩ :=
    (map_eq_error_iff (f := fun _ => ())).1 (by rw [ofTokens_eq_nested]; decide +kernel)
  obtain ⟨i, hi, hposition, hbefore, hbehind⟩ := (viable_prefix_of_error hread).2.1 .colon rfl
  -- No other token begins at the sixth byte.
  obtain rfl : i = 3 := by
    clear hread hbefore hbehind
    match i, hi with
    | 0, _ => exact nomatch hposition
    | 1, _ => exact nomatch hposition
    | 2, _ => exact nomatch hposition
    | 3, _ => rfl
  exact ⟨hread, hbefore, hbehind⟩

end Expr

end FormulaEngine
