import FormulaEngine.Grammar.ParserAnswer
import FormulaEngine.Proofs.Reading

/-!
# Calls of the parser come back

Each call that parsing is made up of comes back, wherever it begins, with the levels of nesting
closed again that it has opened, on success behind at least one more token.

* `Parser.Call.follows` -- what each call answers, by the readers;
* `Parser.answer_within_mono` -- an answer stays when more calls are allowed;
* `Parser.calls_comeBack` -- how the cursors before and behind a call are related.
-/

namespace FormulaEngine

namespace Parser

/-! ## Every call follows a reader -/

/-- The reader that finds what a call finds that may open this number of levels. -/
def Call.reader (textEnd levels : Nat) : Call → Reader Expr
  | .expression => (Reader.nested textEnd levels).1
  | .conditional =>
    Reader.conditional textEnd (Reader.nested textEnd levels).1 (Reader.unaryWithin textEnd levels)
  | .binary level => Reader.climb (Reader.unaryWithin textEnd levels) level
  | .operators level left => fun ts => do
    let (more, ts) ← Reader.many (Reader.nextOperand level fun op _ =>
      Reader.climb (Reader.unaryWithin textEnd levels) (op.precedence + 1)) ts
    .ok (more.foldl (fun left (op, right) => .binary op left right) left, ts)
  | .unary => Reader.unaryWithin textEnd levels
  | .operand => (Reader.nested textEnd levels).2
  | .primary => Reader.primary textEnd (Reader.nested textEnd levels).1
  | .function name => fun ts => do
    let (es, ts) ← Reader.arguments textEnd (Reader.nested textEnd levels).1 ts
    .ok (.call name es, ts)
  | .arguments name before => fun ts => do
    let (first, ts) ← (Reader.nested textEnd levels).1 ts
    let (more, ts) ← Reader.many (Reader.nextArgument (Reader.nested textEnd levels).1) ts
    let ts ← Reader.expect textEnd .rightParen .commaOrClosing ts
    .ok (.call name (before.toList ++ first :: more), ts)

/-- The number of tokens that a call takes at least.  Behind the first operand of a chain there may
be no operator. -/
def Call.least : Call → Nat
  | .operators _ _ => 0
  | _ => 1

/-- **Every call follows its reader**. -/
theorem Call.follows {input : Input} {s : Cursor} {levels calls : Nat}
    (hlevels : s.depth + levels = nestingLimit) (hs : s.index ≤ input.tokens.size) (c : Call)
    (hcalls : Enough input calls c s) :
    Follows input (s.index + c.least) (within input calls c) s
      (c.reader input.textEnd levels (input.ahead s)) := by
  obtain ⟨hE, hO⟩ := follows_nested input hlevels
  have hu := follows_unary hE hO
  cases c with
  | expression => exact hE calls s rfl hs hcalls
  | conditional => exact follows_conditional hE hu calls s rfl hs hcalls
  | binary level => exact follows_binary hu level calls s rfl hs hcalls
  | operators level left =>
      exact follows_operators (fun op _ => follows_binary hu (op.precedence + 1)) _ calls s left rfl
        hs (Nat.le_refl _) (Nat.le_refl _) hcalls
  | unary => exact hu calls s rfl hs hcalls
  | operand => exact hO calls s rfl hs hcalls
  | primary => exact follows_primary hE calls s rfl hs hcalls
  | function name => exact follows_function hE name calls s rfl hs hcalls
  | arguments name before => exact follows_arguments hE name before calls s rfl hs hcalls

/-! ## More calls -/

/-- What one parser answers the other one answers, too. -/
def Below {α : Type} (p q : Parser α) : Prop := ∀ s r, p.answer s = some r → q.answer s = some r

section Below

variable {α β : Type} {input : Input} {call call' : Call → Parser Expr}

theorem Below.refl (p : Parser α) : Below p p := fun _ _ h => h

theorem Below.unanswered (p : Parser α) : Below unanswered p := by
  intro s r h
  cases h

/-- Parsers one after the other. -/
theorem Below.bind {p q : Parser α} {f g : α → Parser β} (hp : Below p q)
    (hf : ∀ a, Below (f a) (g a)) : Below (p >>= f) (q >>= g) := by
  intro s r h
  cases hanswer : p.answer s with
  | none =>
      change ((p.answer s).bind fun r => _) = _ at h
      rw [hanswer] at h
      cases h
  | some first =>
      obtain ⟨outcome, s'⟩ := first
      cases outcome with
      | ok a =>
          rw [answer_bind_of_ok hanswer] at h
          rw [answer_bind_of_ok (hp _ _ hanswer)]
          exact hf a s' r h
      | error e =>
          rw [answer_bind_of_error hanswer] at h
          rw [answer_bind_of_error (hp _ _ hanswer)]
          exact h

theorem Below.nested {p q : Parser α} (h : Below p q) :
    Below (nested input p) (nested input q) := by
  intro s r hr
  by_cases hlimit : nestingLimit ≤ s.depth
  · rw [answer_nested_of_limit hlimit] at hr ⊢
    exact hr
  · rw [answer_nested (Nat.not_le.1 hlimit)] at hr ⊢
    obtain ⟨first, hfirst, hr⟩ := Option.bind_eq_some_iff.1 hr
    rw [h _ _ hfirst]
    exact hr

theorem Below.ite {p q p' q' : Parser α} {c : Prop} [Decidable c] (h : Below p q)
    (h' : Below p' q') : Below (if c then p else p') (if c then q else q') := by
  split
  · exact h
  · exact h'

/-- A rule answers what it has answered when the calls that it makes do. -/
theorem below_rule (h : ∀ c, Below (call c) (call' c)) (c : Call) :
    Below (rule input call c) (rule input call' c) := by
  cases c with
  | expression => exact (h .conditional).nested
  | conditional =>
      refine (h _).bind fun condition => (Below.refl _).bind fun b => .ite ?_ (.refl _)
      refine (h _).bind fun yes => (Below.refl _).bind fun _ => ?_
      exact (h _).bind fun no => .refl _
  | binary level => exact (h _).bind fun first => h _
  | operators level left =>
      refine (Below.refl _).bind fun t => ?_
      cases t.bind (·.token.binary?) with
      | none => exact .refl _
      | some op =>
          refine .ite (.refl _) ((Below.refl _).bind fun _ => ?_)
          exact (h _).bind fun right => h _
  | unary =>
      refine (Below.refl _).bind fun t => ?_
      cases t.bind (·.token.unary?) with
      | none => exact h .primary
      | some op => exact (Below.refl _).bind fun _ => (h _).bind fun e => .refl _
  | operand => exact (h .unary).nested
  | primary =>
      refine (Below.refl _).bind fun t => ?_
      cases t with
      | none => exact .refl _
      | some t =>
          refine (Below.refl _).bind fun _ => ?_
          cases t.token with
          | literal l => exact .refl _
          | name name => exact (Below.refl _).bind fun b => .ite (h _) (.refl _)
          | symbol sym => exact .ite ((h _).bind fun e => .refl _) (.refl _)
  | function name => exact (Below.refl _).bind fun b => .ite (.refl _) (h _)
  | arguments name before =>
      refine (h _).bind fun e => (Below.refl _).bind fun b => ?_
      exact .ite (h _) (.refl _)

/-- **An answer stays** when more calls inside of one another are allowed.  By induction on the
number of calls. -/
theorem answer_within_mono {calls more : Nat} (hle : calls ≤ more) (c : Call) :
    Below (within input calls c) (within input more c) := by
  induction calls generalizing more c with
  | zero => exact .unanswered _
  | succ calls ih =>
      obtain ⟨more, rfl⟩ : ∃ n, more = n + 1 := ⟨more - 1, by omega⟩
      exact below_rule (ih (Nat.le_of_succ_le_succ hle)) c

end Below

end Parser

/-! ## What a call leaves behind -/

/-- Behind a chain of operators of at least a level there is no such operator. -/
theorem Reader.settled_of_climb {textEnd levels level : Nat} {ts rest : List Located} {e : Expr}
    (h : climb (unaryWithin textEnd levels) level ts = .ok (e, rest)) : Settled level rest := by
  by_cases hlevel : level ≤ 11
  · exact (takes_climb (takes_unaryWithin textEnd levels) hlevel).2 h
  · intro op _
    have hop := op.precedence_le
    omega

/-- **Every call of the parser comes back**, from every place in the tokens and with any number of
levels open, if eight calls inside of one another are allowed for each token ahead and for the end;
how many more there are makes no difference.  On success and after a fault the same levels are open
as before, and the place is not in front of the one before nor behind the end.  On success at least
one token has been taken, if the call is not one for the operators behind an operand; and behind a
chain of binary operators of at least a level there is no such operator. -/
theorem Parser.calls_comeBack (input : Input) (c : Call) {s : Cursor}
    (hdepth : s.depth ≤ nestingLimit) (hindex : s.index ≤ input.tokens.size) :
    ∃ outcome s',
      (∀ calls, input.allowance s ≤ calls →
        (within input calls c).answer s = some (outcome, s')) ∧
      s'.depth = s.depth ∧ s.index ≤ s'.index ∧ s'.index ≤ input.tokens.size ∧
      ∀ e, outcome = .ok e → s.index + c.least ≤ s'.index ∧
        ∀ level t op, c = .binary level → input.current? s' = some t → t.token.binary? = some op →
          op.precedence < level := by
  obtain ⟨levels, hlevels⟩ : ∃ levels, s.depth + levels = nestingLimit :=
    ⟨nestingLimit - s.depth, by omega⟩
  have hfollows := c.follows hlevels hindex (enough_allowance input c s)
  generalize hread : c.reader input.textEnd levels (input.ahead s) = x at hfollows
  cases hfollows with
  | refuses hp h =>
      refine ⟨_, _, fun calls hcalls => answer_within_mono hcalls c s _ hp, h.depth, h.forward,
        h.inside, fun e he => nomatch he⟩
  | takes hp h hleast =>
      refine ⟨_, _, fun calls hcalls => answer_within_mono hcalls c s _ hp, h.depth, h.forward,
        h.inside, fun e _ => ⟨hleast, ?_⟩⟩
      intro level t op hc ht hop
      subst hc
      refine Reader.settled_of_climb hread op ?_
      rw [Reader.next?, Input.head?_ahead, ht, Option.map_some, Token.binary?_eq_some_iff.1 hop]

/-- With one level left, `-(1)` opens it for the operand and has none for the parentheses: the fault
is at the number, and the level that was opened is closed again. -/
theorem Parser.calls_comeBack_tooDeep :
    let input : Input :=
      ⟨#[⟨.symbol .minus, 0, 1⟩, ⟨.symbol .leftParen, 1, 2⟩, ⟨.literal (.integer 1), 2, 3⟩,
        ⟨.symbol .rightParen, 3, 4⟩], 4⟩
    let s : Cursor := ⟨0, 127⟩
    s.depth ≤ nestingLimit ∧ s.index ≤ input.tokens.size ∧ input.allowance s = 40 ∧
      (within input 40 .unary).answer s = some (.error ⟨.nestedTooDeep, 2⟩, ⟨2, 127⟩) ∧
      ∀ calls, 40 ≤ calls →
        (within input calls .unary).answer s = (within input 40 .unary).answer s := by
  intro input s
  have hdepth : s.depth ≤ nestingLimit := by decide
  have hindex : s.index ≤ input.tokens.size := by decide
  obtain ⟨outcome, s', hanswer, -⟩ := Parser.calls_comeBack input .unary hdepth hindex
  refine ⟨hdepth, hindex, rfl, rfl, fun calls hcalls => ?_⟩
  rw [hanswer calls hcalls, hanswer 40 (Nat.le_refl _)]

end FormulaEngine
