import FormulaEngine.Proofs.MomentReading
import FormulaEngine.Proofs.Rendering

/-!
# What is read

Every tree that is read is made of the tokens of its text.  Parentheses and commas aside, it has
the same literals, names and operators in the same order, and a name is that of a function exactly
if a parenthesis follows.

* `outline_of_derives` -- the tokens of a phrase have the outline of its tree;
* `produced_of_carve` -- the literals and names that texts are carved into;
* `Expr.produced_of_parse` -- so are those of the trees that are read.
-/

namespace FormulaEngine

/-! ## Outlines -/

/-- A token of an outline; the name of a function is told apart from that of a parameter. -/
inductive Mark where
  | token (t : Token)
  | callee (name : String)

/-- Whether the next token opens a parenthesis. -/
def opensParen (ts : List Token) : Bool := ts.head? = some (.symbol .leftParen)

/-- What a token adds to an outline, in front of others. -/
def Token.marks (t : Token) (rest : List Token) : List Mark :=
  match t with
  | .symbol .leftParen | .symbol .rightParen | .symbol .comma => []
  | .name s => if opensParen rest then [.callee s] else [.token (.name s)]
  | t => [.token t]

/-- The tokens without parentheses and commas. -/
def outline : List Token → List Mark
  | [] => []
  | t :: rest => t.marks rest ++ outline rest

namespace Expr

mutual

/-- The literals, names and operators of a tree in the order of its text. -/
def outline : Expr → List Mark
  | literal l => [.token (.literal l)]
  | parameter name => [.token (.name name)]
  | call name arguments => .callee name :: outlineAll arguments
  | unary op operand => .token (.symbol (.ofUnary op)) :: outline operand
  | binary op left right =>
    outline left ++ .token (.symbol (.ofBinary op)) :: outline right
  | conditional condition yes no =>
    outline condition ++ .token (.symbol .question) ::
      (outline yes ++ .token (.symbol .colon) :: outline no)

/-- The outlines of several trees. -/
def outlineAll : List Expr → List Mark
  | [] => []
  | e :: rest => outline e ++ outlineAll rest

end

end Expr

/-- The outline of a phrase: of the arguments only, if it is those of a call. -/
def Phrase.outline : Phrase → Expr → List Mark
  | .arguments _, .call _ es => Expr.outlineAll es
  | _, e => e.outline

theorem outline_ofUnary (op : UnaryOp) (ts : List Token) :
    outline (.symbol (.ofUnary op) :: ts) = .token (.symbol (.ofUnary op)) :: outline ts := by
  cases op <;> rfl

theorem outline_ofBinary (op : BinaryOp) (ts : List Token) :
    outline (.symbol (.ofBinary op) :: ts) = .token (.symbol (.ofBinary op)) :: outline ts := by
  cases op <;> rfl

theorem opensParen_ofBinary (op : BinaryOp) (ts : List Token) :
    opensParen (.symbol (.ofBinary op) :: ts) = false := by
  cases op <;> rfl

/-- **The tokens of a phrase have the outline of its tree**, if no parenthesis follows that would
make a call of its last name. -/
theorem outline_of_derives {phrase : Phrase} {n : Nat} {ts : List Token} {e : Expr}
    (h : Derives phrase n ts e) {rest : List Token} (hrest : opensParen rest = false) :
    outline (ts ++ rest) = phrase.outline e ++ outline rest := by
  induction h generalizing rest with
  | operation _ ih | operand _ ih | tighter _ _ ih | primary _ ih => exact ih hrest
  | conditional _ _ _ ihc ihy ihn =>
      have hquestion : ∀ us, outline (.symbol .question :: us) =
          .token (.symbol .question) :: outline us := fun _ => rfl
      have hcolon : ∀ us, outline (.symbol .colon :: us) =
          .token (.symbol .colon) :: outline us := fun _ => rfl
      simp only [List.append_assoc, List.cons_append]
      rw [ihc rfl, hquestion, ihy rfl, hcolon, ihn hrest]
      simp [Phrase.outline, Expr.outline]
  | binary op _ _ ihl ihr =>
      simp only [List.append_assoc, List.cons_append]
      rw [ihl (opensParen_ofBinary op _), outline_ofBinary, ihr hrest]
      simp [Phrase.outline, Expr.outline]
  | unary op _ ih =>
      rw [List.cons_append, outline_ofUnary, ih hrest]
      simp [Phrase.outline, Expr.outline]
  | literal l => rfl
  | parameter name => simp [outline, Token.marks, hrest, Phrase.outline, Expr.outline]
  | constant name => simp [outline, Token.marks, opensParen, Phrase.outline, Expr.outline,
      Expr.outlineAll]
  | call h ih =>
      obtain ⟨e₁, es, rfl⟩ := h.exists_call
      have hclose : opensParen (.symbol .rightParen :: rest) = false := rfl
      simp only [List.cons_append, List.append_assoc, List.nil_append, outline, ih hclose]
      simp [Token.marks, opensParen, Phrase.outline, Expr.outline, Expr.outlineAll]
  | parens _ ih =>
      have hclose : opensParen (.symbol .rightParen :: rest) = false := rfl
      simp only [List.cons_append, List.append_assoc, List.nil_append, outline, ih hclose]
      simp [Token.marks, Phrase.outline]
  | argument _ ih =>
      rw [ih hrest]
      simp [Phrase.outline, Expr.outlineAll]
  | arguments _ hs ih ihs =>
      have hcomma : ∀ us, outline (.symbol .comma :: us) = outline us := fun _ => rfl
      simp only [List.append_assoc, List.cons_append]
      rw [ih rfl, hcomma, ihs hrest]
      simp [Phrase.outline, Expr.outlineAll]

/-! ## Literals and names -/

/-- What is known of a literal that is read: it has no sign, and no fraction of a second. -/
def Literal.Produced : Literal → Prop
  | integer i => 0 ≤ i
  | decimal _ => False
  | moment m => m.Valid ∧ m.wholeSecond = m
  | float _ | string _ | boolean _ => True

/-- What is known of a name that is read: brackets around it could be taken off. -/
def IsReadName (name : String) : Prop := name ≠ "" ∧ ']' ∉ name.toList

/-- What is known of a token that is read. -/
def Token.Produced : Token → Prop
  | literal l => l.Produced
  | name s => IsReadName s
  | symbol _ => True

/-- A parenthesis or a comma, which no outline has. -/
def Symbol.isPunctuation (s : Symbol) : Bool := s = .leftParen ∨ s = .rightParen ∨ s = .comma

/-- How a name stands in a text: as a word, or in brackets, with the text behind them. -/
def SpellsName (name : String) (c : Char) (cs rest : List Char) : Prop :=
  isBareName name.toList = true ∨
    c = '[' ∧ name ≠ "" ∧ ']' ∉ name.toList ∧ cs = name.toList ++ ']' :: rest

/-- The tokens that a region may hold: a symbol, of which a parenthesis or a comma is one break; a
literal; or a name. -/
def Holds (c : Char) (cs rest : List Char) (t : Token) : Prop :=
  (∃ s, t = .symbol s ∧ (s.isPunctuation = true → isBreak c = true ∧ rest = cs)) ∨
    (∃ l, t = .literal l ∧ l.Produced) ∨ ∃ name, t = .name name ∧ SpellsName name c cs rest

private theorem isBreak_of_ofChar? {c : Char} {s : Symbol} (h : Symbol.ofChar? c = some s)
    (hs : s.isPunctuation = true) : isBreak c = true := by
  unfold Symbol.ofChar? at h
  split at h
  all_goals first | rfl | (cases h; done) | (cases h; cases hs)

private theorem isPunctuation_of_ofPair? {c d : Char} {s : Symbol}
    (h : Symbol.ofPair? c d = some s) : s.isPunctuation = false := by
  unfold Symbol.ofPair? at h
  split at h
  all_goals first | (cases h; done) | (cases h; rfl)

private theorem holds_of_scanSymbol {c : Char} {cs : List Char} {s : Scan} {t : Token}
    (h : scanSymbol c cs = some s) (ht : s.outcome = .ok t) : Holds c cs s.rest t := by
  unfold scanSymbol at h
  split at h
  · obtain ⟨sym, hsym, rfl⟩ := Option.map_eq_some_iff.1 h
    cases ht
    exact Or.inl ⟨sym, rfl, fun hp => ⟨isBreak_of_ofChar? hsym hp, rfl⟩⟩
  · split at h
    · next sym hsym =>
      cases h
      cases ht
      refine Or.inl ⟨sym, rfl, fun hp => ?_⟩
      rw [isPunctuation_of_ofPair? hsym] at hp
      cases hp
    · obtain ⟨sym, hsym, rfl⟩ := Option.map_eq_some_iff.1 h
      cases ht
      exact Or.inl ⟨sym, rfl, fun hp => ⟨isBreak_of_ofChar? hsym hp, rfl⟩⟩

private theorem produced_of_scanString {body : List Char} {t : Token}
    (h : (scanString body).outcome = .ok t) : ∃ l, t = .literal l ∧ l.Produced := by
  unfold scanString at h
  split at h
  · cases h
  · dsimp only at h
    split at h
    · cases h
      exact ⟨_, rfl, trivial⟩
    · cases h

/-- The region between delimiters holds the meaning of what is inside of it. -/
theorem outcome_scanDelimited {opening closing : Char}
    {meaning : List Char → Except SyntaxError Token} {body : List Char} {t : Token}
    (h : (scanDelimited opening closing meaning body).outcome = .ok t) :
    ∃ inside, closing ∉ inside ∧ meaning inside = .ok t ∧
      body = inside ++ closing :: (scanDelimited opening closing meaning body).rest := by
  have hall := List.takeWhile_append_dropWhile (p := (· != closing)) (l := body)
  unfold scanDelimited at h ⊢
  cases hd : body.dropWhile (· != closing) with
  | nil => rw [hd] at h; cases h
  | cons c rest =>
      rw [hd] at h hall
      have hc : c = closing := by
        have hhead := List.head?_dropWhile_not (· != closing) body
        simpa [hd] using hhead
      subst hc
      refine ⟨body.takeWhile (· != c), ?_, h, hall.symm⟩
      intro hmem
      have hne := List.mem_takeWhile_imp hmem
      simp at hne

private theorem produced_of_momentMeaning {inside : List Char} {t : Token}
    (h : momentMeaning inside = .ok t) : ∃ l, t = .literal l ∧ l.Produced := by
  unfold momentMeaning at h
  split at h
  · next m hm =>
    cases h
    exact ⟨_, rfl, Moment.valid_of_read? hm, Moment.wholeSecond_of_read? hm⟩
  · cases h

private theorem nonneg_of_int64? {n : Nat} {i : Int64} (h : int64? n = some i) : 0 ≤ i := by
  unfold int64? at h
  split at h
  · next hrange =>
    cases h
    rw [Int64.le_iff_toInt_le,
      Int64.toInt_ofInt_of_le hrange.1 (Int.lt_of_le_sub_one hrange.2)]
    exact Int.natCast_nonneg n
  · cases h

private theorem produced_of_numeralMeaning {n : Numeral} {t : Token}
    (h : numeralMeaning n = .ok t) : ∃ l, t = .literal l ∧ l.Produced := by
  unfold numeralMeaning at h
  split at h
  · cases h
    exact ⟨_, rfl, trivial⟩
  · split at h
    · next i hi =>
      cases h
      exact ⟨_, rfl, nonneg_of_int64? hi⟩
    · cases h

private theorem holds_of_keyword? {word : List Char} {t : Token} {c : Char} {cs rest : List Char}
    (h : Token.keyword? word = some t) : Holds c cs rest t := by
  unfold Token.keyword? at h
  split at h
  · cases h; exact Or.inr (Or.inl ⟨_, rfl, trivial⟩)
  · cases h; exact Or.inr (Or.inl ⟨_, rfl, trivial⟩)
  · cases h; exact Or.inl ⟨_, rfl, fun hp => nomatch hp⟩
  · cases h; exact Or.inl ⟨_, rfl, fun hp => nomatch hp⟩
  · cases h; exact Or.inl ⟨_, rfl, fun hp => nomatch hp⟩
  · cases h

private theorem holds_of_scanWord {c : Char} (hc : isNameStart c = true) {cs rest : List Char}
    {t : Token} (h : (scanWord c cs).outcome = .ok t) : Holds c cs rest t := by
  rw [scanWord] at h
  cases hkey : Token.keyword? (c :: cs.takeWhile isNameChar) with
  | some t' =>
      rw [hkey] at h
      cases h
      exact holds_of_keyword? hkey
  | none =>
      rw [hkey] at h
      cases h
      have hword : isWord (c :: cs.takeWhile isNameChar) = true := by
        rw [isWord, hc, Bool.true_and, List.all_eq_true]
        exact fun d hd => List.mem_takeWhile_imp hd
      refine Or.inr (Or.inr ⟨_, rfl, Or.inl ?_⟩)
      rw [String.toList_ofList, isBareName, hword, Token.isKeyword, hkey]
      rfl

/-- **What a region may hold.** -/
theorem holds_of_scanRegion {c : Char} {cs : List Char} {t : Token}
    (h : (scanRegion c cs).outcome = .ok t) : Holds c cs (scanRegion c cs).rest t := by
  unfold scanRegion at h ⊢
  split at h
  · next s hs => exact holds_of_scanSymbol hs h
  · split at h
    · exact Or.inr (Or.inl (produced_of_scanString h))
    · next hquote =>
      split at h
      · obtain ⟨inside, _, hm, _⟩ := outcome_scanDelimited h
        exact Or.inr (Or.inl (produced_of_momentMeaning hm))
      · next hhash =>
        split at h
        · next hc =>
          obtain ⟨inside, hinside, hm, hbody⟩ := outcome_scanDelimited h
          unfold nameMeaning at hm
          split at hm
          · cases hm
          · next hempty =>
            cases hm
            refine Or.inr (Or.inr ⟨_, rfl, Or.inr ⟨hc, ?_, ?_, ?_⟩⟩)
            · intro hnil
              have := congrArg String.toList hnil
              rw [String.toList_ofList] at this
              exact hempty (List.isEmpty_iff.2 this)
            · rwa [String.toList_ofList]
            · rw [String.toList_ofList, if_neg hquote, if_neg hhash, if_pos hc]
              exact hbody
        · split at h
          · exact Or.inr (Or.inl (produced_of_numeralMeaning h))
          · split at h
            · next hc => exact holds_of_scanWord hc h
            · cases h

theorem isReadName_of_isBareName {name : String} (h : isBareName name.toList = true) :
    IsReadName name := by
  obtain ⟨hword, _⟩ : isWord name.toList = true ∧ Token.isKeyword name.toList = false := by
    simpa [isBareName] using h
  obtain ⟨c, cs, hcs, hc⟩ := exists_of_isBareName h
  have hall : ∀ d ∈ name.toList, isNameChar d = true := by
    rw [hcs, isWord] at hword
    simp only [Bool.and_eq_true, List.all_eq_true] at hword
    rw [hcs]
    exact List.forall_mem_cons.2 ⟨isNameChar_of_isNameStart hc, hword.2⟩
  constructor
  · intro h
    subst h
    cases hcs
  · intro hmem
    exact absurd (hall _ hmem) (by decide)

theorem produced_of_holds {c : Char} {cs rest : List Char} {t : Token}
    (h : Holds c cs rest t) : t.Produced := by
  rcases h with ⟨s, rfl, _⟩ | ⟨l, rfl, hl⟩ | ⟨name, rfl, hbare | ⟨_, hne, hname, _⟩⟩
  · trivial
  · exact hl
  · exact isReadName_of_isBareName hbare
  · exact ⟨hne, hname⟩

/-- **The literals and names that a text is carved into.** -/
theorem produced_of_carve {cs : List Char} {ts : List Token} (h : carve cs = some ts) :
    ∀ t ∈ ts, t.Produced := by
  induction ts generalizing cs with
  | nil =>
      intro t ht
      cases ht
  | cons t us ih =>
      obtain ⟨skip, c, body, _, _, ht, hus⟩ := carve_eq_some_cons h
      exact List.forall_mem_cons.2 ⟨produced_of_holds (holds_of_scanRegion ht), ih hus⟩

/-! ## Trees -/

/-- A tree whose literals and names can all be read. -/
abbrev Expr.Produced (e : Expr) : Prop := e.Everywhere Literal.Produced IsReadName IsReadName

/-- What is known of the tree of a phrase of tokens that are read; the name of the function stands
in front of its arguments. -/
private def Phrase.Produced : Phrase → Expr → Prop
  | .arguments _, .call _ es => ∀ e ∈ es, e.Produced
  | _, e => e.Produced

private theorem produced_of_derives {phrase : Phrase} {n : Nat} {ts : List Token} {e : Expr}
    (h : Derives phrase n ts e) (hts : ∀ t ∈ ts, t.Produced) : phrase.Produced e := by
  induction h with
  | operation _ ih | operand _ ih | tighter _ _ ih | primary _ ih => exact ih hts
  | conditional _ _ _ ihc ihy ihn =>
      simp only [List.forall_mem_append, List.forall_mem_cons] at hts
      exact Expr.everywhere_conditional.2 ⟨ihc hts.1, ihy hts.2.2.1, ihn hts.2.2.2.2⟩
  | binary op _ _ ihl ihr =>
      simp only [List.forall_mem_append, List.forall_mem_cons] at hts
      exact Expr.everywhere_binary.2 ⟨ihl hts.1, ihr hts.2.2⟩
  | unary op _ ih => exact Expr.everywhere_unary.2 (ih (List.forall_mem_cons.1 hts).2)
  | literal l => exact Expr.everywhere_literal.2 (hts _ (List.mem_cons_self ..))
  | parameter name => exact Expr.everywhere_parameter.2 (hts _ (List.mem_cons_self ..))
  | constant name =>
      refine Expr.everywhere_call.2 ⟨hts (.name name) (List.mem_cons_self ..), fun e he => ?_⟩
      cases he
  | call h ih =>
      obtain ⟨e₁, es, rfl⟩ := h.exists_call
      simp only [List.forall_mem_append, List.forall_mem_cons] at hts
      exact Expr.everywhere_call.2 ⟨hts.1, ih hts.2.2.1⟩
  | parens _ ih =>
      simp only [List.forall_mem_append, List.forall_mem_cons] at hts
      exact ih hts.2.1
  | argument _ ih => exact List.forall_mem_cons.2 ⟨ih hts, fun e he => nomatch he⟩
  | arguments _ _ ih ihs =>
      simp only [List.forall_mem_append, List.forall_mem_cons] at hts
      exact List.forall_mem_cons.2 ⟨ih hts.1, ihs hts.2.2⟩

/-- **The literals and names of the trees that are read.** -/
theorem Expr.produced_of_parse {text : String} {e : Expr} (h : parse text = .ok e) :
    e.Produced := by
  obtain ⟨ts, hts, n, _, hd⟩ := parse_eq_ok_iff.1 h
  exact produced_of_derives hd (produced_of_carve hts)

end FormulaEngine
