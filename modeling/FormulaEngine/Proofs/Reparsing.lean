import FormulaEngine.Proofs.FloatText
import FormulaEngine.Proofs.Outline

/-!
# Which trees are read back from their text

A tree that was read is read back from its text exactly if three things hold: its floats are read
back from their texts, the names of its functions are words and no keywords, and the text needs no
more levels of nesting than there may be.  The name of a function is written without brackets even
if it was read in brackets, an infinite float is written as a word, and the text of a tree has
parentheses that the text it was read from did not need.

That the three conditions are needed is shown by going through the text of the tree from left to
right, against the outline of the tree.  The difficulty is a name of a function that is no word.
Its characters could hold the bracket in which the name is read back, but then all characters up to
the closing bracket are blanks, parentheses, commas and opening brackets, and no call follows it.

* `Expr.quiet_chars` -- no call follows a closing bracket behind such characters;
* `isBareName_of_outline` -- so the name of a function that is read back is a word;
* `Expr.parse_text_iff` -- the exact condition;
* `Expr.parse_text_bracketed_keyword` -- a text whose tree is not read back.
-/

namespace FormulaEngine

/-! ## Brackets in the text of a tree -/

/-- The tokens of the text do not begin with a parenthesis. -/
def NoCall (cs : List Char) : Prop := ∀ us, carve cs = some us → opensParen us = false

/-- The characters of which a name may consist that stands in a text of just such characters. -/
def isFiller (c : Char) : Bool := isBreak c || c == '['

/-- No call follows a closing bracket behind fillers. -/
def Quiet (cs : List Char) : Prop :=
  ∀ front back, cs = front ++ ']' :: back → (∀ c ∈ front, isFiller c = true) → NoCall back

theorem noCall_nil : NoCall [] := by
  intro us h
  rw [carve_nil] at h
  cases h
  rfl

theorem noCall_of_carve {cs rest : List Char} {s : Symbol} (hs : s ≠ .leftParen)
    (h : carve cs = (carve rest).map (.symbol s :: ·)) : NoCall cs := by
  intro us hus
  rw [h] at hus
  obtain ⟨us, _, rfl⟩ := Option.map_eq_some_iff.1 hus
  simpa [opensParen] using hs

theorem quiet_nil : Quiet [] := by
  intro front back h
  simp at h

/-- Nothing but a closing bracket makes a difference. -/
theorem quiet_cons {c : Char} {cs : List Char} (hc : c ≠ ']') (h : Quiet cs) : Quiet (c :: cs) := by
  intro front back heq hfront
  cases front with
  | nil =>
      cases heq
      exact absurd rfl hc
  | cons d front =>
      cases heq
      exact h front back rfl fun x hx => hfront x (List.mem_cons_of_mem c hx)

/-- Behind a character that is no filler nothing matters. -/
theorem quiet_of_not_filler {c : Char} (hc : isFiller c = false) (hne : c ≠ ']')
    (cs : List Char) : Quiet (c :: cs) := by
  intro front back heq hfront
  cases front with
  | nil =>
      cases heq
      exact absurd rfl hne
  | cons d front =>
      cases heq
      rw [hfront c (List.mem_cons_self ..)] at hc
      cases hc

theorem quiet_append {front cs : List Char} (hfront : ']' ∉ front) (h : Quiet cs) :
    Quiet (front ++ cs) := by
  induction front with
  | nil => exact h
  | cons c front ih =>
      simp only [List.mem_cons, not_or] at hfront
      exact quiet_cons (Ne.symm hfront.1) (ih hfront.2)

/-- A name in brackets in front of no call. -/
theorem quiet_bracketed {name rest : List Char} (hname : ']' ∉ name) (hrest : NoCall rest) :
    Quiet ('[' :: (name ++ ']' :: rest)) := by
  refine quiet_cons (by decide) ?_
  induction name with
  | nil =>
      intro front back heq hfront
      cases front with
      | nil =>
          cases heq
          exact hrest
      | cons d front =>
          cases heq
          exact absurd (hfront ']' (List.mem_cons_self ..)) (by decide)
  | cons c name ih =>
      simp only [List.mem_cons, not_or] at hname
      exact quiet_cons (Ne.symm hname.1) (ih hname.2)

/-- What may follow a phrase in the text of a tree. -/
structure Follows (rest : List Char) : Prop where
  broken : StartsBroken rest
  noCall : NoCall rest
  quiet : Quiet rest

theorem follows_nil : Follows [] := ⟨startsBroken_nil, noCall_nil, quiet_nil⟩

theorem follows_rightParen {rest : List Char} (h : Quiet rest) : Follows (')' :: rest) :=
  ⟨startsBroken_cons (by decide), noCall_of_carve (by decide) (carve_rightParen rest),
    quiet_cons (by decide) h⟩

theorem follows_comma {rest : List Char} (h : Quiet rest) : Follows (',' :: rest) :=
  ⟨startsBroken_cons (by decide), noCall_of_carve (by decide) (carve_comma rest),
    quiet_cons (by decide) h⟩

/-- An operator between blanks. -/
theorem follows_operator (op : BinaryOp) (rest : List Char) :
    Follows (' ' :: (op.text.toList ++ ' ' :: rest)) := by
  refine ⟨startsBroken_cons (by decide), ?_, quiet_cons (by decide) ?_⟩
  · refine noCall_of_carve ?_ ((carve_space _).trans (carve_operator op rest))
    cases op <;> decide
  · obtain ⟨c, cs, hcs, hc, hne⟩ : ∃ c cs, op.text.toList = c :: cs ∧ isFiller c = false ∧
        c ≠ ']' := by
      cases op <;> exact ⟨_, _, rfl, by decide, by decide⟩
    rw [hcs]
    exact quiet_of_not_filler hc hne _

theorem follows_question (rest : List Char) : Follows (' ' :: '?' :: rest) :=
  ⟨startsBroken_cons (by decide),
    noCall_of_carve (by decide) ((carve_space _).trans (carve_question rest)),
    quiet_cons (by decide) (quiet_of_not_filler (by decide) (by decide) rest)⟩

theorem follows_colon (rest : List Char) : Follows (' ' :: ':' :: rest) :=
  ⟨startsBroken_cons (by decide),
    noCall_of_carve (by decide) ((carve_space _).trans (carve_colon rest)),
    quiet_cons (by decide) (quiet_of_not_filler (by decide) (by decide) rest)⟩

/-- No filler begins a word. -/
theorem not_filler_of_isNameStart {c : Char} (h : isNameStart c = true) :
    isFiller c = false ∧ c ≠ ']' := by
  have hbreak : isBreak c = false := by
    cases hb : isBreak c with
    | false => rfl
    | true =>
        have hc : StartsBroken [c] := startsBroken_cons hb
        have := hc.isNameChar_head c rfl
        rw [isNameChar_of_isNameStart h] at this
        cases this
  constructor
  · have hne : c ≠ '[' := by
      intro h
      subst h
      exact absurd h (by decide)
    simp [isFiller, hbreak, hne]
  · intro h
    subst h
    exact absurd h (by decide)

theorem not_filler_of_isDigit {c : Char} (h : c.isDigit = true) :
    isFiller c = false ∧ c ≠ ']' := by
  have hbreak : isBreak c = false := by
    cases hb : isBreak c with
    | false => rfl
    | true =>
        have hc : StartsBroken [c] := startsBroken_cons hb
        have := hc.isDigit_head c rfl
        rw [h] at this
        cases this
  constructor
  · have hne : c ≠ '[' := by
      intro h
      subst h
      exact absurd h (by decide)
    simp [isFiller, hbreak, hne]
  · intro h
    subst h
    exact absurd h (by decide)

/-- The text of a literal begins with no filler. -/
private theorem quiet_literal {l : Literal} (h : l.Produced) (rest : List Char) :
    Quiet (l.chars ++ rest) := by
  obtain ⟨c, cs, hcs, hc, hne⟩ : ∃ c cs, l.chars = c :: cs ∧ isFiller c = false ∧ c ≠ ']' := by
    cases l with
    | integer i =>
        have hpos : 0 ≤ i.toInt := by simpa using Int64.le_iff_toInt_le.1 h
        obtain ⟨c, cs, hcs⟩ : ∃ c cs, digitsOf i.toInt.natAbs = c :: cs :=
          List.exists_cons_of_ne_nil Nat.toDigits_ne_nil
        have hc : c.isDigit = true := isDigit_of_mem_digitsOf (hcs ▸ List.mem_cons_self ..)
        refine ⟨c, cs, ?_, not_filler_of_isDigit hc⟩
        rw [Literal.chars, intDigits, if_neg (by omega), hcs]
    | decimal d => exact h.elim
    | float x =>
        rcases Literal.float_chars_cases x with hname | ⟨cs, hcs⟩ | ⟨⟨c, cs, hcs, hc⟩, _⟩
        · obtain ⟨c, cs, hcs, hc⟩ := exists_of_isBareName hname
          exact ⟨c, cs, hcs, not_filler_of_isNameStart hc⟩
        · exact ⟨'-', cs, hcs, by decide, by decide⟩
        · exact ⟨c, cs, hcs, not_filler_of_isDigit hc⟩
    | string s => exact ⟨_, _, rfl, by decide, by decide⟩
    | boolean b =>
        cases b with
        | false => exact ⟨_, _, rfl, by decide, by decide⟩
        | true => exact ⟨_, _, rfl, by decide, by decide⟩
    | moment m => exact ⟨_, _, rfl, by decide, by decide⟩
  rw [hcs]
  exact quiet_of_not_filler hc hne _

private theorem quiet_parameter {name : String} (h : IsReadName name) {rest : List Char}
    (hrest : NoCall rest) : Quiet (nameChars name ++ rest) := by
  unfold nameChars
  split
  · next hplain =>
    obtain ⟨c, cs, hcs, hc⟩ := exists_of_isBareName (isBareName_of_isPlainName hplain)
    rw [hcs]
    exact quiet_of_not_filler (not_filler_of_isNameStart hc).1 (not_filler_of_isNameStart hc).2 _
  · rw [List.cons_append, List.append_assoc]
    exact quiet_bracketed h.2 hrest

namespace Expr

/-- What is shown of the text of a tree: what may follow a phrase does not make it less quiet. -/
def StaysQuiet (e : Expr) : Prop := ∀ ⦃rest⦄, Follows rest → Quiet (e.chars ++ rest)

private theorem StaysQuiet.enclosed {e : Expr} (h : e.StaysQuiet) {rest : List Char}
    (hrest : Follows rest) : Quiet (enclose e.needsParens e.chars ++ rest) := by
  cases e.needsParens with
  | false => exact h hrest
  | true =>
      simp only [enclose, if_true, List.cons_append, List.append_assoc, List.nil_append]
      exact quiet_cons (by decide) (h (follows_rightParen hrest.quiet))

private theorem quiet_argumentChars {arguments : List Expr}
    (h : ∀ e ∈ arguments, e.StaysQuiet) {rest : List Char} (hrest : Follows rest) :
    Quiet (argumentChars arguments ++ rest) := by
  induction arguments with
  | nil => exact hrest.quiet
  | cons e arguments ih =>
      have he := h e (List.mem_cons_self ..)
      cases arguments with
      | nil => exact he hrest
      | cons e' arguments =>
          have hquiet := ih fun d hd => h d (List.mem_cons_of_mem e hd)
          rw [argumentChars_cons_cons, List.append_assoc, List.cons_append, List.cons_append]
          exact he (follows_comma (quiet_cons (by decide) hquiet))

/-- **The text of a tree that was read is quiet**: a bracket that closes behind fillers closes the
name of a parameter. -/
theorem quiet_chars {e : Expr} (h : e.Produced) : e.StaysQuiet := by
  induction e using Expr.byParts with
  | literal l =>
      intro rest _
      exact quiet_literal (everywhere_literal.1 h) rest
  | parameter name =>
      intro rest hrest
      exact quiet_parameter (everywhere_parameter.1 h) hrest.noCall
  | call name arguments ih =>
      intro rest hrest
      obtain ⟨hname, hargs⟩ := everywhere_call.1 h
      simp only [chars, List.append_assoc, List.cons_append, List.nil_append]
      exact quiet_append hname.2 (quiet_cons (by decide)
        (quiet_argumentChars (fun e he => ih e he (hargs e he)) (follows_rightParen hrest.quiet)))
  | unary op operand ih =>
      intro rest _
      have hop : ∃ c cs, op.text.toList = c :: cs ∧ isFiller c = false ∧ c ≠ ']' := by
        cases op <;> exact ⟨_, _, rfl, by decide, by decide⟩
      obtain ⟨c, cs, hcs, hc, hne⟩ := hop
      rw [chars, hcs]
      exact quiet_of_not_filler hc hne _
  | binary op left right ihl _ =>
      intro rest _
      simp only [chars, List.append_assoc, List.cons_append]
      exact (ihl (everywhere_binary.1 h).1).enclosed (follows_operator op _)
  | conditional condition yes no ihc _ _ =>
      intro rest _
      simp only [chars, List.append_assoc, List.cons_append]
      exact (ihc (everywhere_conditional.1 h).1).enclosed (follows_question _)

end Expr

/-! ## Names of functions -/

/-- A list that comes again behind others consists of their elements. -/
theorem mem_of_prefix_append {xs ys : List Char} (hys : ys ≠ []) (h : xs <+: ys ++ xs) :
    ∀ c ∈ xs, c ∈ ys := by
  have hall : ∀ i, ∀ hi : i < xs.length, xs[i] ∈ ys := by
    intro i
    induction i using Nat.strongRecOn with
    | ind i ih =>
        intro hi
        have hlt : i < (ys ++ xs).length := Nat.lt_of_lt_of_le hi h.length_le
        have hget : xs[i] = (ys ++ xs)[i] := h.getElem hi
        rw [hget, List.getElem_append]
        split
        · exact List.getElem_mem _
        · have := List.length_pos_iff.2 hys
          exact ih (i - ys.length) (by omega) (by omega)
  intro c hc
  obtain ⟨i, hi, rfl⟩ := List.mem_iff_getElem.1 hc
  exact hall i hi

/-- Nothing but parentheses and commas stands in front of the first mark of an outline. -/
theorem outline_eq_callee {ts : List Token} {name : String} {marks : List Mark}
    (h : outline ts = .callee name :: marks) :
    ∃ front us, ts = front ++ .name name :: us ∧
      (∀ t ∈ front, ∃ s, t = .symbol s ∧ s.isPunctuation = true) ∧ opensParen us = true := by
  induction ts with
  | nil => cases h
  | cons t ts ih =>
      have hskip : ∀ s : Symbol, s.isPunctuation = true → t = .symbol s → outline ts =
          .callee name :: marks → ∃ front us, t :: ts = front ++ .name name :: us ∧
          (∀ t ∈ front, ∃ s, t = .symbol s ∧ s.isPunctuation = true) ∧ opensParen us = true := by
        intro s hs ht hrest
        obtain ⟨front, us, rfl, hfront, hus⟩ := ih hrest
        exact ⟨t :: front, us, rfl, List.forall_mem_cons.2 ⟨⟨s, ht, hs⟩, hfront⟩, hus⟩
      cases t with
      | literal l => cases h
      | name s =>
          rw [outline, Token.marks] at h
          split at h
          · next hopens =>
            cases h
            exact ⟨[], ts, rfl, by simp, hopens⟩
          · cases h
      | symbol s =>
          cases hs : s.isPunctuation with
          | true =>
              refine hskip s hs rfl ?_
              cases s <;> first | exact h | cases hs
          | false => cases s <;> first | cases h | cases hs

/-- Parentheses and commas are breaks in the text. -/
theorem carve_eq_some_append {front us : List Token} {t : Token} {cs : List Char}
    (hfront : ∀ t ∈ front, ∃ s, t = .symbol s ∧ s.isPunctuation = true)
    (h : carve cs = some (front ++ t :: us)) :
    ∃ skip c body, cs = skip ++ c :: body ∧ (∀ d ∈ skip, isBreak d = true) ∧
      (scanRegion c body).outcome = .ok t ∧ carve (scanRegion c body).rest = some us := by
  have hblank : ∀ d, isBlank d = true → isBreak d = true := by
    intro d hd
    simp [isBreak, hd]
  induction front generalizing cs with
  | nil =>
      obtain ⟨skip, c, body, rfl, hskip, hscan⟩ := carve_eq_some_cons h
      exact ⟨skip, c, body, rfl, fun d hd => hblank d (hskip d hd), hscan⟩
  | cons t' front ih =>
      obtain ⟨⟨s, rfl, hs⟩, hothers⟩ := List.forall_mem_cons.1 hfront
      obtain ⟨skip, c, body, rfl, hskip, hout, hrest⟩ := carve_eq_some_cons h
      obtain ⟨hc, hbody⟩ : isBreak c = true ∧ (scanRegion c body).rest = body := by
        rcases holds_of_scanRegion hout with ⟨s', heq, hp⟩ | ⟨l, heq, _⟩ | ⟨name, heq, _⟩
        · cases heq
          exact hp hs
        · cases heq
        · cases heq
      rw [hbody] at hrest
      obtain ⟨skip', c', body', rfl, hskip', hscan⟩ := ih hothers hrest
      refine ⟨skip ++ c :: skip', c', body', by simp, fun d hd => ?_, hscan⟩
      rcases List.mem_append.1 hd with hd | hd
      · exact hblank d (hskip d hd)
      · rcases List.mem_cons.1 hd with rfl | hd
        · exact hc
        · exact hskip' d hd

/-- **The name of a function that is read back is a word**, if no call follows a bracket that closes
behind fillers. -/
theorem isBareName_of_outline {name : String} {rest : List Char} (hquiet : Quiet rest)
    {ts : List Token} {marks : List Mark}
    (hcarve : carve (name.toList ++ '(' :: rest) = some ts)
    (houtline : outline ts = .callee name :: marks) : isBareName name.toList = true := by
  obtain ⟨front, us, rfl, hfront, hopens⟩ := outline_eq_callee houtline
  obtain ⟨skip, c, body, hcs, hskip, hout, hrest⟩ := carve_eq_some_append hfront hcarve
  rcases holds_of_scanRegion hout with ⟨s, heq, _⟩ | ⟨l, heq, _⟩ | ⟨name', heq, hspells⟩
  · cases heq
  · cases heq
  · cases heq
    rcases hspells with hbare | ⟨rfl, _, _, hbody⟩
    · exact hbare
    · -- the name is read in brackets, which open in the text of the name itself
      exfalso
      generalize hback : (scanRegion '[' body).rest = back at hrest hbody
      have htext : (name.toList ++ ['(']) ++ rest =
          (skip ++ '[' :: name.toList) ++ ']' :: back := by
        rw [List.append_assoc, List.singleton_append, hcs, hbody]
        simp
      have hprefix : name.toList ++ ['('] <+: skip ++ '[' :: name.toList := by
        refine List.prefix_of_prefix_length_le (List.prefix_append _ rest) ?_ ?_
        · rw [htext]
          exact List.prefix_append _ _
        · simp
      obtain ⟨inside, hinside⟩ := hprefix
      have hrest' : rest = inside ++ ']' :: back := by
        rw [← hinside, List.append_assoc _ inside] at htext
        exact List.append_cancel_left htext
      have hfiller : ∀ d ∈ skip ++ ['['], isFiller d = true := by
        intro d hd
        rcases List.mem_append.1 hd with hd | hd
        · simp [isFiller, hskip d hd]
        · rw [List.mem_singleton.1 hd]
          decide
      have hmem : ∀ d ∈ name.toList, d ∈ skip ++ ['['] := by
        refine mem_of_prefix_append (by simp) ?_
        refine (List.prefix_append name.toList ('(' :: inside)).trans ?_
        rw [List.append_assoc, List.singleton_append, ← hinside]
        simp
      have hnocall : NoCall back := by
        refine hquiet inside back hrest' fun d hd => ?_
        have hd' : d ∈ skip ++ '[' :: name.toList := hinside ▸ List.mem_append_right _ hd
        rcases List.mem_append.1 hd' with hd' | hd'
        · exact hfiller d (List.mem_append_left _ hd')
        · rcases List.mem_cons.1 hd' with rfl | hd'
          · decide
          · exact hfiller d (hmem d hd')
      rw [hnocall us hrest] at hopens
      cases hopens

/-! ## Against the outline -/

/-- The text has tokens with an outline. -/
def Reads (cs : List Char) (marks : List Mark) : Prop :=
  ∃ ts, carve cs = some ts ∧ outline ts = marks

section Reads

variable {cs rest : List Char} {marks : List Mark}

/-- Behind an operator the outline goes on. -/
theorem Reads.behind {s : Symbol} (h : Reads cs (.token (.symbol s) :: marks))
    (hcs : carve cs = (carve rest).map (.symbol s :: ·)) (hs : s.isPunctuation = false) :
    Reads rest marks := by
  obtain ⟨ts, hts, hmarks⟩ := h
  rw [hcs] at hts
  obtain ⟨us, hus, rfl⟩ := Option.map_eq_some_iff.1 hts
  refine ⟨us, hus, ?_⟩
  have hone : outline (.symbol s :: us) = .token (.symbol s) :: outline us := by
    cases s <;> first | rfl | cases hs
  rw [hone] at hmarks
  exact (List.cons.inj hmarks).2

/-- Parentheses and commas do not count. -/
theorem Reads.skip {s : Symbol} (h : Reads cs marks)
    (hcs : carve cs = (carve rest).map (.symbol s :: ·)) (hs : s.isPunctuation = true) :
    Reads rest marks := by
  obtain ⟨ts, hts, hmarks⟩ := h
  rw [hcs] at hts
  obtain ⟨us, hus, rfl⟩ := Option.map_eq_some_iff.1 hts
  refine ⟨us, hus, ?_⟩
  have hnone : outline (.symbol s :: us) = outline us := by
    cases s <;> first | rfl | cases hs
  rwa [hnone] at hmarks

theorem Reads.space (h : Reads (' ' :: cs) marks) : Reads cs marks := by
  obtain ⟨ts, hts, hmarks⟩ := h
  exact ⟨ts, by rwa [carve_space] at hts, hmarks⟩

/-- Behind a unary operator the outline goes on: the next character did not make another symbol of
the operator. -/
theorem Reads.behindUnary {op : UnaryOp}
    (h : Reads (op.text.toList ++ cs) (.token (.symbol (.ofUnary op)) :: marks)) :
    Reads cs marks := by
  have hhead : op = .not → cs.head? ≠ some '=' := by
    rintro rfl heq
    obtain ⟨cs, rfl⟩ := List.head?_eq_some_iff.1 heq
    obtain ⟨ts, hts, hmarks⟩ := h
    have hscan : scanRegion '!' ('=' :: cs) = ⟨['!', '='], cs, .ok (.symbol .notEqual)⟩ := rfl
    have hcarve : carve ('!' :: '=' :: cs) = (carve cs).map (.symbol .notEqual :: ·) :=
      carve_of_scan (by decide) hscan
    have htext : UnaryOp.not.text.toList ++ '=' :: cs = '!' :: '=' :: cs := rfl
    rw [htext, hcarve] at hts
    obtain ⟨us, _, rfl⟩ := Option.map_eq_some_iff.1 hts
    cases hmarks
  exact h.behind (carve_unaryOperator op hhead) (by cases op <;> rfl)

end Reads

namespace Expr

variable {e : Expr} {rest : List Char} {marks : List Mark}

/-- Behind the text of a legible tree the outline goes on. -/
theorem Legible.behind (h : e.Legible) (hrest : Follows rest)
    (hreads : Reads (e.chars ++ rest) (e.outline ++ marks)) : Reads rest marks := by
  obtain ⟨ts, hts, hmarks⟩ := hreads
  rw [carve_chars h hrest.broken] at hts
  obtain ⟨us, hus, rfl⟩ := Option.map_eq_some_iff.1 hts
  refine ⟨us, hus, ?_⟩
  have houtline := outline_of_derives e.derives_written (hrest.noCall us hus)
  rw [hmarks] at houtline
  exact (List.append_cancel_left houtline).symm

/-- What is shown of a tree that was read: it is legible, if its text has its outline. -/
def Forced (e : Expr) : Prop :=
  ∀ ⦃rest marks⦄, Follows rest → Reads (e.chars ++ rest) (e.outline ++ marks) → e.Legible

/-- An operand is legible, and behind it the outline goes on. -/
private theorem Forced.enclosed (h : e.Forced) (hrest : Follows rest)
    (hreads : Reads (enclose e.needsParens e.chars ++ rest) (e.outline ++ marks)) :
    e.Legible ∧ Reads rest marks := by
  revert hreads
  cases e.needsParens with
  | false =>
      intro hreads
      have he : e.Legible := h hrest hreads
      exact ⟨he, he.behind hrest hreads⟩
  | true =>
      intro hreads
      simp only [enclose, if_true, List.cons_append, List.append_assoc, List.nil_append] at hreads
      have hinside := hreads.skip (carve_leftParen _) rfl
      have hclose : Follows (')' :: rest) := follows_rightParen hrest.quiet
      have he : e.Legible := h hclose hinside
      exact ⟨he, (he.behind hclose hinside).skip (carve_rightParen rest) rfl⟩

private theorem legible_arguments {arguments : List Expr} (h : ∀ e ∈ arguments, e.Forced)
    (hquiet : ∀ e ∈ arguments, e.StaysQuiet) (hrest : Follows rest)
    (hreads : Reads (argumentChars arguments ++ rest) (outlineAll arguments ++ marks)) :
    ∀ e ∈ arguments, e.Legible := by
  induction arguments with
  | nil =>
      intro e he
      cases he
  | cons e arguments ih =>
      have he := h e (List.mem_cons_self ..)
      have hothers := fun d hd => h d (List.mem_cons_of_mem e hd)
      have hquiet' := fun d hd => hquiet d (List.mem_cons_of_mem e hd)
      rw [outlineAll, List.append_assoc] at hreads
      cases arguments with
      | nil => exact List.forall_mem_singleton.2 (he hrest hreads)
      | cons e' arguments =>
          rw [argumentChars_cons_cons, List.append_assoc, List.cons_append,
            List.cons_append] at hreads
          have hcomma := follows_comma
            (quiet_cons (show ' ' ≠ ']' by decide) (quiet_argumentChars hquiet' hrest))
          have hlegible : e.Legible := he hcomma hreads
          have hbehind := (hlegible.behind hcomma hreads).skip (carve_comma _) rfl
          exact List.forall_mem_cons.2 ⟨hlegible, ih hothers hquiet' hbehind.space⟩

end Expr

/-- A literal that was read is legible, unless it is a float. -/
theorem Literal.legible_of_produced {l : Literal} (h : l.Produced)
    (hfloat : ∀ x, l = .float x → (float x).ReadsBack) : l.Legible := by
  cases l with
  | integer i => exact h
  | decimal d => exact h.elim
  | float x => exact hfloat x rfl
  | string s => trivial
  | boolean b => trivial
  | moment m =>
      have hcarve := carve_moment h.1
      rw [(Moment.shown_eq_self_iff h.1).2 h.2] at hcarve
      exact readsBack_iff.2 hcarve

/-- A literal is legible, if the outline of its text begins with it. -/
private theorem Literal.legible_of_reads {l : Literal} (h : l.Produced) {rest : List Char}
    (hrest : StartsBroken rest) {marks : List Mark}
    (hreads : Reads (l.chars ++ rest) (.token (.literal l) :: marks)) : l.Legible := by
  refine legible_of_produced h fun x hx => ?_
  subst hx
  obtain ⟨ts, hts, hmarks⟩ := hreads
  rcases head_carve_float hrest hts with ⟨name, us, rfl⟩ | ⟨us, rfl⟩ | ⟨l, us, rfl, hl⟩
  · rw [outline, Token.marks] at hmarks
    split at hmarks
    · cases hmarks
    · cases hmarks
  · cases hmarks
  · cases hmarks
    exact readsBack_iff.2 hl

namespace Expr

/-- **A tree that was read is legible if its text has its outline**, whatever follows. -/
theorem forced {e : Expr} (h : e.Produced) : e.Forced := by
  induction e using Expr.byParts with
  | literal l =>
      intro rest marks hrest hreads
      exact everywhere_literal.2
        (Literal.legible_of_reads (everywhere_literal.1 h) hrest.broken hreads)
  | parameter name =>
      intro rest marks _ _
      exact everywhere_parameter.2 (everywhere_parameter.1 h)
  | call name arguments ih =>
      intro rest marks hrest hreads
      obtain ⟨_, hargs⟩ := everywhere_call.1 h
      have hquiet : ∀ e ∈ arguments, e.StaysQuiet := fun e he => quiet_chars (hargs e he)
      have hclose : Follows (')' :: rest) := follows_rightParen hrest.quiet
      simp only [chars, List.append_assoc, List.cons_append, List.nil_append] at hreads
      have hbare : isBareName name.toList = true := by
        obtain ⟨ts, hts, hmarks⟩ := hreads
        exact isBareName_of_outline (quiet_argumentChars hquiet hclose) hts hmarks
      have hopen : StartsBroken ('(' :: (argumentChars arguments ++ ')' :: rest)) :=
        startsBroken_cons (by decide)
      have hinside : Reads (argumentChars arguments ++ ')' :: rest)
          (outlineAll arguments ++ marks) := by
        obtain ⟨ts, hts, hmarks⟩ := hreads
        rw [carve_append (carve_bareName hbare) hopen, carve_leftParen, Option.map_map] at hts
        obtain ⟨us, hus, rfl⟩ := Option.map_eq_some_iff.1 hts
        exact ⟨us, hus, (List.cons.inj hmarks).2⟩
      exact everywhere_call.2 ⟨hbare,
        legible_arguments (fun e he => ih e he (hargs e he)) hquiet hclose hinside⟩
  | unary op operand ih =>
      intro rest marks hrest hreads
      rw [chars, List.append_assoc] at hreads
      have hoperand := hreads.behindUnary
      exact everywhere_unary.2 ((ih (everywhere_unary.1 h)).enclosed hrest hoperand).1
  | binary op left right ihl ihr =>
      intro rest marks hrest hreads
      obtain ⟨hl, hr⟩ := everywhere_binary.1 h
      simp only [chars, outline, List.append_assoc, List.cons_append] at hreads
      obtain ⟨hleft, hbehind⟩ := (ihl hl).enclosed (follows_operator op _) hreads
      have hoperand := hbehind.behind ((carve_space _).trans (carve_operator op _))
        (by cases op <;> rfl)
      exact everywhere_binary.2 ⟨hleft, ((ihr hr).enclosed hrest hoperand).1⟩
  | conditional condition yes no ihc ihy ihn =>
      intro rest marks hrest hreads
      obtain ⟨hc, hy, hn⟩ := everywhere_conditional.1 h
      simp only [chars, outline, List.append_assoc, List.cons_append] at hreads
      obtain ⟨hcondition, hbehind⟩ := (ihc hc).enclosed (follows_question _) hreads
      have hyes := (hbehind.behind ((carve_space _).trans (carve_question _)) rfl).space
      obtain ⟨hlegible, hbehind⟩ := (ihy hy).enclosed (follows_colon _) hyes
      have hno := (hbehind.behind ((carve_space _).trans (carve_colon _)) rfl).space
      exact everywhere_conditional.2 ⟨hcondition, hlegible, ((ihn hn).enclosed hrest hno).1⟩

/-- A tree that was read and is read back from its text is legible, and its text stays within the
limit on nesting. -/
theorem legible_of_parse_text {e : Expr} (h : e.Produced) (hback : parse e.text = .ok e) :
    e.Legible ∧ e.levels ≤ nestingLimit := by
  obtain ⟨ts, hts, n, hn, hd⟩ := parse_eq_ok_iff.1 hback
  rw [text, String.toList_ofList] at hts
  have hmarks : FormulaEngine.outline ts = e.outline ++ [] := by
    have houtline : FormulaEngine.outline (ts ++ []) = e.outline ++ FormulaEngine.outline [] :=
      outline_of_derives hd rfl
    rwa [List.append_nil] at houtline
  have hreads : Reads (e.chars ++ []) (e.outline ++ []) :=
    ⟨ts, by rwa [List.append_nil], hmarks⟩
  have hlegible : e.Legible := forced h follows_nil hreads
  have hwritten : ts = e.written := by
    have hcarve := carve_chars hlegible startsBroken_nil
    rw [List.append_nil, hts, carve_nil] at hcarve
    simpa using hcarve
  subst hwritten
  have hlevels : n = e.levels := (hd.determined e.derives_written).1
  exact ⟨hlegible, hlevels ▸ hn⟩

/-- **When a tree that was read is read back from its text.**  Exactly if each of its floats is read
back from its own text, each of its functions has a name that is a word and no keyword, and reading
the text needs no more levels of nesting than there may be. -/
theorem parse_text_iff {text : String} {e : Expr} (h : parse text = .ok e) :
    parse e.text = .ok e ↔
      (∀ x, Literal.float x ∈ e.literals → (Literal.float x).ReadsBack) ∧
      (∀ name ∈ e.callees, isBareName name.toList = true) ∧ e.levels ≤ nestingLimit := by
  have hproduced := produced_of_parse h
  constructor
  · intro hback
    obtain ⟨hlegible, hlevels⟩ := legible_of_parse_text hproduced hback
    exact ⟨fun x hx => hlegible.literals _ hx, hlegible.callees, hlevels⟩
  · intro h
    obtain ⟨hfloats, hcallees, hlevels⟩ := h
    have hliterals : ∀ l ∈ e.literals, l.Legible := by
      intro l hl
      refine Literal.legible_of_produced (hproduced.literals l hl) fun x hx => ?_
      subst hx
      exact hfloats x hl
    exact parse_text_of_legible ⟨hliterals, hproduced.parameters, hcallees⟩ hlevels

/-- A name in brackets that needs none, and a float, are read back: the conditions hold for
`[f](1, 2.5)`. -/
theorem parse_text_iff_bracketed_word :
    parse "[f](1, 2.5)" = .ok (call "f" [literal (.integer 1), literal (.float 2.5)]) ∧
      parse (call "f" [literal (.integer 1), literal (.float 2.5)]).text =
        .ok (call "f" [literal (.integer 1), literal (.float 2.5)]) := by
  have hread : parse "[f](1, 2.5)" =
      .ok (call "f" [literal (.integer 1), literal (.float 2.5)]) :=
    parse_eq_ok_iff.2 ⟨_, by decide +kernel, _, by decide, derives_written _⟩
  refine ⟨hread, (parse_text_iff hread).2 ⟨fun x hx => ?_, by decide +kernel, by decide⟩⟩
  have hx : Literal.float x ∈ [Literal.integer 1, .float 2.5] := hx
  obtain rfl : x = 2.5 := by simpa using hx
  exact Literal.readsBack_iff.2 (by decide +kernel)

/-- A function whose name is a keyword was read in brackets.  Its text has no brackets, and is the
text of another tree. -/
theorem parse_text_bracketed_keyword :
    parse "[not](x)" = .ok (call "not" [parameter "x"]) ∧
      parse (call "not" [parameter "x"]).text = .ok (unary .not (parameter "x")) ∧
      parse (call "not" [parameter "x"]).text ≠ .ok (call "not" [parameter "x"]) := by
  have hread : parse "[not](x)" = .ok (call "not" [parameter "x"]) :=
    parse_eq_ok_iff.2 ⟨_, by decide +kernel, _, by decide, derives_written _⟩
  have hparens : Derives .primary 1 [.symbol .leftParen, .name "x", .symbol .rightParen]
      (parameter "x") := Derives.parens (derives_written (parameter "x"))
  have hnot := Derives.operand (hparens.primary.unary .not)
  have hback : parse (call "not" [parameter "x"]).text = .ok (unary .not (parameter "x")) :=
    parse_eq_ok_iff.2 ⟨_, by decide +kernel, 3, by decide,
      (hnot.lower (by decide) (by decide)).operation⟩
  refine ⟨hread, hback, ?_⟩
  rw [hback]
  intro h
  cases h

end Expr

end FormulaEngine
