import FormulaEngine.Proofs.Spelling

/-!
# Formulas as text are read back

The text of a tree is carved into the tokens that the tree is written with, and these derive the
tree: the parentheses around an operand that is an operation stand where the grammar wants them.

* `Expr.written` -- the tokens of the text of a tree;
* `Expr.levels` -- the number of levels of nesting that reading the text needs;
* `Expr.derives_written` -- the tokens derive the tree, with that number of levels;
* `Expr.carve_chars` -- the text holds the tokens, if its literals and names are legible;
* `Expr.parse_text` -- reading undoes writing.
-/

namespace FormulaEngine

/-- Tokens in parentheses, where they are needed. -/
def encloseTokens (needed : Bool) (ts : List Token) : List Token :=
  if needed then .symbol .leftParen :: (ts ++ [.symbol .rightParen]) else ts

/-- The levels of a tree in parentheses, where they are needed. -/
def enclosedLevels (needed : Bool) (levels : Nat) : Nat :=
  if needed then levels + 1 else levels

namespace Expr

mutual

/-- The tokens that a tree is written with. -/
def written : Expr → List Token
  | literal l => [.literal l]
  | parameter name => [.name name]
  | call name arguments =>
    .name name :: .symbol .leftParen :: (writtenArguments arguments ++ [.symbol .rightParen])
  | unary op operand => .symbol (.ofUnary op) :: encloseTokens operand.needsParens (written operand)
  | binary op left right =>
    encloseTokens left.needsParens (written left) ++
      .symbol (.ofBinary op) :: encloseTokens right.needsParens (written right)
  | conditional condition yes no =>
    encloseTokens condition.needsParens (written condition) ++
      .symbol .question :: (encloseTokens yes.needsParens (written yes) ++
        .symbol .colon :: encloseTokens no.needsParens (written no))

/-- The tokens that arguments are written with. -/
def writtenArguments : List Expr → List Token
  | [] => []
  | [e] => written e
  | e :: rest => written e ++ .symbol .comma :: writtenArguments rest

end

mutual

/-- The levels that are open at once at most inside of the text of a tree. -/
def innerLevels : Expr → Nat
  | literal _ => 0
  | parameter _ => 0
  | call _ arguments => argumentLevels arguments
  | unary _ operand => enclosedLevels operand.needsParens (innerLevels operand) + 1
  | binary _ left right =>
    max (enclosedLevels left.needsParens (innerLevels left))
      (enclosedLevels right.needsParens (innerLevels right))
  | conditional condition yes no =>
    max (enclosedLevels condition.needsParens (innerLevels condition))
      (max (enclosedLevels yes.needsParens (innerLevels yes) + 1)
        (enclosedLevels no.needsParens (innerLevels no) + 1))

/-- The levels that are open at once at most in the texts of arguments, which open one each. -/
def argumentLevels : List Expr → Nat
  | [] => 0
  | e :: rest => max (innerLevels e + 1) (argumentLevels rest)

end

/-- The number of levels of nesting that reading the text of a tree needs. -/
def levels (e : Expr) : Nat := e.innerLevels + 1

theorem writtenArguments_cons_cons (e e' : Expr) (rest : List Expr) :
    writtenArguments (e :: e' :: rest) =
      written e ++ .symbol .comma :: writtenArguments (e' :: rest) := by
  simp [writtenArguments]

theorem argumentChars_cons_cons (e e' : Expr) (rest : List Expr) :
    argumentChars (e :: e' :: rest) = chars e ++ ',' :: ' ' :: argumentChars (e' :: rest) := by
  simp [argumentChars]

/-! ## The tokens derive the tree -/

/-- What is known of a tree and its tokens: they derive it as an expression, and as a unary phrase
unless it needs parentheses. -/
private def DerivesWritten (e : Expr) : Prop :=
  Derives .expression e.levels e.written e ∧
    (e.needsParens = false → Derives .unary e.innerLevels e.written e)

/-- A tree that is a unary phrase is an expression. -/
private theorem derivesWritten_of_unary {e : Expr} (h : Derives .unary e.innerLevels e.written e) :
    DerivesWritten e :=
  ⟨((Derives.operand h).lower (by decide) (by decide)).operation, fun _ => h⟩

/-- An operand is a unary phrase, in parentheses if it needs them. -/
private theorem DerivesWritten.enclosed {e : Expr} (h : DerivesWritten e) :
    Derives .unary (enclosedLevels e.needsParens e.innerLevels)
      (encloseTokens e.needsParens e.written) e := by
  obtain ⟨hexpression, hunary⟩ := h
  cases hn : e.needsParens with
  | true => exact Derives.primary (Derives.parens hexpression)
  | false => exact hunary hn

private theorem DerivesWritten.operation {e : Expr} (h : DerivesWritten e) {level : Nat}
    (hl : level ≤ 11) :
    Derives (.operation level) (enclosedLevels e.needsParens e.innerLevels)
      (encloseTokens e.needsParens e.written) e :=
  (Derives.operand h.enclosed).lower hl (Nat.le_refl 11)

/-- An operand that stands for an expression, in parentheses if it needs them. -/
private theorem DerivesWritten.expression {e : Expr} (h : DerivesWritten e) :
    Derives .expression (enclosedLevels e.needsParens e.innerLevels + 1)
      (encloseTokens e.needsParens e.written) e :=
  (h.operation (by decide)).operation

private theorem derives_writtenArguments (name : String) {e : Expr} {rest : List Expr}
    (h : ∀ d ∈ e :: rest, DerivesWritten d) :
    Derives (.arguments name) (argumentLevels (e :: rest)) (writtenArguments (e :: rest))
      (.call name (e :: rest)) := by
  induction rest generalizing e with
  | nil =>
      have he := (h e (List.mem_cons_self ..)).1
      simpa [argumentLevels, writtenArguments, levels] using he.argument
  | cons e' rest ih =>
      have he := (h e (List.mem_cons_self ..)).1
      have hrest := ih fun d hd => h d (List.mem_cons_of_mem e hd)
      rw [argumentLevels, writtenArguments_cons_cons]
      exact Derives.arguments he hrest

private theorem derivesWritten (e : Expr) : DerivesWritten e := by
  induction e using Expr.byParts with
  | literal l => exact derivesWritten_of_unary (Derives.literal l).primary
  | parameter name => exact derivesWritten_of_unary (Derives.parameter name).primary
  | call name arguments ih =>
      refine derivesWritten_of_unary ?_
      cases arguments with
      | nil => exact (Derives.constant name).primary
      | cons e rest => exact (derives_writtenArguments name ih).call.primary
  | unary op operand ih => exact derivesWritten_of_unary (ih.enclosed.unary op)
  | binary op left right ihl ihr =>
      have hle := op.precedence_le
      have h := Derives.binary op (ihl.operation (Nat.le_succ_of_le hle))
        (ihr.operation (Nat.succ_le_succ hle))
      exact ⟨(h.lower op.precedence_pos (Nat.le_succ_of_le hle)).operation, fun hn => nomatch hn⟩
  | conditional condition yes no ihc ihy ihn =>
      exact ⟨(ihc.operation (by decide)).conditional ihy.expression ihn.expression,
        fun hn => nomatch hn⟩

/-- **The tokens of a tree derive it**, with the number of levels that its text needs. -/
theorem derives_written (e : Expr) : Derives .expression e.levels e.written e :=
  (derivesWritten e).1

end Expr

/-! ## The text holds the tokens -/

/-- The text of a literal is carved into the literal, and nothing else. -/
def Literal.ReadsBack (l : Literal) : Prop :=
  ∃ start stop, tokenize (String.ofList l.chars) = .ok [⟨.literal l, start, stop⟩]

/-- A literal that can stand in a formula.  A sign in front of a number would be an operator. -/
def Literal.Legible : Literal → Prop
  | boolean _ | string _ => True
  | integer i => 0 ≤ i
  | float x => (float x).ReadsBack
  | moment m => (moment m).ReadsBack
  | decimal _ => False

theorem Literal.readsBack_iff {l : Literal} :
    l.ReadsBack ↔ carve l.chars = some [.literal l] := by
  rw [← String.toList_ofList (l := l.chars), carve_toList_eq_some_iff]
  constructor
  · rintro ⟨start, stop, h⟩
    exact ⟨_, h, rfl⟩
  · rintro ⟨ts, hts, htokens⟩
    obtain ⟨t, us, rfl, hl, hus⟩ := Reader.tokens_eq_cons_iff.1 htokens
    obtain rfl : us = [] := List.map_eq_nil_iff.1 hus
    exact ⟨t.start, t.stop, by rw [← hl]; exact hts⟩

/-- **A legible literal is read back from its text.** -/
theorem Literal.carve_chars {l : Literal} (h : l.Legible) :
    carve l.chars = some [.literal l] := by
  cases l with
  | integer i => exact carve_integer h
  | decimal d => exact h.elim
  | float x => exact readsBack_iff.1 h
  | string s => exact carve_quoted s
  | boolean b =>
      cases b with
      | false => decide +kernel
      | true => decide +kernel
  | moment m => exact readsBack_iff.1 h

namespace Expr

mutual

/-- The literals of a tree from left to right. -/
def literals : Expr → List Literal
  | literal l => [l]
  | parameter _ => []
  | call _ arguments => literalsAll arguments
  | unary _ operand => literals operand
  | binary _ left right => literals left ++ literals right
  | conditional condition yes no => literals condition ++ literals yes ++ literals no

/-- The literals of several trees. -/
def literalsAll : List Expr → List Literal
  | [] => []
  | e :: rest => literals e ++ literalsAll rest

end

mutual

/-- The names of the called functions from left to right, with repetitions. -/
def callees : Expr → List String
  | literal _ => []
  | parameter _ => []
  | call name arguments => name :: calleesAll arguments
  | unary _ operand => callees operand
  | binary _ left right => callees left ++ callees right
  | conditional condition yes no => callees condition ++ callees yes ++ callees no

/-- The names of the functions that are called in several trees. -/
def calleesAll : List Expr → List String
  | [] => []
  | e :: rest => callees e ++ calleesAll rest

end

/-- All literals, all parameters and all names of functions of a tree have a property. -/
structure Everywhere (literal : Literal → Prop) (parameter callee : String → Prop) (e : Expr) :
    Prop where
  literals : ∀ l ∈ e.literals, literal l
  parameters : ∀ name ∈ e.occurrences, parameter name
  callees : ∀ name ∈ e.callees, callee name

section Everywhere

variable {p : Literal → Prop} {q r : String → Prop}

theorem everywhere_literal {l : Literal} : (literal l).Everywhere p q r ↔ p l := by
  constructor
  · intro h
    exact h.literals l (List.mem_singleton.2 rfl)
  · intro h
    exact ⟨by simpa [literals] using h, by simp [occurrences], by simp [callees]⟩

theorem everywhere_parameter {name : String} :
    (parameter name).Everywhere p q r ↔ q name := by
  constructor
  · intro h
    exact h.parameters name (List.mem_singleton.2 rfl)
  · intro h
    exact ⟨by simp [literals], by simpa [occurrences] using h, by simp [callees]⟩

private theorem everywhere_arguments {arguments : List Expr} :
    (∀ e ∈ arguments, e.Everywhere p q r) ↔ (∀ l ∈ literalsAll arguments, p l) ∧
      (∀ name ∈ occurrencesAll arguments, q name) ∧ ∀ name ∈ calleesAll arguments, r name := by
  induction arguments with
  | nil => simp [literalsAll, occurrencesAll, calleesAll]
  | cons e rest ih =>
      simp only [List.forall_mem_cons, literalsAll, occurrencesAll, calleesAll,
        List.forall_mem_append, ih]
      constructor
      · intro h
        obtain ⟨⟨hl, hn, hc⟩, hl', hn', hc'⟩ := h
        exact ⟨⟨hl, hl'⟩, ⟨hn, hn'⟩, hc, hc'⟩
      · intro h
        obtain ⟨⟨hl, hl'⟩, ⟨hn, hn'⟩, hc, hc'⟩ := h
        exact ⟨⟨hl, hn, hc⟩, hl', hn', hc'⟩

theorem everywhere_call {name : String} {arguments : List Expr} :
    (call name arguments).Everywhere p q r ↔
      r name ∧ ∀ e ∈ arguments, e.Everywhere p q r := by
  rw [everywhere_arguments]
  constructor
  · intro h
    obtain ⟨hl, hn, hc⟩ := h
    exact ⟨hc name (List.mem_cons_self ..), hl, hn, fun f hf => hc f (List.mem_cons_of_mem name hf)⟩
  · intro h
    obtain ⟨hname, hl, hn, hc⟩ := h
    exact ⟨hl, hn, List.forall_mem_cons.2 ⟨hname, hc⟩⟩

theorem everywhere_unary {op : UnaryOp} {operand : Expr} :
    (unary op operand).Everywhere p q r ↔ operand.Everywhere p q r :=
  ⟨fun h => ⟨h.literals, h.parameters, h.callees⟩, fun h => ⟨h.literals, h.parameters, h.callees⟩⟩

theorem everywhere_binary {op : BinaryOp} {left right : Expr} :
    (binary op left right).Everywhere p q r ↔
      left.Everywhere p q r ∧ right.Everywhere p q r := by
  constructor
  · intro h
    obtain ⟨hl, hn, hc⟩ := h
    obtain ⟨hl₁, hl₂⟩ := List.forall_mem_append.1 hl
    obtain ⟨hn₁, hn₂⟩ := List.forall_mem_append.1 hn
    obtain ⟨hc₁, hc₂⟩ := List.forall_mem_append.1 hc
    exact ⟨⟨hl₁, hn₁, hc₁⟩, hl₂, hn₂, hc₂⟩
  · intro h
    obtain ⟨⟨hl₁, hn₁, hc₁⟩, hl₂, hn₂, hc₂⟩ := h
    exact ⟨List.forall_mem_append.2 ⟨hl₁, hl₂⟩, List.forall_mem_append.2 ⟨hn₁, hn₂⟩,
      List.forall_mem_append.2 ⟨hc₁, hc₂⟩⟩

theorem everywhere_conditional {condition yes no : Expr} :
    (conditional condition yes no).Everywhere p q r ↔
      condition.Everywhere p q r ∧ yes.Everywhere p q r ∧ no.Everywhere p q r := by
  -- a conditional has the literals and names of two nested operations
  have hparts : (conditional condition yes no).Everywhere p q r ↔
      (binary .add (binary .add condition yes) no).Everywhere p q r :=
    ⟨fun h => ⟨h.literals, h.parameters, h.callees⟩,
      fun h => ⟨h.literals, h.parameters, h.callees⟩⟩
  rw [hparts, everywhere_binary, everywhere_binary, and_assoc]

end Everywhere

/-- A tree whose text spells its literals and names so that they are read as they are: a name in
brackets reaches to the first closing one, and the name of a function has no brackets. -/
abbrev Legible (e : Expr) : Prop :=
  e.Everywhere Literal.Legible (fun name => name ≠ "" ∧ ']' ∉ name.toList)
    (fun name => isBareName name.toList = true)

/-- The text of an operand does not make another symbol of the operator in front of it. -/
private theorem head?_chars_ne {e : Expr} (h : e.Legible) (hn : e.needsParens = false)
    (rest : List Char) : (e.chars ++ rest).head? ≠ some '=' := by
  have hbare : ∀ {cs rest : List Char}, isBareName cs = true → (cs ++ rest).head? ≠ some '=' := by
    intro cs rest hcs heq
    obtain ⟨c, cs, rfl, hc⟩ := exists_of_isBareName hcs
    cases heq
    exact absurd hc (by decide)
  cases e with
  | literal l =>
      have hl := Literal.carve_chars (everywhere_literal.1 h)
      intro heq
      rw [chars] at heq
      cases hcs : l.chars with
      | nil => rw [hcs, carve_nil] at hl; cases hl
      | cons c cs =>
          rw [hcs] at hl heq
          cases heq
          obtain ⟨t, us, hts, ht, _⟩ := carve_cons_eq_some (by decide) hl
          obtain ⟨s, hs⟩ :=
            outcome_scanRegion_of_ofChar? (show Symbol.ofChar? '=' = some .equal from rfl) cs
          rw [hs] at ht
          cases ht
          cases hts
  | parameter name =>
      rw [chars, nameChars]
      split
      · next hplain => exact hbare (isBareName_of_isPlainName hplain)
      · simp
  | call name arguments =>
      rw [chars, List.append_assoc]
      exact hbare (everywhere_call.1 h).1
  | unary op operand =>
      rw [chars, List.append_assoc]
      cases op <;> simp [UnaryOp.text]
  | binary op left right => cases hn
  | conditional condition yes no => cases hn

/-- What is shown of a tree: in front of a break its text holds its tokens. -/
def CarvesWritten (e : Expr) : Prop :=
  ∀ ⦃rest : List Char⦄, StartsBroken rest →
    carve (e.chars ++ rest) = (carve rest).map (e.written ++ ·)

/-- An operand holds its tokens, in parentheses if it needs them. -/
private theorem CarvesWritten.enclosed {e : Expr} (h : CarvesWritten e) {rest : List Char}
    (hrest : StartsBroken rest) :
    carve (enclose e.needsParens e.chars ++ rest) =
      (carve rest).map (encloseTokens e.needsParens e.written ++ ·) := by
  cases e.needsParens with
  | false => exact h hrest
  | true =>
      have hclose : StartsBroken (')' :: rest) := startsBroken_cons (by decide)
      simp only [enclose, encloseTokens, if_true, List.cons_append, List.append_assoc,
        List.nil_append, carve_leftParen, h hclose, carve_rightParen, Option.map_map]
      rfl

private theorem carve_argumentChars {e : Expr} {arguments : List Expr}
    (h : ∀ d ∈ e :: arguments, CarvesWritten d) {rest : List Char} (hrest : StartsBroken rest) :
    carve (argumentChars (e :: arguments) ++ rest) =
      (carve rest).map (writtenArguments (e :: arguments) ++ ·) := by
  induction arguments generalizing e with
  | nil =>
      have he := h e (List.mem_cons_self ..) hrest
      simpa [argumentChars, writtenArguments] using he
  | cons e' arguments ih =>
      have hcomma : StartsBroken (',' :: ' ' :: (argumentChars (e' :: arguments) ++ rest)) :=
        startsBroken_cons (by decide)
      have he := h e (List.mem_cons_self ..) hcomma
      have hrest' := ih fun d hd => h d (List.mem_cons_of_mem e hd)
      simp only [argumentChars_cons_cons, writtenArguments_cons_cons, List.append_assoc,
        List.cons_append, he, carve_comma, carve_space, hrest', Option.map_map]
      rfl

/-- **The text of a tree holds the tokens that the tree is written with**, in front of a break. -/
theorem carve_chars {e : Expr} (h : e.Legible) : CarvesWritten e := by
  induction e using Expr.byParts with
  | literal l =>
      intro rest hrest
      exact carve_append (Literal.carve_chars (everywhere_literal.1 h)) hrest
  | parameter name =>
      intro rest hrest
      obtain ⟨hne, hname⟩ := everywhere_parameter.1 h
      exact carve_append (carve_nameChars hne hname) hrest
  | call name arguments ih =>
      intro rest hrest
      obtain ⟨hname, hargs⟩ := everywhere_call.1 h
      have hopen : StartsBroken ('(' :: (argumentChars arguments ++ ')' :: rest)) :=
        startsBroken_cons (by decide)
      have hclose : StartsBroken (')' :: rest) := startsBroken_cons (by decide)
      have hinside : carve (argumentChars arguments ++ ')' :: rest) =
          (carve (')' :: rest)).map (writtenArguments arguments ++ ·) := by
        cases arguments with
        | nil => simp [argumentChars, writtenArguments]
        | cons e arguments => exact carve_argumentChars (fun d hd => ih d hd (hargs d hd)) hclose
      simp only [chars, written, List.append_assoc, List.cons_append, List.nil_append,
        carve_append (carve_bareName hname) hopen, carve_leftParen, hinside, carve_rightParen,
        Option.map_map]
      rfl
  | unary op operand ih =>
      intro rest hrest
      have hoperand := everywhere_unary.1 h
      have hhead : (enclose operand.needsParens operand.chars ++ rest).head? ≠ some '=' := by
        cases hn : operand.needsParens with
        | true => simp [enclose]
        | false => exact head?_chars_ne hoperand hn rest
      simp only [chars, written, List.append_assoc, List.cons_append,
        carve_unaryOperator op fun _ => hhead, (ih hoperand).enclosed hrest, Option.map_map]
      rfl
  | binary op left right ihl ihr =>
      intro rest hrest
      obtain ⟨hl, hr⟩ := everywhere_binary.1 h
      have hspace : ∀ cs, StartsBroken (' ' :: cs) := fun cs => startsBroken_cons (by decide)
      simp only [chars, written, List.append_assoc, List.cons_append,
        (ihl hl).enclosed (hspace _), carve_space, carve_operator, (ihr hr).enclosed hrest,
        Option.map_map]
      rfl
  | conditional condition yes no ihc ihy ihn =>
      intro rest hrest
      obtain ⟨hc, hy, hn⟩ := everywhere_conditional.1 h
      have hspace : ∀ cs, StartsBroken (' ' :: cs) := fun cs => startsBroken_cons (by decide)
      simp only [chars, written, List.append_assoc, List.cons_append,
        (ihc hc).enclosed (hspace _), carve_space, carve_question, (ihy hy).enclosed (hspace _),
        carve_colon, (ihn hn).enclosed hrest, Option.map_map]
      rfl

/-! ## Reading undoes writing -/

/-- A legible tree is read back from its text within the limit on nesting. -/
theorem parse_text_of_legible {e : Expr} (h : e.Legible) (hlevels : e.levels ≤ nestingLimit) :
    parse e.text = .ok e := by
  have hcarve := carve_chars h startsBroken_nil
  rw [List.append_nil, carve_nil] at hcarve
  have htokens : carve e.text.toList = some e.written := by
    rw [text, String.toList_ofList, hcarve]
    simp
  exact parse_eq_ok_iff.2 ⟨e.written, htokens, e.levels, hlevels, e.derives_written⟩

/-- **Reading undoes writing.**  Whatever the shape of a tree, its text has that tree, if

* its literals are truth values, strings, integers that are not negative, or floats and moments
  whose text is carved into just them;
* its parameters have names that are not empty and hold no closing bracket;
* its functions have names that are words and no keywords;
* reading the text needs no more levels of nesting than there may be. -/
theorem parse_text (e : Expr)
    (hliterals : ∀ l ∈ e.literals, l.Legible)
    (hnames : ∀ name ∈ e.occurrences, name ≠ "" ∧ ']' ∉ name.toList)
    (hcallees : ∀ name ∈ e.callees, isBareName name.toList = true)
    (hlevels : e.levels ≤ nestingLimit) : parse e.text = .ok e :=
  parse_text_of_legible ⟨hliterals, hnames, hcallees⟩ hlevels

/-- The text of a conditional with a name in brackets, a string with a quote, a float and a moment
is read back as that tree. -/
theorem parse_text_conditional :
    parse "(![my name] && f('it\\'s', 1.5)) ? #2024-01-31 10:30:15# : 3" =
      .ok (.conditional
        (.binary .and (.unary .not (.parameter "my name"))
          (.call "f" [.literal (.string "it's"), .literal (.float 1.5)]))
        (.literal (.moment ⟨2024, 1, 31, 10, 30, 15, 0⟩)) (.literal (.integer 3))) := by
  have htext : "(![my name] && f('it\\'s', 1.5)) ? #2024-01-31 10:30:15# : 3" =
      (conditional (.binary .and (.unary .not (.parameter "my name"))
          (.call "f" [.literal (.string "it's"), .literal (.float 1.5)]))
        (.literal (.moment ⟨2024, 1, 31, 10, 30, 15, 0⟩)) (.literal (.integer 3))).text := by
    decide +kernel
  rw [htext]
  refine parse_text _ (fun l hl => ?_) (by decide +kernel) (by decide +kernel) (by decide +kernel)
  have hl : l ∈ [Literal.string "it's", .float 1.5, .moment ⟨2024, 1, 31, 10, 30, 15, 0⟩,
      .integer 3] := hl
  simp only [List.mem_cons, List.not_mem_nil, or_false] at hl
  rcases hl with rfl | rfl | rfl | rfl
  · trivial
  · exact Literal.readsBack_iff.2 (by decide +kernel)
  · exact Literal.readsBack_iff.2 (by decide +kernel)
  · show (0 : Int64) ≤ 3
    decide

end Expr

end FormulaEngine
