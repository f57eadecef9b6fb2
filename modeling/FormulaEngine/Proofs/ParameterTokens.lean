import FormulaEngine.Proofs.Outline

/-!
# The parameters of a text

The parameters of a tree that is read can be told from the tokens of its text: they are the names
that no parenthesis follows, in the same order and as often.  Both are what the common outline of
the tree and of its tokens has of parameters.

* `parameterTokens` -- the names of parameters among tokens;
* `parameterTokens_eq_outline`, `Expr.occurrences_eq_outline` -- the outlines have just them;
* `Derives.occurrences_eq` -- so they occur in a tree as they stand among its tokens;
* `Expr.parameterNames_of_parse` -- and each is listed where it stands first.
-/

namespace FormulaEngine

/-- The names among some tokens that are not followed by an opening parenthesis. -/
def parameterTokens : List Token → List String
  | [] => []
  | .name s :: rest =>
    if rest.head? = some (.symbol .leftParen) then parameterTokens rest
    else s :: parameterTokens rest
  | _ :: rest => parameterTokens rest

/-- The name of a parameter in an outline. -/
def Mark.parameter? : Mark → Option String
  | .token (.name s) => some s
  | _ => none

/-- The outline of tokens has the names that no parenthesis follows. -/
theorem parameterTokens_eq_outline (ts : List Token) :
    parameterTokens ts = (outline ts).filterMap Mark.parameter? := by
  induction ts with
  | nil => rfl
  | cons t rest ih =>
      rw [outline, List.filterMap_append, ← ih]
      cases t with
      | literal l => rfl
      | name s =>
          by_cases hparen : rest.head? = some (.symbol .leftParen)
          · have hopens : opensParen rest = true := by simpa [opensParen] using hparen
            simp [Token.marks, hopens, parameterTokens, hparen, Mark.parameter?]
          · have hopens : opensParen rest = false := by simpa [opensParen] using hparen
            simp [Token.marks, hopens, parameterTokens, hparen, Mark.parameter?]
      | symbol s => cases s <;> rfl

namespace Expr

private theorem occurrencesAll_eq_outline {arguments : List Expr}
    (ih : ∀ e ∈ arguments, e.occurrences = e.outline.filterMap Mark.parameter?) :
    occurrencesAll arguments = (outlineAll arguments).filterMap Mark.parameter? := by
  induction arguments with
  | nil => rfl
  | cons e rest ihrest =>
      obtain ⟨he, hrest⟩ := List.forall_mem_cons.1 ih
      rw [outlineAll, List.filterMap_append, ← he, ← ihrest hrest, occurrencesAll]

/-- The outline of a tree has the names of its parameters. -/
theorem occurrences_eq_outline (e : Expr) :
    e.occurrences = e.outline.filterMap Mark.parameter? := by
  induction e using byParts with
  | literal l => rfl
  | parameter name => rfl
  | call name arguments ih =>
      have hcallee : Mark.parameter? (.callee name) = none := rfl
      rw [outline, List.filterMap_cons_none hcallee, ← occurrencesAll_eq_outline ih, occurrences]
  | unary op operand ih =>
      have hsign : Mark.parameter? (.token (.symbol (.ofUnary op))) = none := rfl
      rw [outline, List.filterMap_cons_none hsign, ← ih, occurrences]
  | binary op left right ihl ihr =>
      have hsign : Mark.parameter? (.token (.symbol (.ofBinary op))) = none := rfl
      rw [outline, List.filterMap_append, List.filterMap_cons_none hsign, ← ihl, ← ihr, occurrences]
  | conditional condition yes no ihc ihy ihn =>
      have hquestion : Mark.parameter? (.token (.symbol .question)) = none := rfl
      have hcolon : Mark.parameter? (.token (.symbol .colon)) = none := rfl
      rw [outline, List.filterMap_append, List.filterMap_cons_none hquestion,
        List.filterMap_append, List.filterMap_cons_none hcolon, ← ihc, ← ihy, ← ihn, occurrences,
        List.append_assoc]

end Expr

/-- **Parameters occur in a tree as their names stand among its tokens.** -/
theorem Derives.occurrences_eq {n : Nat} {ts : List Token} {e : Expr}
    (h : Derives .expression n ts e) : e.occurrences = parameterTokens ts := by
  have hends : opensParen [] = false := rfl
  have houtline : outline ts = e.outline := by
    simpa [outline, Phrase.outline] using outline_of_derives h hends
  rw [e.occurrences_eq_outline, parameterTokens_eq_outline, houtline]

/-- **The parameters of a text are the names in it that no parenthesis follows.**  They occur in its
tree in the order of its tokens, none is lost and none is added; and the tree lists each of them
once, where it stands first. -/
theorem Expr.parameterNames_of_parse {text : String} {e : Expr} (h : parse text = .ok e) :
    ∃ ts, tokenize text = .ok ts ∧ e.occurrences = parameterTokens (tokens ts) ∧
      e.parameterNames = (parameterTokens (tokens ts)).eraseDups := by
  obtain ⟨us, hcarve, n, -, hd⟩ := parse_eq_ok_iff.1 h
  obtain ⟨ts, hts, rfl⟩ := carve_toList_eq_some_iff.1 hcarve
  refine ⟨ts, hts, hd.occurrences_eq, ?_⟩
  rw [parameterNames, hd.occurrences_eq]

/-- A name that stands twice, and one in front of a parenthesis. -/
def branches : Expr :=
  .conditional (.parameter "b") (.call "f" [.parameter "a", .parameter "x y"])
    (.binary .add (.parameter "b") (.unary .negate (.parameter "d")))

theorem Expr.parameterNames_of_parse_branches :
    parse "b ? f (a, [x y]) : (b + -d)" = .ok branches ∧
    (∃ ts, tokenize "b ? f (a, [x y]) : (b + -d)" = .ok ts ∧
      parameterTokens (tokens ts) = ["b", "a", "x y", "b", "d"]) ∧
    branches.parameterNames = ["b", "a", "x y", "d"] := by
  have hread : parse "b ? f (a, [x y]) : (b + -d)" = .ok branches :=
    parse_eq_ok_iff.2 ⟨_, by decide +kernel, _, by decide, derives_written _⟩
  obtain ⟨ts, hts, hoccurrences, hnames⟩ := parameterNames_of_parse hread
  have hlist : branches.occurrences = ["b", "a", "x y", "b", "d"] := by decide +kernel
  refine ⟨hread, ⟨ts, hts, hoccurrences.symm.trans hlist⟩, ?_⟩
  rw [hnames, ← hoccurrences, hlist]
  decide +kernel

end FormulaEngine
