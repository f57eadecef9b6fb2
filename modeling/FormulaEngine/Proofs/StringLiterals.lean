import FormulaEngine.Proofs.Coverage
import FormulaEngine.Proofs.Spelling

/-!
# String literals

What a call for the next token answers at an opening quote, and where the one after it goes on, is
told by the way in which the text behind the quote falls into items.

* `StringAnswer` -- the answer by the items and the end of the literal;
* `Tokenizer.next_stringLiteral` -- it is what the call answers.
-/

namespace FormulaEngine

/-- The offset behind a literal that begins at `start`, with its two quotes. -/
def behindLiteral (start : Nat) (items : List StringItem) : Nat :=
  start + 1 + byteSize (items.flatMap (·.lexeme)) + 1

/-- What a call answers at an opening quote, and where the next one goes on, by the items behind the
quote and by the text behind the literal, if it is closed. -/
inductive StringAnswer (text : String) (start : Nat) :
    List StringItem → Option (List Char) → Except SyntaxError (Option Located) × Tokenizer → Prop
  | literal {items : List StringItem} {rest cs : List Char}
      (hitems : items.map (·.meaning) = cs.map .ok) :
      StringAnswer text start items (some rest)
        (.ok (some ⟨.literal (.string (String.ofList cs)), start, behindLiteral start items⟩),
          ⟨behindLiteral start items, rest⟩)
  | badEscape {front tail : List StringItem} {bad : StringItem} {rest sequence : List Char}
      (hfront : ∀ item ∈ front, ∃ c, item.meaning = .ok c) (hbad : bad.meaning = .error sequence) :
      StringAnswer text start (front ++ bad :: tail) (some rest)
        (.error ⟨.badEscape sequence, start + 1 + byteSize (front.flatMap (·.lexeme))⟩,
          ⟨behindLiteral start (front ++ bad :: tail), rest⟩)
  | unclosed {items : List StringItem} :
      StringAnswer text start items none
        (.error ⟨.unclosedString, start⟩, ⟨text.utf8ByteSize, []⟩)

/-- **String literals are scanned by their grammar.**  What stands behind an opening quote falls
into items in exactly one way.  If they end in a quote, the next token is the string of their
characters, or the first bad escape is reported at its place, and the call after it goes on behind
the quote.  If the text ends first, the opening quote is reported, whatever the items are. -/
theorem Tokenizer.next_stringLiteral {text : String} {before blanks body : List Char}
    (htext : text.toList = before ++ (blanks ++ '\x27' :: body))
    (hblanks : ∀ c ∈ blanks, isBlank c = true) :
    ∃ items after, Splits body items after ∧
      (∀ items' after', Splits body items' after' → items' = items ∧ after' = after) ∧
      StringAnswer text (byteSize before + byteSize blanks) items after
        (Tokenizer.next ⟨byteSize before, blanks ++ '\x27' :: body⟩) := by
  obtain ⟨items, after, hsplits⟩ := exists_splits body
  refine ⟨items, after, hsplits, fun _ _ h => h.unique hsplits, ?_⟩
  have hquote : isBlank '\x27' = false := by decide
  have hdrop : (blanks ++ '\x27' :: body).dropWhile isBlank = '\x27' :: body := by
    rw [List.dropWhile_append_of_pos hblanks]
    simp [hquote]
  have htake : (blanks ++ '\x27' :: body).takeWhile isBlank = blanks := by
    rw [List.takeWhile_append_of_pos hblanks]
    simp [hquote]
  have hscan : scanRegion '\x27' body = scanString body := by
    simp [scanRegion, show scanSymbol '\x27' body = none from scanSymbol_eq_none rfl body]
  have hitems := splits_iff.1 hsplits
  unfold Tokenizer.next
  rw [Tokenizer.nextRegion_of_cons hdrop]
  simp only [Tokenizer.skipBlanks, htake, hscan, Region.answer]
  unfold scanString
  rw [hitems]
  cases after with
  | none =>
      have hend : text.utf8ByteSize =
          byteSize before + byteSize blanks + byteSize ('\x27' :: body) := by
        rw [utf8ByteSize_eq, htext, byteSize_append, byteSize_append, Nat.add_assoc]
      simp only [← hend]
      exact .unclosed
  | some rest =>
      have hbehind : byteSize before + byteSize blanks +
          byteSize ('\x27' :: (items.flatMap (·.lexeme) ++ ['\x27'])) =
            behindLiteral (byteSize before + byteSize blanks) items := by
        rw [behindLiteral, byteSize, byteSize_append]
        simp only [byteSize, show '\x27'.utf8Size = 1 from rfl]
        omega
      simp only [hbehind]
      rcases good_or_bad items with ⟨cs, hgood⟩ | ⟨front, bad, tail, sequence, rfl, hfront, hbad⟩
      · rw [itemsMeaning_eq_ok_iff.2 hgood]
        exact .literal hgood
      · rw [itemsMeaning_eq_error_iff.2 ⟨front, bad, tail, rfl, hfront, hbad, rfl⟩]
        simp only [Except.mapError, Except.map, SyntaxError.shift, ← Nat.add_assoc]
        exact .badEscape hfront hbad

/-- A half of a surrogate pair is no character; it is found in front of another bad escape, and
neither keeps the next quote from closing the literal. -/
theorem Tokenizer.next_stringLiteral_surrogate :
    let body := "\\u00e9\\ud83d\\q\\'a' 2".toList
    "1 '\\u00e9\\ud83d\\q\\'a' 2".toList = ['1'] ++ ([' '] ++ '\x27' :: body) ∧
    (∃ items after, Splits body items after ∧
      (∀ items' after', Splits body items' after' → items' = items ∧ after' = after) ∧
      StringAnswer "1 '\\u00e9\\ud83d\\q\\'a' 2" 2 items after
        (Tokenizer.next ⟨1, [' '] ++ '\x27' :: body⟩)) ∧
    (Tokenizer.next ⟨1, [' '] ++ '\x27' :: body⟩).1 =
      .error ⟨.badEscape "\\ud83d".toList, 9⟩ ∧
    (Tokenizer.next ⟨1, [' '] ++ '\x27' :: body⟩).2.rest = [' ', '2'] := by
  intro body
  have htext : "1 '\\u00e9\\ud83d\\q\\'a' 2".toList = ['1'] ++ ([' '] ++ '\x27' :: body) := by
    decide
  have hblank : ∀ c ∈ [' '], isBlank c = true := by
    intro c hc
    rw [List.mem_singleton.1 hc]
    rfl
  exact ⟨htext, Tokenizer.next_stringLiteral htext hblank, by decide +kernel, by decide +kernel⟩

end FormulaEngine
