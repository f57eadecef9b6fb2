import FormulaEngine.Grammar.StringItem
import FormulaEngine.Grammar.SyntaxError
import FormulaEngine.Number.Numeral
import FormulaEngine.Text.Letter

/-!
# The regions of a text

The text of a formula is carved into regions with blanks between them.  Each region holds a
token or a fault; a fault does not stop the scan, so that all faults of a text are reported
together.

* `append_scanRegion` -- a region is cut off the text without loss;
* `Tokenizer.next` -- the next token or fault behind a place of a text;
* `regionsFrom` -- the regions of a text, from left to right;
* `tokenize` -- the tokens of a text, or all its faults.
-/

namespace FormulaEngine

/-- The characters of a region, those behind it, and what the region holds; the position of a
fault counts from the start of the region. -/
structure Scan where
  lexeme : List Char
  rest : List Char
  outcome : Except SyntaxError Token

/-- A symbol at the head of a text, two characters long if possible. -/
def scanSymbol (c : Char) (cs : List Char) : Option Scan :=
  match cs with
  | [] => (Symbol.ofChar? c).map fun s => ⟨[c], cs, .ok (.symbol s)⟩
  | d :: rest =>
    match Symbol.ofPair? c d with
    | some s => some ⟨[c, d], rest, .ok (.symbol s)⟩
    | none => (Symbol.ofChar? c).map fun s => ⟨[c], cs, .ok (.symbol s)⟩

/-- A string literal, read from behind its opening quote. -/
def scanString (body : List Char) : Scan :=
  match stringItems body with
  | (_, none) => ⟨'\x27' :: body, [], .error ⟨.unclosedString, 0⟩⟩
  | (items, some rest) =>
    let outcome :=
      match itemsMeaning 1 items with
      | .ok cs => .ok (.literal (.string (String.ofList cs)))
      | .error (sequence, offset) => .error ⟨.badEscape sequence, offset⟩
    ⟨'\x27' :: (items.flatMap (·.lexeme) ++ ['\x27']), rest, outcome⟩

/-- A token that reaches from `opening` to the next `closing`, read from behind the former. -/
def scanDelimited (opening closing : Char) (meaning : List Char → Except SyntaxError Token)
    (body : List Char) : Scan :=
  let inside := body.takeWhile (· != closing)
  match body.dropWhile (· != closing) with
  | [] => ⟨opening :: body, [], .error ⟨.unclosed closing, 0⟩⟩
  | c :: rest => ⟨opening :: (inside ++ [c]), rest, meaning inside⟩

/-- The moment between two number signs. -/
def momentMeaning (inside : List Char) : Except SyntaxError Token :=
  match Moment.read? inside with
  | some m => .ok (.literal (.moment m))
  | none => .error ⟨.notADate inside, 0⟩

/-- The name between two brackets. -/
def nameMeaning (inside : List Char) : Except SyntaxError Token :=
  if inside.isEmpty then .error ⟨.emptyName, 0⟩ else .ok (.name (String.ofList inside))

/-- The literal that a numeral denotes: an integer, if it fits, or a float. -/
def numeralMeaning (n : Numeral) : Except SyntaxError Token :=
  if n.isFloat then .ok (.literal (.float n.value.toFloat))
  else
    match int64? (ofDigits n.whole) with
    | some i => .ok (.literal (.integer i))
    | none => .error ⟨.integerTooLarge n.whole, 0⟩

/-- A numeral at the head of a text. -/
def scanNumeral (cs : List Char) : Scan :=
  let (n, rest) := Numeral.scan cs
  ⟨n.chars, rest, numeralMeaning n⟩

/-- A keyword or a bare name that begins with `c`. -/
def scanWord (c : Char) (cs : List Char) : Scan :=
  let word := c :: cs.takeWhile isNameChar
  ⟨word, cs.dropWhile isNameChar,
    .ok ((Token.keyword? word).getD (.name (String.ofList word)))⟩

/-- Whether a numeral begins here: at a digit, or at a point before one. -/
def startsNumeral (c : Char) (cs : List Char) : Bool :=
  c.isDigit || (c == '.' && (cs.head?.any Char.isDigit))

/-- The region that begins with a character that is no blank. -/
def scanRegion (c : Char) (cs : List Char) : Scan :=
  match scanSymbol c cs with
  | some s => s
  | none =>
    if c = '\x27' then scanString cs
    else if c = '#' then scanDelimited '#' '#' momentMeaning cs
    else if c = '[' then scanDelimited '[' ']' nameMeaning cs
    else if startsNumeral c cs then scanNumeral (c :: cs)
    else if isNameStart c then scanWord c cs
    else ⟨[c], cs, .error ⟨.strayCharacter c, 0⟩⟩

private theorem append_scanSymbol {c : Char} {cs : List Char} {s : Scan}
    (h : scanSymbol c cs = some s) : s.lexeme ++ s.rest = c :: cs ∧ s.lexeme ≠ [] := by
  unfold scanSymbol at h
  split at h
  · obtain ⟨_, _, rfl⟩ := Option.map_eq_some_iff.1 h
    simp
  · split at h
    · grind
    · obtain ⟨_, _, rfl⟩ := Option.map_eq_some_iff.1 h
      simp

private theorem append_scanString (body : List Char) :
    (scanString body).lexeme ++ (scanString body).rest = '\x27' :: body := by
  unfold scanString
  split
  · simp
  · next items rest h =>
    have hs : (stringItems body).2 = some rest := by rw [h]
    have := append_stringItems hs
    rw [h] at this
    simpa using this

private theorem append_scanDelimited (opening closing : Char)
    (meaning : List Char → Except SyntaxError Token) (body : List Char) :
    (scanDelimited opening closing meaning body).lexeme ++
      (scanDelimited opening closing meaning body).rest = opening :: body := by
  have := List.takeWhile_append_dropWhile (p := (· != closing)) (l := body)
  unfold scanDelimited
  split
  · simp
  · next h => rw [h] at this; simpa using this

private theorem append_scanWord (c : Char) (cs : List Char) :
    (scanWord c cs).lexeme ++ (scanWord c cs).rest = c :: cs := by
  simp [scanWord, List.takeWhile_append_dropWhile]

private theorem append_scanNumeral (cs : List Char) :
    (scanNumeral cs).lexeme ++ (scanNumeral cs).rest = cs :=
  Numeral.chars_scan cs

/-- **Nothing is lost.**  The characters of a region and those behind it make up the text. -/
theorem append_scanRegion (c : Char) (cs : List Char) :
    (scanRegion c cs).lexeme ++ (scanRegion c cs).rest = c :: cs := by
  unfold scanRegion
  split
  · next h => exact (append_scanSymbol h).1
  · split
    · next h => subst h; exact append_scanString cs
    · split
      · next h => subst h; exact append_scanDelimited _ _ _ _
      · split
        · next h => subst h; exact append_scanDelimited _ _ _ _
        · split
          · exact append_scanNumeral _
          · split
            · exact append_scanWord c cs
            · rfl

private theorem lexeme_scanNumeral_ne_nil {c : Char} {cs : List Char}
    (h : startsNumeral c cs = true) : (scanNumeral (c :: cs)).lexeme ≠ [] := by
  by_cases hc : c.isDigit = true
  · simp [scanNumeral, Numeral.scan, Numeral.chars, hc]
  · obtain ⟨d, rest, rfl⟩ : ∃ d rest, cs = d :: rest := by
      cases cs <;> simp_all [startsNumeral]
    simp only [startsNumeral, hc, List.head?_cons, Option.any_some, Bool.false_or,
      Bool.and_eq_true, beq_iff_eq] at h
    obtain ⟨rfl, hd⟩ := h
    simp [scanNumeral, Numeral.scan, Numeral.chars, Numeral.scanFraction, Numeral.fractionChars,
      hd, hc]

/-- **Every region has a character.** -/
theorem lexeme_scanRegion_ne_nil (c : Char) (cs : List Char) :
    (scanRegion c cs).lexeme ≠ [] := by
  unfold scanRegion
  split
  · next h => exact (append_scanSymbol h).2
  · split
    · unfold scanString
      split <;> simp
    · split
      · unfold scanDelimited
        split <;> simp
      · split
        · unfold scanDelimited
          split <;> simp
        · split
          · next h => exact lexeme_scanNumeral_ne_nil h
          · split
            · simp [scanWord]
            · simp

/-- What is left behind a region is shorter. -/
theorem length_rest_scanRegion_lt (c : Char) (cs : List Char) :
    (scanRegion c cs).rest.length < (c :: cs).length := by
  have h1 := congrArg List.length (append_scanRegion c cs)
  have h2 := List.length_pos_iff.2 (lexeme_scanRegion_ne_nil c cs)
  rw [List.length_append] at h1
  omega

/-- A part of a text, from its first byte to the byte after its last one, with the token or the
fault that it holds. -/
structure Region where
  start : Nat
  stop : Nat
  outcome : Except SyntaxError Token

/-- A place in a text: the offset of its byte, and the characters from there on. -/
structure Tokenizer where
  position : Nat
  rest : List Char

namespace Tokenizer

/-- The start of a text. -/
def ofText (text : String) : Tokenizer := ⟨0, text.toList⟩

/-- The place behind the blanks that come next. -/
def skipBlanks (t : Tokenizer) : Tokenizer :=
  ⟨t.position + byteSize (t.rest.takeWhile isBlank), t.rest.dropWhile isBlank⟩

/-- The next region, if there is one, and the place behind it. -/
def nextRegion (t : Tokenizer) : Option Region × Tokenizer :=
  let t := t.skipBlanks
  match t.rest with
  | [] => (none, t)
  | c :: body =>
    let s := scanRegion c body
    let stop := t.position + byteSize s.lexeme
    (some ⟨t.position, stop, s.outcome.mapError (·.shift t.position)⟩, ⟨stop, s.rest⟩)

/-- There is no region exactly where only blanks are left. -/
theorem nextRegion_of_nil {t : Tokenizer} (h : t.rest.dropWhile isBlank = []) :
    t.nextRegion = (none, t.skipBlanks) := by
  simp [nextRegion, skipBlanks, h]

/-- The next region begins at the first character that is no blank. -/
theorem nextRegion_of_cons {t : Tokenizer} {c : Char} {body : List Char}
    (h : t.rest.dropWhile isBlank = c :: body) :
    t.nextRegion =
      let start := t.skipBlanks.position
      let s := scanRegion c body
      let stop := start + byteSize s.lexeme
      (some ⟨start, stop, s.outcome.mapError (·.shift start)⟩, ⟨stop, s.rest⟩) := by
  simp [nextRegion, skipBlanks, h]

/-- Behind a region there is less text. -/
theorem length_rest_nextRegion_lt {t next : Tokenizer} {region : Region}
    (h : t.nextRegion = (some region, next)) : next.rest.length < t.rest.length := by
  have hsplit := congrArg List.length
    (List.takeWhile_append_dropWhile (p := isBlank) (l := t.rest))
  rw [List.length_append] at hsplit
  cases hdrop : t.rest.dropWhile isBlank with
  | nil =>
      rw [nextRegion_of_nil hdrop] at h
      cases h
  | cons c body =>
      rw [nextRegion_of_cons hdrop] at h
      cases h
      have hlt := length_rest_scanRegion_lt c body
      rw [hdrop] at hsplit
      simp only
      omega

end Tokenizer

/-- The regions of a text that begins at the byte `offset`. -/
def regionsFrom (offset : Nat) (cs : List Char) : List Region :=
  match _h : (Tokenizer.mk offset cs).nextRegion with
  | (none, _) => []
  | (some region, t) => region :: regionsFrom t.position t.rest
termination_by cs.length
decreasing_by exact Tokenizer.length_rest_nextRegion_lt _h

/-- The regions from a place on, by the next one. -/
theorem regionsFrom_eq (t : Tokenizer) : regionsFrom t.position t.rest =
    match t.nextRegion with
    | (none, _) => []
    | (some region, next) => region :: regionsFrom next.position next.rest := by
  rw [regionsFrom]
  split
  · next h =>
    rw [h]
  · next h =>
    rw [h]

/-- The regions of a text. -/
def regions (text : String) : List Region := regionsFrom 0 text.toList

/-- The token of a region, if it holds one. -/
def Region.located? (r : Region) : Option Located :=
  match r.outcome with
  | .ok token => some ⟨token, r.start, r.stop⟩
  | .error _ => none

/-- The fault of a region, if it holds one. -/
def Region.error? (r : Region) : Option SyntaxError :=
  match r.outcome with
  | .ok _ => none
  | .error e => some e

/-- What a call for the next token answers where this region comes next. -/
def Region.answer (r : Region) : Except SyntaxError (Option Located) :=
  r.outcome.map fun token => some ⟨token, r.start, r.stop⟩

/-- The next token with its place, or the next fault; nothing at the end of the text. -/
def Tokenizer.next (t : Tokenizer) : Except SyntaxError (Option Located) × Tokenizer :=
  match t.nextRegion with
  | (none, t) => (.ok none, t)
  | (some region, t) => (region.answer, t)

/-- The tokens of a text, or all its faults. -/
def tokenize (text : String) : Except (List SyntaxError) (List Located) :=
  let found := regions text
  match found.filterMap Region.error? with
  | [] => .ok (found.filterMap Region.located?)
  | errors => .error errors

end FormulaEngine
