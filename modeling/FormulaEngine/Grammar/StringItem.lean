import FormulaEngine.Text.Hex

/-!
# Items of a string literal

Between the quotes of a string literal stand items: plain characters, and escapes that begin
with a backslash.  `\u` takes four hexadecimal digits that name a character; without them it is
a bad escape and stands alone.  Any other escape is two characters long.

* `append_readItem` -- an item is cut off the text without loss;
* `append_stringItems` -- so are all items up to the closing quote.
-/

namespace FormulaEngine

/-- An item as it is written, with its character or, for a bad escape, the sequence to report. -/
structure StringItem where
  lexeme : List Char
  meaning : Except (List Char) Char

/-- The character of an escape of one letter. -/
def escapedChar? : Char → Option Char
  | '\x27' => some '\x27'
  | '"' => some '"'
  | '\\' => some '\\'
  | 'n' => some '\n'
  | 'r' => some '\r'
  | 't' => some '\t'
  | _ => none

/-- The escape after `\u` and the text behind it. -/
def readCode (cs : List Char) : StringItem × List Char :=
  match fourHex? cs with
  | none => (⟨['\\', 'u'], .error ['\\', 'u']⟩, cs)
  | some n =>
    match charOfCode? n with
    | none => (⟨['\\', 'u'], .error ('\\' :: 'u' :: cs.take 4)⟩, cs)
    | some c => (⟨'\\' :: 'u' :: cs.take 4, .ok c⟩, cs.drop 4)

/-- The first item of a text and the text behind it, unless the text ends inside of it. -/
def readItem : List Char → Option (StringItem × List Char)
  | [] => none
  | c :: rest =>
    if c = '\\' then
      match rest with
      | [] => none
      | e :: rest =>
        if e = 'u' then some (readCode rest)
        else
          match escapedChar? e with
          | some d => some (⟨[c, e], .ok d⟩, rest)
          | none => some (⟨[c, e], .error [c, e]⟩, rest)
    else some (⟨[c], .ok c⟩, rest)

/-- An item is cut off the text without loss. -/
theorem append_readItem {cs rest : List Char} {item : StringItem}
    (h : readItem cs = some (item, rest)) : item.lexeme ++ rest = cs := by
  unfold readItem at h
  split at h
  · simp at h
  · split at h
    · split at h
      · simp at h
      · split at h
        · simp only [Option.some.injEq] at h
          unfold readCode at h
          split at h
          · simp_all
            obtain ⟨rfl, rfl⟩ := h
            rfl
          · split at h
            · simp_all
              obtain ⟨rfl, rfl⟩ := h
              rfl
            · simp_all
              obtain ⟨rfl, rfl⟩ := h
              simp
        · split at h <;> (simp_all; obtain ⟨rfl, rfl⟩ := h; rfl)
    · simp_all
      obtain ⟨rfl, rfl⟩ := h
      rfl

/-- An item has at least one character. -/
theorem lexeme_readItem_ne_nil {cs rest : List Char} {item : StringItem}
    (h : readItem cs = some (item, rest)) : item.lexeme ≠ [] := by
  unfold readItem at h
  split at h
  · simp at h
  · split at h
    · split at h
      · simp at h
      · split at h
        · simp only [Option.some.injEq] at h
          unfold readCode at h
          split at h
          · grind
          · split at h <;> grind
        · split at h <;> grind
    · grind

/-- What is left after an item is shorter. -/
theorem length_lt_of_readItem {cs rest : List Char} {item : StringItem}
    (h : readItem cs = some (item, rest)) : rest.length < cs.length := by
  have h1 := append_readItem h
  have h2 := List.length_pos_iff.2 (lexeme_readItem_ne_nil h)
  rw [← h1, List.length_append]
  omega

/-- The items up to the closing quote and the text behind it; no such text if there is no
closing quote. -/
def stringItems (cs : List Char) : List StringItem × Option (List Char) :=
  match cs with
  | '\x27' :: rest => ([], some rest)
  | cs =>
    match _h : readItem cs with
    | none => ([], none)
    | some (item, rest) =>
      let (items, after) := stringItems rest
      (item :: items, after)
termination_by cs.length
decreasing_by exact length_lt_of_readItem _h

/-- The items and the closing quote are cut off the text without loss. -/
theorem append_stringItems {cs rest : List Char} (h : (stringItems cs).2 = some rest) :
    (stringItems cs).1.flatMap (·.lexeme) ++ '\x27' :: rest = cs := by
  fun_induction stringItems cs with
  | case1 rest' => simp_all
  | case2 => simp at h
  | case3 cs _ item rest' hitem items after heq ih =>
    simp only [heq] at ih h
    simp only [List.flatMap_cons, List.append_assoc, ih h, append_readItem hitem]

/-- The number of bytes of some characters in UTF-8. -/
def byteSize : List Char → Nat
  | [] => 0
  | c :: cs => c.utf8Size + byteSize cs

theorem byteSize_append (cs ds : List Char) : byteSize (cs ++ ds) = byteSize cs + byteSize ds := by
  induction cs with
  | nil => simp [byteSize]
  | cons c cs ih => simp [byteSize, ih, Nat.add_assoc]

/-- The characters of the items, or the first bad escape with its offset, where the first item
stands at `offset`. -/
def itemsMeaning (offset : Nat) : List StringItem → Except (List Char × Nat) (List Char)
  | [] => .ok []
  | item :: items =>
    match item.meaning with
    | .error sequence => .error (sequence, offset)
    | .ok c => (itemsMeaning (offset + byteSize item.lexeme) items).map (c :: ·)

end FormulaEngine
