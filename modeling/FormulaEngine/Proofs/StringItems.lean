import FormulaEngine.Grammar.StringItem
import Mathlib.Tactic.Common

/-!
# The grammar of string literals

What stands behind an opening quote falls into items in exactly one way, by rules that do not speak
of scanning.

* `HexDigit`, `HexCode` -- the number that four hexadecimal digits denote;
* `StringItem.Before` -- which item stands in front of a text;
* `Splits` -- the items of a text and where the literal ends;
* `splits_iff` -- there is exactly one way to split a text, and it is the one that is scanned;
* `Splits.behind` -- good items stay the same, whatever stands behind the literal;
* `itemsMeaning_eq_ok_iff`, `itemsMeaning_eq_error_iff` -- what the items mean.
-/

namespace FormulaEngine

/-! ## Character codes -/

/-- A hexadecimal digit, in lower case or in upper case, and its value. -/
def HexDigit (c : Char) (value : Nat) : Prop :=
  "0123456789abcdef".toList[value]? = some c ∨ "0123456789ABCDEF".toList[value]? = some c

instance (c : Char) (value : Nat) : Decidable (HexDigit c value) :=
  inferInstanceAs (Decidable (_ ∨ _))

/-- Four hexadecimal digits and the number that they denote. -/
inductive HexCode : List Char → Nat → Prop
  | digits {a b c d : Char} {i j k l : Nat} (ha : HexDigit a i) (hb : HexDigit b j)
      (hc : HexDigit c k) (hd : HexDigit d l) :
      HexCode [a, b, c, d] (16 ^ 3 * i + 16 ^ 2 * j + 16 * k + l)

theorem HexCode.length_eq {digits : List Char} {n : Nat} (h : HexCode digits n) :
    digits.length = 4 := by
  cases h
  rfl

/-- A decimal digit has one of the codes from 48 to 57. -/
theorem code_of_isDigit {c : Char} (h : c.isDigit = true) : 48 ≤ c.toNat ∧ c.toNat ≤ 57 := by
  have hrange : (decide (c.val ≥ 48) && decide (c.val ≤ 57)) = true := h
  rw [Bool.and_eq_true, decide_eq_true_eq, decide_eq_true_eq] at hrange
  exact hrange

private theorem HexDigit.bounds {c : Char} {value : Nat} (h : HexDigit c value) :
    c.toNat < 128 ∧ value < 16 := by
  have hlower : ∀ d ∈ "0123456789abcdef".toList, d.toNat < 128 := by simp
  have hupper : ∀ d ∈ "0123456789ABCDEF".toList, d.toNat < 128 := by simp
  rcases h with h | h
  · exact ⟨hlower c (List.mem_of_getElem? h), (List.getElem?_eq_some_iff.1 h).1⟩
  · exact ⟨hupper c (List.mem_of_getElem? h), (List.getElem?_eq_some_iff.1 h).1⟩

private theorem bounds_of_hexDigit? {c : Char} {value : Nat} (h : hexDigit? c = some value) :
    c.toNat < 128 ∧ value < 16 := by
  have h0 : '0'.toNat = 48 := rfl
  have ha : 'a'.toNat = 97 := rfl
  have hA : 'A'.toNat = 65 := rfl
  unfold hexDigit? at h
  split at h
  · next hdigit =>
    have hcode := code_of_isDigit hdigit
    cases h
    simp only [digitValue]
    omega
  · split at h
    · next hlower =>
      have hle : c.toNat ≤ 102 := hlower.2
      cases h
      omega
    · split at h
      · next hupper =>
        have hle : c.toNat ≤ 70 := hupper.2
        cases h
        omega
      · cases h

/-- The table and the ranges agree on ASCII. -/
private theorem hexDigit?_ascii : ∀ code < 128, ∀ value < 16,
    hexDigit? (Char.ofNat code) = some value ↔ HexDigit (Char.ofNat code) value := by
  decide +kernel

theorem hexDigit?_eq_some_iff {c : Char} {value : Nat} :
    hexDigit? c = some value ↔ HexDigit c value := by
  have hascii (hbounds : c.toNat < 128 ∧ value < 16) :
      hexDigit? c = some value ↔ HexDigit c value := by
    have h := hexDigit?_ascii c.toNat hbounds.1 value hbounds.2
    rwa [Char.ofNat_toNat] at h
  constructor
  · intro h
    exact (hascii (bounds_of_hexDigit? h)).1 h
  · intro h
    exact (hascii h.bounds).2 h

/-- Four digits at the head of a text. -/
theorem fourHex?_eq_some_iff {cs : List Char} {n : Nat} :
    fourHex? cs = some n ↔ ∃ digits rest, cs = digits ++ rest ∧ HexCode digits n := by
  constructor
  · intro h
    unfold fourHex? at h
    split at h
    · next a b c d rest =>
      simp only [Option.bind_eq_bind, Option.bind_eq_some_iff, Option.pure_def,
        Option.some.injEq, hexDigit?_eq_some_iff] at h
      obtain ⟨i, ha, j, hb, k, hc, l, hd, rfl⟩ := h
      refine ⟨[a, b, c, d], rest, rfl, ?_⟩
      have hcode := HexCode.digits ha hb hc hd
      have hsum : 16 ^ 3 * i + 16 ^ 2 * j + 16 * k + l = 16 * (16 * (16 * i + j) + k) + l := by
        omega
      rwa [hsum] at hcode
    · cases h
  · rintro ⟨digits, rest, rfl, hcode⟩
    cases hcode with
    | digits ha hb hc hd =>
        rw [← hexDigit?_eq_some_iff] at ha hb hc hd
        simp only [List.cons_append, List.nil_append, fourHex?, ha, hb, hc, hd,
          Option.bind_eq_bind, Option.bind_some, Option.pure_def, Option.some.injEq]
        omega

theorem charOfCode?_eq_some_iff {n : Nat} {c : Char} :
    charOfCode? n = some c ↔ c.toNat = n := by
  by_cases hvalid : n.isValidChar
  · have hcode : (Char.ofNatAux n hvalid).toNat = n := rfl
    rw [charOfCode?, dif_pos hvalid, Option.some.injEq]
    constructor
    · rintro rfl
      exact hcode
    · intro h
      exact Char.toNat_inj.1 (hcode.trans h.symm)
  · rw [charOfCode?, dif_neg hvalid]
    constructor
    · intro h
      cases h
    · rintro rfl
      exact absurd c.valid hvalid

/-! ## Items -/

/-- The letters that a backslash makes an escape of, with the characters that they stand for. -/
def letterEscapes : List (Char × Char) :=
  [('\x27', '\x27'), ('"', '"'), ('\\', '\\'), ('n', '\n'), ('r', '\r'), ('t', '\t')]

theorem escapedChar?_eq_some_iff {e c : Char} :
    escapedChar? e = some c ↔ (e, c) ∈ letterEscapes := by
  unfold escapedChar?
  split <;> simp_all [letterEscapes, eq_comm]

/-- The items that may stand in front of a text: a plain character, an escape of one letter or of a
code, or a bad escape, which holds the sequence that is reported. -/
inductive StringItem.Before : StringItem → List Char → Prop
  | plain {c : Char} {rest : List Char} (hquote : c ≠ '\x27') (hslash : c ≠ '\\') :
      Before ⟨[c], .ok c⟩ rest
  | letter {e c : Char} {rest : List Char} (h : (e, c) ∈ letterEscapes) :
      Before ⟨['\\', e], .ok c⟩ rest
  | code {digits rest : List Char} {c : Char} (h : HexCode digits c.toNat) :
      Before ⟨'\\' :: 'u' :: digits, .ok c⟩ rest
  | badLetter {e : Char} {rest : List Char} (hu : e ≠ 'u') (h : ∀ c, (e, c) ∉ letterEscapes) :
      Before ⟨['\\', e], .error ['\\', e]⟩ rest
  | badCode {digits rest : List Char} {n : Nat} (h : HexCode digits n)
      (hn : ∀ c : Char, c.toNat ≠ n) :
      Before ⟨['\\', 'u'], .error ('\\' :: 'u' :: digits)⟩ (digits ++ rest)
  | noCode {rest : List Char}
      (h : ∀ digits behind n, rest = digits ++ behind → ¬ HexCode digits n) :
      Before ⟨['\\', 'u'], .error ['\\', 'u']⟩ rest

theorem readItem_of_before {item : StringItem} {rest : List Char} (h : item.Before rest) :
    readItem (item.lexeme ++ rest) = some (item, rest) ∧
      (item.lexeme ++ rest).head? ≠ some '\x27' := by
  cases h with
  | plain hquote hslash =>
      constructor
      · simp [readItem, hslash]
      · simpa using hquote
  | @letter e c _ h =>
      have hu : e ≠ 'u' := by
        rintro rfl
        simp [letterEscapes] at h
      have hescape := escapedChar?_eq_some_iff.2 h
      exact ⟨by simp [readItem, hu, hescape], by simp⟩
  | @code digits _ c h =>
      have hfour := fourHex?_eq_some_iff.2 ⟨digits, rest, rfl, h⟩
      have hchar : charOfCode? c.toNat = some c := charOfCode?_eq_some_iff.2 rfl
      have hlength := h.length_eq
      refine ⟨?_, by simp⟩
      simp [readItem, readCode, hfour, hchar, ← hlength]
  | @badLetter e _ hu h =>
      have hescape : escapedChar? e = none :=
        Option.eq_none_iff_forall_ne_some.2 fun c hc => h c (escapedChar?_eq_some_iff.1 hc)
      exact ⟨by simp [readItem, hu, hescape], by simp⟩
  | @badCode digits behind n h hn =>
      have hfour := fourHex?_eq_some_iff.2 ⟨digits, behind, rfl, h⟩
      have hchar : charOfCode? n = none :=
        Option.eq_none_iff_forall_ne_some.2 fun c hc => hn c (charOfCode?_eq_some_iff.1 hc)
      have hlength := h.length_eq
      refine ⟨?_, by simp⟩
      simp [readItem, readCode, hfour, hchar, ← hlength]
  | noCode h =>
      have hfour : fourHex? rest = none :=
        Option.eq_none_iff_forall_ne_some.2 fun n hn => by
          obtain ⟨digits, behind, hrest, hcode⟩ := fourHex?_eq_some_iff.1 hn
          exact h digits behind n hrest hcode
      exact ⟨by simp [readItem, readCode, hfour], by simp⟩

/-- A good item does not depend on what stands behind it. -/
theorem StringItem.Before.behind {item : StringItem} {rest : List Char} {c : Char}
    (h : item.Before rest) (hgood : item.meaning = .ok c) (more : List Char) :
    item.Before more := by
  cases h with
  | plain hquote hslash => exact .plain hquote hslash
  | letter h => exact .letter h
  | code h => exact .code h
  | badLetter => cases hgood
  | badCode => cases hgood
  | noCode => cases hgood

private theorem before_of_readCode {cs rest : List Char} {item : StringItem}
    (h : readCode cs = (item, rest)) : item.Before rest := by
  unfold readCode at h
  cases hfour : fourHex? cs with
  | none =>
      rw [hfour] at h
      cases h
      refine .noCode fun digits behind n hrest hcode => ?_
      rw [fourHex?_eq_some_iff.2 ⟨digits, behind, hrest, hcode⟩] at hfour
      cases hfour
  | some n =>
      obtain ⟨digits, behind, rfl, hcode⟩ := fourHex?_eq_some_iff.1 hfour
      simp only [hfour, List.take_left' hcode.length_eq, List.drop_left' hcode.length_eq] at h
      cases hchar : charOfCode? n with
      | none =>
          rw [hchar] at h
          cases h
          refine .badCode hcode fun c hc => ?_
          rw [charOfCode?_eq_some_iff.2 hc] at hchar
          cases hchar
      | some c =>
          rw [hchar] at h
          cases h
          rw [← charOfCode?_eq_some_iff.1 hchar] at hcode
          exact .code hcode

theorem before_of_readItem {cs rest : List Char} {item : StringItem}
    (hq : cs.head? ≠ some '\x27') (h : readItem cs = some (item, rest)) : item.Before rest := by
  match cs with
  | [] => cases h
  | c :: cs =>
      unfold readItem at h
      dsimp only at h
      split at h
      · next hc =>
        match cs with
        | [] => cases h
        | e :: cs =>
            dsimp only at h
            split at h
            · next he =>
              subst hc he
              have hcode : readCode cs = (item, rest) := Option.some.inj h
              exact before_of_readCode hcode
            · next he =>
              subst hc
              cases hx : escapedChar? e with
              | some x =>
                  rw [hx] at h
                  cases h
                  exact .letter (escapedChar?_eq_some_iff.1 hx)
              | none =>
                  rw [hx] at h
                  cases h
                  refine .badLetter he fun x hmem => ?_
                  rw [escapedChar?_eq_some_iff.2 hmem] at hx
                  cases hx
      · next hc =>
        cases h
        exact .plain (by simpa using hq) hc

/-! ## All items -/

/-- At a quote the items end. -/
theorem stringItems_quote (rest : List Char) : stringItems ('\x27' :: rest) = ([], some rest) := by
  rw [stringItems]

/-- Elsewhere the first item is followed by the others. -/
theorem stringItems_of_readItem {cs rest : List Char} {item : StringItem}
    (hq : cs.head? ≠ some '\x27') (h : readItem cs = some (item, rest)) :
    stringItems cs = (item :: (stringItems rest).1, (stringItems rest).2) := by
  rw [stringItems]
  · split
    · next h' => rw [h] at h'; cases h'
    · next h' => rw [h] at h'; cases h'; rfl
  · intro rest h
    subst h
    exact hq rfl

theorem stringItems_of_none {cs : List Char} (hq : cs.head? ≠ some '\x27')
    (h : readItem cs = none) : stringItems cs = ([], none) := by
  rw [stringItems]
  · split
    · rfl
    · next h' => rw [h] at h'; cases h'
  · intro rest h
    subst h
    exact hq rfl

/-- There is no item only where the text ends, or ends in a backslash. -/
theorem readItem_eq_none_iff {cs : List Char} : readItem cs = none ↔ cs = [] ∨ cs = ['\\'] := by
  match cs with
  | [] => simp [readItem]
  | [c] => by_cases hc : c = '\\' <;> simp [readItem, hc]
  | c :: e :: cs =>
      have hsome : (readItem (c :: e :: cs)).isSome = true := by
        simp only [readItem]
        repeat' split
        all_goals rfl
      simp [Option.ne_none_iff_isSome.2 hsome]

/-- What the items of a text can be: none at a quote or inside of an escape that the text ends in,
and else the first one in front of the others. -/
theorem stringItems_cases (cs : List Char) :
    (∃ rest, cs = '\x27' :: rest ∧ stringItems cs = ([], some rest)) ∨
    (cs.head? ≠ some '\x27' ∧ readItem cs = none ∧ stringItems cs = ([], none)) ∨
    (∃ item rest, cs.head? ≠ some '\x27' ∧ readItem cs = some (item, rest) ∧
      stringItems cs = (item :: (stringItems rest).1, (stringItems rest).2)) := by
  by_cases hq : cs.head? = some '\x27'
  · obtain ⟨rest, rfl⟩ := List.head?_eq_some_iff.1 hq
    exact .inl ⟨rest, rfl, stringItems_quote rest⟩
  · cases hr : readItem cs with
    | none => exact .inr (.inl ⟨hq, rfl, stringItems_of_none hq hr⟩)
    | some p => exact .inr (.inr ⟨p.1, p.2, hq, rfl, stringItems_of_readItem hq hr⟩)

/-- What stands behind an opening quote as items up to the closing quote, with what stands behind
that; or up to the end of the text, which may come behind a backslash. -/
inductive Splits : List Char → List StringItem → Option (List Char) → Prop
  | closed {rest : List Char} : Splits ('\x27' :: rest) [] (some rest)
  | ended : Splits [] [] none
  | cut : Splits ['\\'] [] none
  | item {item : StringItem} {rest : List Char} {items : List StringItem}
      {after : Option (List Char)} (hitem : item.Before rest) (hrest : Splits rest items after) :
      Splits (item.lexeme ++ rest) (item :: items) after

/-- **There is exactly one way to split a text**, and it is the one that is scanned. -/
theorem splits_iff {cs : List Char} {items : List StringItem} {after : Option (List Char)} :
    Splits cs items after ↔ stringItems cs = (items, after) := by
  constructor
  · intro h
    induction h with
    | closed => exact stringItems_quote _
    | ended => exact stringItems_of_none (by simp) (readItem_eq_none_iff.2 (.inl rfl))
    | cut => exact stringItems_of_none (by simp) (readItem_eq_none_iff.2 (.inr rfl))
    | item hitem _ ih =>
        obtain ⟨hread, hquote⟩ := readItem_of_before hitem
        rw [stringItems_of_readItem hquote hread, ih]
  · intro h
    obtain ⟨n, hn⟩ : ∃ n, n = cs.length := ⟨_, rfl⟩
    induction n using Nat.strongRecOn generalizing cs items after with
    | ind n ih =>
        rcases stringItems_cases cs with ⟨rest, rfl, hs⟩ | ⟨hq, hr, hs⟩ | ⟨item, rest, hq, hr, hs⟩
        · rw [hs] at h
          cases h
          exact .closed
        · rw [hs] at h
          cases h
          rcases readItem_eq_none_iff.1 hr with rfl | rfl
          · exact .ended
          · exact .cut
        · rw [hs] at h
          cases h
          have hlt := length_lt_of_readItem hr
          rw [← append_readItem hr]
          exact .item (before_of_readItem hq hr) (ih rest.length (by omega) rfl rfl)

/-- A text can be split. -/
theorem exists_splits (cs : List Char) : ∃ items after, Splits cs items after :=
  ⟨_, _, splits_iff.2 rfl⟩

/-- A text can be split in one way only. -/
theorem Splits.unique {cs : List Char} {items items' : List StringItem}
    {after after' : Option (List Char)} (h : Splits cs items after)
    (h' : Splits cs items' after') : items = items' ∧ after = after' :=
  Prod.mk.inj ((splits_iff.1 h).symm.trans (splits_iff.1 h'))

/-- The items and the closing quote make up the text in front of the rest. -/
theorem Splits.append_eq {cs rest : List Char} {items : List StringItem}
    (h : Splits cs items (some rest)) : items.flatMap (·.lexeme) ++ '\x27' :: rest = cs := by
  have hitems := splits_iff.1 h
  have happend := append_stringItems (congrArg Prod.snd hitems)
  rwa [hitems] at happend

/-- **Good items stay the same**, whatever stands behind the closing quote. -/
theorem Splits.behind {cs rest ds : List Char} {items : List StringItem}
    (h : Splits cs items (some rest)) (hgood : items.map (·.meaning) = ds.map .ok)
    (more : List Char) : Splits (items.flatMap (·.lexeme) ++ '\x27' :: more) items (some more) := by
  generalize hafter : some rest = after at h
  induction h generalizing ds with
  | closed => exact .closed
  | ended => cases hafter
  | cut => cases hafter
  | item hitem _ ih =>
      cases ds with
      | nil => cases hgood
      | cons d ds =>
          simp only [List.map_cons, List.cons.injEq] at hgood
          rw [List.flatMap_cons, List.append_assoc]
          exact .item (hitem.behind hgood.1 _) (ih hgood.2 hafter)

/-! ## The meaning of the items -/

section Meaning

variable {items : List StringItem} {offset : Nat}

private theorem itemsMeaning_of_good {cs : List Char} (h : items.map (·.meaning) = cs.map .ok) :
    itemsMeaning offset items = .ok cs := by
  induction items generalizing cs offset with
  | nil =>
      cases cs with
      | nil => rfl
      | cons c cs => cases h
  | cons item items ih =>
      cases cs with
      | nil => cases h
      | cons c cs =>
          simp only [List.map_cons, List.cons.injEq] at h
          rw [itemsMeaning, h.1]
          simp only
          rw [ih h.2]
          rfl

private theorem itemsMeaning_of_bad {front tail : List StringItem} {bad : StringItem}
    {sequence : List Char} (hfront : ∀ item ∈ front, ∃ c, item.meaning = .ok c)
    (hbad : bad.meaning = .error sequence) :
    itemsMeaning offset (front ++ bad :: tail) =
      .error (sequence, offset + byteSize (front.flatMap (·.lexeme))) := by
  induction front generalizing offset with
  | nil =>
      rw [List.nil_append, itemsMeaning, hbad]
      rfl
  | cons item front ih =>
      obtain ⟨c, hc⟩ := hfront item List.mem_cons_self
      rw [List.cons_append, itemsMeaning, hc]
      simp only
      rw [ih fun item hitem => hfront item (List.mem_cons_of_mem _ hitem), List.flatMap_cons,
        byteSize_append, Nat.add_assoc]
      rfl

/-- The items are all good, or there is a first bad one. -/
theorem good_or_bad (items : List StringItem) :
    (∃ cs : List Char, items.map (·.meaning) = cs.map .ok) ∨
    ∃ front bad tail sequence, items = front ++ bad :: tail ∧
      (∀ item ∈ front, ∃ c, item.meaning = .ok c) ∧ bad.meaning = .error sequence := by
  induction items with
  | nil => exact .inl ⟨[], rfl⟩
  | cons item items ih =>
      cases hitem : item.meaning with
      | error sequence => exact .inr ⟨[], item, items, sequence, rfl, by simp, hitem⟩
      | ok c =>
          rcases ih with ⟨cs, hcs⟩ | ⟨front, bad, tail, sequence, rfl, hfront, hbad⟩
          · exact .inl ⟨c :: cs, by simp [hitem, hcs]⟩
          · refine .inr ⟨item :: front, bad, tail, sequence, rfl, ?_, hbad⟩
            exact List.forall_mem_cons.2 ⟨⟨c, hitem⟩, hfront⟩

/-- Items that are all good mean their characters. -/
theorem itemsMeaning_eq_ok_iff {cs : List Char} :
    itemsMeaning offset items = .ok cs ↔ items.map (·.meaning) = cs.map .ok := by
  constructor
  · intro h
    rcases good_or_bad items with ⟨ds, hgood⟩ | ⟨front, bad, tail, sequence, rfl, hfront, hbad⟩
    · rw [itemsMeaning_of_good hgood] at h
      cases h
      exact hgood
    · rw [itemsMeaning_of_bad hfront hbad] at h
      cases h
  · exact itemsMeaning_of_good

/-- Of bad items the first one is reported, at its place. -/
theorem itemsMeaning_eq_error_iff {sequence : List Char} {n : Nat} :
    itemsMeaning offset items = .error (sequence, n) ↔
      ∃ front bad tail, items = front ++ bad :: tail ∧
        (∀ item ∈ front, ∃ c, item.meaning = .ok c) ∧ bad.meaning = .error sequence ∧
        n = offset + byteSize (front.flatMap (·.lexeme)) := by
  constructor
  · intro h
    rcases good_or_bad items with ⟨ds, hgood⟩ | ⟨front, bad, tail, found, rfl, hfront, hbad⟩
    · rw [itemsMeaning_of_good hgood] at h
      cases h
    · rw [itemsMeaning_of_bad hfront hbad] at h
      cases h
      exact ⟨front, bad, tail, rfl, hfront, hbad, rfl⟩
  · rintro ⟨front, bad, tail, rfl, hfront, hbad, rfl⟩
    exact itemsMeaning_of_bad hfront hbad

end Meaning

end FormulaEngine
