import FormulaEngine.Proofs.Reading
import FormulaEngine.Proofs.StringItems

/-!
# The tokens of a text

What the regions of a text hold does not depend on where the text stands, and a text whose regions
hold tokens keeps them in front of whatever begins with a blank, a parenthesis or a comma.

* `carve` -- the tokens of some characters, without their places;
* `carve_toList`, `carve_toList_eq_some_iff` -- they are the tokens of a text;
* `tokenize_of_scan` -- a text that is one region has one token;
* `carve_append` -- tokens stay the same in front of a break;
* `parse_eq_ok_iff` -- the tree of a text is the one that its tokens derive.
-/

namespace FormulaEngine

/-- The tokens that some characters are carved into, unless one of the regions holds a fault. -/
def carve (cs : List Char) : Option (List Token) :=
  (regionsFrom 0 cs).mapM fun region => region.outcome.toOption

/-! ## Region by region -/

/-- A blank in front of a text shifts its regions. -/
private theorem regionsFrom_of_blank {c : Char} (hc : isBlank c = true) (offset : Nat)
    (cs : List Char) : regionsFrom offset (c :: cs) = regionsFrom (offset + c.utf8Size) cs := by
  have hskip : (Tokenizer.mk offset (c :: cs)).skipBlanks =
      (Tokenizer.mk (offset + c.utf8Size) cs).skipBlanks := by
    simp [Tokenizer.skipBlanks, hc, byteSize, Nat.add_assoc]
  rw [regionsFrom_eq ⟨offset, c :: cs⟩, regionsFrom_eq ⟨offset + c.utf8Size, cs⟩]
  unfold Tokenizer.nextRegion
  rw [hskip]

/-- The regions of a text that begins with no blank. -/
private theorem regionsFrom_of_not_blank {c : Char} (hc : isBlank c = false) (offset : Nat)
    (cs : List Char) :
    ∃ start stop next, regionsFrom offset (c :: cs) =
      ⟨start, stop, (scanRegion c cs).outcome.mapError (·.shift start)⟩ ::
        regionsFrom next (scanRegion c cs).rest := by
  have hdrop : (c :: cs).dropWhile isBlank = c :: cs := by simp [hc]
  rw [regionsFrom_eq ⟨offset, c :: cs⟩, Tokenizer.nextRegion_of_cons hdrop]
  exact ⟨_, _, _, rfl⟩

/-- Where a text stands does not matter for its tokens. -/
private theorem mapM_regionsFrom (offset : Nat) (cs : List Char) :
    (regionsFrom offset cs).mapM (fun region => region.outcome.toOption) = carve cs := by
  obtain ⟨n, hn⟩ : ∃ n, n = cs.length := ⟨_, rfl⟩
  induction n using Nat.strongRecOn generalizing cs offset with
  | ind n ih =>
      cases cs with
      | nil => rw [carve, regionsFrom, regionsFrom]; rfl
      | cons c cs =>
          cases hc : isBlank c with
          | true =>
              rw [carve, regionsFrom_of_blank hc, regionsFrom_of_blank hc,
                ih cs.length (by simp [hn]) _ _ rfl, ih cs.length (by simp [hn]) _ _ rfl]
          | false =>
              have hlt := length_rest_scanRegion_lt c cs
              obtain ⟨i, j, k, h₁⟩ := regionsFrom_of_not_blank hc offset cs
              obtain ⟨i', j', k', h₂⟩ := regionsFrom_of_not_blank hc 0 cs
              rw [carve, h₁, h₂, List.mapM_cons, List.mapM_cons,
                ih _ (by omega) k _ rfl, ih _ (by omega) k' _ rfl]
              simp only [toOption_mapError]

@[simp]
theorem carve_nil : carve [] = some [] := by
  rw [carve, regionsFrom]
  rfl

theorem carve_of_blank {c : Char} (hc : isBlank c = true) (cs : List Char) :
    carve (c :: cs) = carve cs := by
  rw [carve, regionsFrom_of_blank hc, mapM_regionsFrom]

/-- The first region holds the first token. -/
theorem carve_of_not_blank {c : Char} (hc : isBlank c = false) (cs : List Char) :
    carve (c :: cs) = (scanRegion c cs).outcome.toOption.bind fun t =>
      (carve (scanRegion c cs).rest).map (t :: ·) := by
  obtain ⟨start, stop, next, h⟩ := regionsFrom_of_not_blank hc 0 cs
  rw [carve, h, List.mapM_cons, mapM_regionsFrom]
  simp only [toOption_mapError]
  cases (scanRegion c cs).outcome.toOption with
  | none => rfl
  | some t => cases carve (scanRegion c cs).rest <;> rfl

theorem carve_of_scan {c : Char} {cs lexeme rest : List Char} {t : Token}
    (hc : isBlank c = false) (h : scanRegion c cs = ⟨lexeme, rest, .ok t⟩) :
    carve (c :: cs) = (carve rest).map (t :: ·) := by
  rw [carve_of_not_blank hc, h]
  rfl

/-- Only tokens are carved off: the first region of a text with tokens holds one. -/
theorem carve_cons_eq_some {c : Char} {cs : List Char} {ts : List Token}
    (hc : isBlank c = false) (h : carve (c :: cs) = some ts) :
    ∃ t us, ts = t :: us ∧ (scanRegion c cs).outcome = .ok t ∧
      carve (scanRegion c cs).rest = some us := by
  rw [carve_of_not_blank hc, Option.bind_eq_some_iff] at h
  obtain ⟨t, ht, h⟩ := h
  obtain ⟨us, hus, rfl⟩ := Option.map_eq_some_iff.1 h
  refine ⟨t, us, rfl, ?_, hus⟩
  cases hout : (scanRegion c cs).outcome with
  | error e => rw [hout] at ht; cases ht
  | ok t' => rw [hout] at ht; cases ht; rfl

/-- The first token is that of the first region, behind blanks. -/
theorem carve_eq_some_cons {cs : List Char} {t : Token} {us : List Token}
    (h : carve cs = some (t :: us)) :
    ∃ skip c body, cs = skip ++ c :: body ∧ (∀ d ∈ skip, isBlank d = true) ∧
      (scanRegion c body).outcome = .ok t ∧ carve (scanRegion c body).rest = some us := by
  induction cs with
  | nil =>
      rw [carve_nil] at h
      cases h
  | cons c cs ih =>
      cases hc : isBlank c with
      | true =>
          rw [carve_of_blank hc] at h
          obtain ⟨skip, d, body, rfl, hskip, hscan⟩ := ih h
          exact ⟨c :: skip, d, body, rfl, List.forall_mem_cons.2 ⟨hc, hskip⟩, hscan⟩
      | false =>
          obtain ⟨t', us', hts, ht, hus⟩ := carve_cons_eq_some hc h
          cases hts
          exact ⟨[], c, cs, rfl, by simp, ht, hus⟩

/-! ## Breaks

A token ends in front of a blank, a parenthesis or a comma, whatever it is. -/

/-- The characters in front of which every token ends. -/
def isBreak (c : Char) : Bool := isBlank c || c == '(' || c == ')' || c == ','

/-- The text is empty or begins with a break. -/
def StartsBroken (cs : List Char) : Prop := ∀ c ∈ cs.head?, isBreak c = true

theorem startsBroken_nil : StartsBroken [] := by
  intro c hc
  cases hc

theorem startsBroken_cons {c : Char} {cs : List Char} (hc : isBreak c = true) :
    StartsBroken (c :: cs) := by
  intro d hd
  cases hd
  exact hc

/-- The code points of the breaks. -/
private def breakCodes : List Nat :=
  [0x28, 0x29, 0x2C] ++ blanks.ranges.flatMap fun r => List.range' r.1 (r.2 + 1 - r.1)

private theorem mem_breakCodes {c : Char} (hc : isBreak c = true) : c.toNat ∈ breakCodes := by
  simp only [isBreak, Bool.or_eq_true, beq_iff_eq] at hc
  rcases hc with ((hc | rfl) | rfl) | rfl
  · obtain ⟨r, hr, hlo, hhi⟩ := CharRanges.contains_iff.1 hc
    refine List.mem_append_right _ (List.mem_flatMap.2 ⟨r, hr, List.mem_range'_1.2 ⟨hlo, ?_⟩⟩)
    omega
  · decide
  · decide
  · decide

/-- No break continues a name, a numeral or a symbol, and none escapes or closes anything. -/
private theorem breakCodes_apart : ∀ n ∈ breakCodes,
    isNameChar (Char.ofNat n) = false ∧ (Char.ofNat n).isDigit = false ∧
      Char.ofNat n ∉ ['.', 'e', 'E', '+', '-', '&', '|', '=', '<', '>', ']'] := by
  decide +kernel

private theorem isBreak_apart {c : Char} (hc : isBreak c = true) :
    isNameChar c = false ∧ c.isDigit = false ∧
      c ∉ ['.', 'e', 'E', '+', '-', '&', '|', '=', '<', '>', ']'] := by
  have h := breakCodes_apart c.toNat (mem_breakCodes hc)
  rwa [Char.ofNat_toNat] at h

namespace StartsBroken

variable {rest : List Char}

theorem isNameChar_head (h : StartsBroken rest) : ∀ c ∈ rest.head?, isNameChar c = false :=
  fun c hc => (isBreak_apart (h c hc)).1

theorem isDigit_head (h : StartsBroken rest) : ∀ c ∈ rest.head?, c.isDigit = false :=
  fun c hc => (isBreak_apart (h c hc)).2.1

theorem ofPair?_head (h : StartsBroken rest) (c : Char) :
    ∀ d ∈ rest.head?, Symbol.ofPair? c d = none := by
  intro d hd
  have hne := (isBreak_apart (h d hd)).2.2
  simp only [List.mem_cons, List.not_mem_nil, not_or] at hne
  unfold Symbol.ofPair?
  split <;> simp_all

end StartsBroken

/-- A run of characters does not grow into a text that begins with another kind of character. -/
theorem takeWhile_append_of_head {p : Char → Bool} {rest : List Char}
    (h : ∀ c ∈ rest.head?, p c = false) (cs : List Char) :
    (cs ++ rest).takeWhile p = cs.takeWhile p := by
  induction cs with
  | nil =>
      cases rest with
      | nil => rfl
      | cons c rest => simp [h c rfl]
  | cons c cs ih => simp only [List.cons_append, List.takeWhile_cons, ih]

theorem dropWhile_append_of_head {p : Char → Bool} {rest : List Char}
    (h : ∀ c ∈ rest.head?, p c = false) (cs : List Char) :
    (cs ++ rest).dropWhile p = cs.dropWhile p ++ rest := by
  induction cs with
  | nil =>
      cases rest with
      | nil => rfl
      | cons c rest => simp [h c rfl]
  | cons c cs ih =>
      simp only [List.cons_append, List.dropWhile_cons, ih]
      split
      · rfl
      · rfl

/-! ## Scans in front of a break -/

/-- A scan with more text behind it. -/
def Scan.before (s : Scan) (more : List Char) : Scan := { s with rest := s.rest ++ more }

section Append

variable {rest : List Char}

private theorem scanSymbol_append (h : StartsBroken rest) (c : Char) (cs : List Char) :
    scanSymbol c (cs ++ rest) = (scanSymbol c cs).map (·.before rest) := by
  cases cs with
  | nil =>
      cases rest with
      | nil => simp [scanSymbol, Scan.before, Function.comp_def]
      | cons d rest =>
          simp [scanSymbol, h.ofPair?_head c d rfl, Scan.before, Function.comp_def]
  | cons d cs =>
      simp only [List.cons_append, scanSymbol]
      split
      · rfl
      · simp [Scan.before, Function.comp_def]

private theorem scanString_append (more : List Char) {cs : List Char} {t : Token}
    (h : (scanString cs).outcome = .ok t) :
    scanString (cs ++ more) = (scanString cs).before more := by
  unfold scanString at h ⊢
  cases hs : stringItems cs with
  | mk items after =>
      rw [hs] at h
      cases after with
      | none => cases h
      | some after =>
          dsimp only at h
          cases hm : itemsMeaning 1 items with
          | error e => rw [hm] at h; cases h
          | ok ds =>
              have hsplits := splits_iff.2 hs
              have hmore := splits_iff.1
                (hsplits.behind (itemsMeaning_eq_ok_iff.1 hm) (after ++ more))
              rw [← List.cons_append, ← List.append_assoc, hsplits.append_eq] at hmore
              rw [hmore]
              rfl

/-- A run of characters that ends inside of a text ends there whatever follows. -/
theorem split_append {p : Char → Bool} {cs after : List Char} {c : Char}
    (h : cs.dropWhile p = c :: after) (more : List Char) :
    (cs ++ more).dropWhile p = c :: (after ++ more) ∧
      (cs ++ more).takeWhile p = cs.takeWhile p := by
  have hlen : (cs.takeWhile p).length ≠ cs.length := by
    have hall := congrArg List.length (List.takeWhile_append_dropWhile (p := p) (l := cs))
    rw [List.length_append, h, List.length_cons] at hall
    omega
  rw [List.dropWhile_append, h, List.takeWhile_append, if_neg hlen]
  exact ⟨rfl, rfl⟩

private theorem scanDelimited_append (more : List Char) {opening closing : Char}
    {meaning : List Char → Except SyntaxError Token} {body : List Char} {t : Token}
    (h : (scanDelimited opening closing meaning body).outcome = .ok t) :
    scanDelimited opening closing meaning (body ++ more) =
      (scanDelimited opening closing meaning body).before more := by
  unfold scanDelimited at h ⊢
  cases hd : body.dropWhile (· != closing) with
  | nil => rw [hd] at h; cases h
  | cons c after =>
      obtain ⟨hdrop, htake⟩ := split_append hd more
      simp only [hdrop, htake]
      rfl

private theorem scanFraction_append (h : StartsBroken rest) (cs : List Char) :
    Numeral.scanFraction (cs ++ rest) =
      ((Numeral.scanFraction cs).1, (Numeral.scanFraction cs).2 ++ rest) := by
  cases cs with
  | nil =>
      cases rest with
      | nil => rfl
      | cons c rest =>
          have hc : c ≠ '.' := by
            intro h
            subst h
            exact absurd (h '.' rfl) (by decide)
          rw [List.nil_append]
          unfold Numeral.scanFraction
          split
          · next heq => cases heq; exact absurd rfl hc
          · rfl
  | cons c cs =>
      rw [List.cons_append]
      by_cases hc : c = '.'
      · subst hc
        simp only [Numeral.scanFraction, takeWhile_append_of_head h.isDigit_head,
          dropWhile_append_of_head h.isDigit_head]
        split
        · rfl
        · rfl
      · unfold Numeral.scanFraction
        split
        · next heq => cases heq; exact absurd rfl hc
        · split
          · next heq => cases heq; exact absurd rfl hc
          · rfl

private theorem scanSign_append (h : StartsBroken rest) (cs : List Char) :
    Numeral.scanSign (cs ++ rest) =
      ((Numeral.scanSign cs).1, (Numeral.scanSign cs).2 ++ rest) := by
  have hhead : ∀ c ∈ rest.head?, c ≠ '+' ∧ c ≠ '-' := by
    intro c hc
    constructor
    · intro h
      subst h
      exact absurd (h _ hc) (by decide)
    · intro h
      subst h
      exact absurd (h _ hc) (by decide)
  unfold Numeral.scanSign
  cases cs with
  | nil =>
      cases rest with
      | nil => rfl
      | cons c rest =>
          have := hhead c rfl
          rw [List.nil_append]
          split <;> simp_all
  | cons c cs =>
      rw [List.cons_append]
      split <;> split <;> simp_all

private theorem scanExponent_append (h : StartsBroken rest) (cs : List Char) :
    Numeral.scanExponent (cs ++ rest) =
      ((Numeral.scanExponent cs).1, (Numeral.scanExponent cs).2 ++ rest) := by
  cases cs with
  | nil =>
      cases rest with
      | nil => rfl
      | cons c rest =>
          have hc : ¬ (c = 'e' ∨ c = 'E') := by
            rintro (rfl | rfl)
            · exact absurd (h 'e' rfl) (by decide)
            · exact absurd (h 'E' rfl) (by decide)
          simp [Numeral.scanExponent, hc]
  | cons c cs =>
      simp only [List.cons_append, Numeral.scanExponent, scanSign_append h,
        takeWhile_append_of_head h.isDigit_head, dropWhile_append_of_head h.isDigit_head]
      split
      · split
        · rfl
        · rfl
      · rfl

theorem scanNumeral_append (h : StartsBroken rest) (cs : List Char) :
    scanNumeral (cs ++ rest) = (scanNumeral cs).before rest := by
  simp only [scanNumeral, Numeral.scan, takeWhile_append_of_head h.isDigit_head,
    dropWhile_append_of_head h.isDigit_head, scanFraction_append h, scanExponent_append h]
  rfl

private theorem scanWord_append (h : StartsBroken rest) (c : Char) (cs : List Char) :
    scanWord c (cs ++ rest) = (scanWord c cs).before rest := by
  simp only [scanWord, takeWhile_append_of_head h.isNameChar_head,
    dropWhile_append_of_head h.isNameChar_head]
  rfl

private theorem startsNumeral_append (h : StartsBroken rest) (c : Char) (cs : List Char) :
    startsNumeral c (cs ++ rest) = startsNumeral c cs := by
  cases cs with
  | nil =>
      cases rest with
      | nil => rfl
      | cons d rest => simp [startsNumeral, h.isDigit_head d rfl]
  | cons d cs => rfl

/-- **A token stays the same in front of a break.** -/
theorem scanRegion_append (h : StartsBroken rest) {c : Char} {cs : List Char} {t : Token}
    (hok : (scanRegion c cs).outcome = .ok t) :
    scanRegion c (cs ++ rest) = (scanRegion c cs).before rest := by
  unfold scanRegion at hok ⊢
  rw [scanSymbol_append h, startsNumeral_append h]
  cases hs : scanSymbol c cs with
  | some s => rfl
  | none =>
      rw [hs] at hok
      dsimp only at hok
      simp only [Option.map_none]
      split
      · next hc =>
        rw [if_pos hc] at hok
        exact scanString_append rest hok
      · next hc =>
        rw [if_neg hc] at hok
        split
        · next hc =>
          rw [if_pos hc] at hok
          exact scanDelimited_append rest hok
        · next hc =>
          rw [if_neg hc] at hok
          split
          · next hc =>
            rw [if_pos hc] at hok
            exact scanDelimited_append rest hok
          · split
            · exact scanNumeral_append h (c :: cs)
            · split
              · exact scanWord_append h c cs
              · rfl

/-- **Tokens stay the same in front of a break**, and those behind it are added to them. -/
theorem carve_append {cs : List Char} {ts : List Token} (h : carve cs = some ts)
    (hrest : StartsBroken rest) : carve (cs ++ rest) = (carve rest).map (ts ++ ·) := by
  obtain ⟨n, hn⟩ : ∃ n, n = cs.length := ⟨_, rfl⟩
  induction n using Nat.strongRecOn generalizing cs ts with
  | ind n ih =>
      cases cs with
      | nil =>
          rw [carve_nil] at h
          cases h
          simp
      | cons c cs =>
          rw [List.cons_append]
          cases hc : isBlank c with
          | true =>
              rw [carve_of_blank hc] at h ⊢
              exact ih cs.length (by simp [hn]) h rfl
          | false =>
              obtain ⟨t, us, rfl, ht, hus⟩ := carve_cons_eq_some hc h
              have hlt := length_rest_scanRegion_lt c cs
              rw [carve_of_not_blank hc, scanRegion_append hrest ht]
              simp only [Scan.before, ht, ih _ (by omega) hus rfl]
              simp [Except.toOption, Function.comp_def]

end Append

/-! ## Texts -/

private theorem mapM_outcome (found : List Region) :
    found.mapM (fun region => region.outcome.toOption) =
      match found.filterMap Region.error? with
      | [] => some (tokens (found.filterMap Region.located?))
      | _ => none := by
  induction found with
  | nil => rfl
  | cons region found ih =>
      rw [List.mapM_cons, ih]
      cases hout : region.outcome with
      | error e =>
          simp [Region.error?, hout, Except.toOption]
      | ok t =>
          have herr : region.error? = none := by simp [Region.error?, hout]
          have hloc : region.located? = some ⟨t, region.start, region.stop⟩ := by
            simp [Region.located?, hout]
          rw [List.filterMap_cons, herr, List.filterMap_cons, hloc]
          cases found.filterMap Region.error? <;> rfl

/-- **The tokens of a text** are what its characters are carved into. -/
theorem carve_toList (text : String) :
    carve text.toList = (tokenize text).toOption.map tokens := by
  rw [carve, mapM_outcome, tokenize, regions]
  cases (regionsFrom 0 text.toList).filterMap Region.error? <;> rfl

/-- A text is carved into tokens exactly if it has these, at some places. -/
theorem carve_toList_eq_some_iff {text : String} {us : List Token} :
    carve text.toList = some us ↔ ∃ ts, tokenize text = .ok ts ∧ tokens ts = us := by
  rw [carve_toList]
  cases tokenize text with
  | error errors => simp [Except.toOption]
  | ok ts => simp [Except.toOption]

/-- A text that is one region has one token, which reaches from its start to its end. -/
theorem tokenize_of_scan {c : Char} {cs : List Char} {t : Token} (hc : isBlank c = false)
    (h : scanRegion c cs = ⟨c :: cs, [], .ok t⟩) :
    tokenize (String.ofList (c :: cs)) = .ok [⟨t, 0, byteSize (c :: cs)⟩] := by
  have hdrop : (c :: cs).dropWhile isBlank = c :: cs := by simp [hc]
  have htake : (c :: cs).takeWhile isBlank = [] := by simp [hc]
  have hnone : regionsFrom (byteSize (c :: cs)) [] = [] := by
    rw [regionsFrom]
    rfl
  have hregions : regionsFrom 0 (c :: cs) = [⟨0, byteSize (c :: cs), .ok t⟩] := by
    rw [regionsFrom_eq ⟨0, c :: cs⟩, Tokenizer.nextRegion_of_cons hdrop]
    simp only [Tokenizer.skipBlanks, htake, h, byteSize, Nat.zero_add, Except.mapError] at hnone ⊢
    rw [hnone]
  rw [tokenize, regions, String.toList_ofList, hregions]
  rfl

/-- **The tree of a text is the one that its tokens derive** within the limit on nesting. -/
theorem parse_eq_ok_iff {text : String} {e : Expr} :
    parse text = .ok e ↔
      ∃ ts, carve text.toList = some ts ∧ ∃ n ≤ nestingLimit, Derives .expression n ts e := by
  have hmap : ∀ x : Except SyntaxError Expr, x.mapError ([·]) = .ok e ↔ x = .ok e := by
    intro x
    cases x <;> simp [Except.mapError]
  simp only [parse, bind_eq_ok_iff, hmap, Expr.ofTokens_eq_ok_iff, carve_toList_eq_some_iff]
  constructor
  · rintro ⟨ts, hts, hd⟩
    exact ⟨tokens ts, ⟨ts, hts, rfl⟩, hd⟩
  · rintro ⟨_, ⟨ts, hts, rfl⟩, hd⟩
    exact ⟨ts, hts, hd⟩

end FormulaEngine
