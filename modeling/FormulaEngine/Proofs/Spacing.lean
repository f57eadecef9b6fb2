import Mathlib.Data.String.Basic
import FormulaEngine.Proofs.Coverage
import FormulaEngine.Proofs.Numerals

/-!
# Blanks between tokens

A scan may look ahead, but the characters that it takes for a token are enough for it: they are
scanned as the same token where nothing stands behind them.  So the slices of a text that its tokens
are read from can be put into another text, with other blanks between them, and are read there as
the same tokens.

* `scanRegion_lexeme` -- the characters of a token, scanned alone;
* `carve_source` -- the slice of a text that a token is read from holds this token alone;
* `Spacing`, `respaced` -- the slices of some tokens with other blanks between them;
* `tokenize_respaced` -- these are the same tokens, and the same tree.
-/

namespace FormulaEngine

/-! ## The characters of a token alone -/

/-- A scan with no text behind it. -/
def Scan.alone (s : Scan) : Scan := { s with rest := [] }

private theorem scanSymbol_lexeme {c : Char} {cs : List Char} {s : Scan}
    (h : scanSymbol c cs = some s) :
    ∃ body, s.lexeme = c :: body ∧ scanSymbol c body = some s.alone := by
  have hsingle : ∀ {s : Scan}, (Symbol.ofChar? c).map (fun symbol =>
      (⟨[c], cs, .ok (.symbol symbol)⟩ : Scan)) = some s →
      ∃ body, s.lexeme = c :: body ∧ scanSymbol c body = some s.alone := by
    intro s hs
    obtain ⟨symbol, hsymbol, rfl⟩ := Option.map_eq_some_iff.1 hs
    exact ⟨[], rfl, by simp [scanSymbol, hsymbol, Scan.alone]⟩
  cases cs with
  | nil => exact hsingle h
  | cons d cs =>
      rw [scanSymbol] at h
      cases hpair : Symbol.ofPair? c d with
      | none =>
          rw [hpair] at h
          exact hsingle h
      | some symbol =>
          rw [hpair] at h
          cases h
          exact ⟨[d], rfl, by simp [scanSymbol, hpair, Scan.alone]⟩

private theorem scanString_lexeme {cs : List Char} {t : Token}
    (h : (scanString cs).outcome = .ok t) :
    ∃ body, (scanString cs).lexeme = '\x27' :: body ∧ scanString body = (scanString cs).alone := by
  unfold scanString at h ⊢
  cases hs : stringItems cs with
  | mk items after =>
      rw [hs] at h
      cases after with
      | none => cases h
      | some after =>
          dsimp only at h
          cases hm : itemsMeaning 1 items with
          | error e => rw [hm] at h; cases h
          | ok ds =>
              refine ⟨_, rfl, ?_⟩
              have hsplits := (splits_iff.2 hs).behind (itemsMeaning_eq_ok_iff.1 hm) []
              rw [splits_iff.1 hsplits]
              rfl

private theorem scanDelimited_lexeme {opening closing : Char}
    {meaning : List Char → Except SyntaxError Token} {cs : List Char} {t : Token}
    (h : (scanDelimited opening closing meaning cs).outcome = .ok t) :
    ∃ body, (scanDelimited opening closing meaning cs).lexeme = opening :: body ∧
      scanDelimited opening closing meaning body =
        (scanDelimited opening closing meaning cs).alone := by
  unfold scanDelimited at h
  cases hd : cs.dropWhile (· != closing) with
  | nil => rw [hd] at h; cases h
  | cons c after =>
      have hc : c = closing := by
        have hhead := List.head?_dropWhile_not (· != closing) cs
        rw [hd] at hhead
        simpa using hhead
      have hinside : closing ∉ cs.takeWhile (· != closing) := by
        intro hmem
        have hne := List.mem_takeWhile_imp hmem
        simp at hne
      subst hc
      have hscan : scanDelimited opening c meaning cs =
          ⟨opening :: (cs.takeWhile (· != c) ++ [c]), after,
            meaning (cs.takeWhile (· != c))⟩ := by
        rw [scanDelimited, hd]
      refine ⟨cs.takeWhile (· != c) ++ [c], by rw [hscan], ?_⟩
      rw [hscan, scanDelimited_of_not_mem hinside]
      rfl

section Numerals

variable {cs rest : List Char}

private theorem scanExponent_chars (cs : List Char) :
    Numeral.scanExponent (Numeral.exponentChars (Numeral.scanExponent cs).1) =
      ((Numeral.scanExponent cs).1, []) := by
  cases he : (Numeral.scanExponent cs).1 with
  | none => rfl
  | some e =>
      obtain ⟨hmark, hsign, hdigits⟩ := Numeral.scanExponent_eq_some he
      obtain ⟨mark, sign, digits⟩ := e
      have hscanSign := Numeral.scanSign_digits hsign hdigits []
      rw [List.append_nil] at hscanSign
      obtain ⟨d, ds, rfl⟩ := List.exists_cons_of_ne_nil hdigits.ne_nil
      simp only [Numeral.exponentChars, Numeral.scanExponent, hscanSign,
        List.takeWhile_eq_self_iff.2 hdigits.isDigit, List.dropWhile_eq_nil_iff.2 hdigits.isDigit]
      rw [if_pos (show mark = 'e' ∨ mark = 'E' from hmark)]

/-- An exponent begins with a letter. -/
private theorem head_exponentChars (cs : List Char) :
    ∀ c ∈ (Numeral.exponentChars (Numeral.scanExponent cs).1).head?,
      c.isDigit = false ∧ c ≠ '.' := by
  intro c hc
  cases he : (Numeral.scanExponent cs).1 with
  | none => rw [he] at hc; cases hc
  | some e =>
      rw [he] at hc
      cases hc
      have hmark := (Numeral.scanExponent_eq_some he).1
      exact ⟨hmark.not_isDigit, hmark.ne_point⟩

/-- No digit stands behind the digits in front of a point or an exponent. -/
private theorem head_fractionChars (hrest : ∀ c ∈ rest.head?, c.isDigit = false ∧ c ≠ '.')
    (fraction : List Char) :
    ∀ c ∈ (Numeral.fractionChars fraction ++ rest).head?, c.isDigit = false := by
  intro c hc
  cases fraction with
  | nil => exact (hrest c hc).1
  | cons d ds =>
      cases hc
      rfl

/-- **The characters of a numeral are enough for it.** -/
private theorem scan_chars (cs : List Char) :
    Numeral.scan (Numeral.scan cs).1.chars = ((Numeral.scan cs).1, []) := by
  have hwhole : ∀ c ∈ cs.takeWhile Char.isDigit, c.isDigit = true :=
    fun c hc => List.mem_takeWhile_imp hc
  have hexponent := head_exponentChars (Numeral.scanFraction (cs.dropWhile Char.isDigit)).2
  obtain ⟨htake, hdrop⟩ := span_digits hwhole (head_fractionChars hexponent
    (Numeral.scanFraction (cs.dropWhile Char.isDigit)).1)
  simp only [Numeral.scan, Numeral.chars, htake, hdrop,
    Numeral.scanFraction_chars (Numeral.isDigit_scanFraction _) hexponent, scanExponent_chars]

private theorem scanNumeral_lexeme (cs : List Char) :
    scanNumeral (scanNumeral cs).lexeme = (scanNumeral cs).alone := by
  simp only [scanNumeral, scan_chars, Scan.alone]

end Numerals

private theorem scanWord_lexeme (c : Char) (cs : List Char) :
    (scanWord c cs).lexeme = c :: cs.takeWhile isNameChar ∧
      scanWord c (cs.takeWhile isNameChar) = (scanWord c cs).alone := by
  refine ⟨rfl, ?_⟩
  have hall : ∀ d ∈ cs.takeWhile isNameChar, isNameChar d = true :=
    fun _ hd => List.mem_takeWhile_imp hd
  simp only [scanWord, Scan.alone, List.takeWhile_eq_self_iff.2 hall,
    List.dropWhile_eq_nil_iff.2 hall]

/-- The characters of a numeral begin one. -/
private theorem startsNumeral_lexeme {c : Char} {cs : List Char} (h : startsNumeral c cs = true) :
    ∃ body, (scanNumeral (c :: cs)).lexeme = c :: body ∧ startsNumeral c body = true := by
  by_cases hc : c.isDigit = true
  · refine ⟨(scanNumeral (c :: cs)).lexeme.tail, ?_, by simp [startsNumeral, hc]⟩
    simp [scanNumeral, Numeral.scan, Numeral.chars, hc]
  · obtain ⟨rfl, d, rest, rfl, hd⟩ : c = '.' ∧ ∃ d rest, cs = d :: rest ∧ d.isDigit = true := by
      cases cs <;> simp_all [startsNumeral]
    refine ⟨(scanNumeral ('.' :: d :: rest)).lexeme.tail, ?_, ?_⟩
    · simp [scanNumeral, Numeral.scan, Numeral.chars, Numeral.scanFraction,
        Numeral.fractionChars, hd, hc]
    · simp [scanNumeral, Numeral.scan, Numeral.chars, Numeral.scanFraction,
        Numeral.fractionChars, startsNumeral, hd, hc]

private theorem ofChar?_of_scanSymbol {c : Char} {cs : List Char} (h : scanSymbol c cs = none) :
    Symbol.ofChar? c = none := by
  cases cs with
  | nil => simpa [scanSymbol] using h
  | cons d cs =>
      cases hpair : Symbol.ofPair? c d with
      | none => simpa [scanSymbol, hpair] using h
      | some symbol => simp [scanSymbol, hpair] at h

/-- **The characters of a token are enough for it**: scanned alone, they are the same token. -/
theorem scanRegion_lexeme {c : Char} {cs : List Char} {t : Token}
    (h : (scanRegion c cs).outcome = .ok t) :
    ∃ body, (scanRegion c cs).lexeme = c :: body ∧
      scanRegion c body = (scanRegion c cs).alone := by
  cases hs : scanSymbol c cs with
  | some s =>
      obtain ⟨body, hlexeme, hscan⟩ := scanSymbol_lexeme hs
      exact ⟨body, by simp [scanRegion, hs, hlexeme], by simp [scanRegion, hs, hscan]⟩
  | none =>
      have hnone : ∀ ds, scanSymbol c ds = none := scanSymbol_eq_none (ofChar?_of_scanSymbol hs)
      by_cases hquote : c = '\x27'
      · subst hquote
        have hscan : ∀ ds, scanRegion '\x27' ds = scanString ds := by simp [scanRegion, hnone]
        simp only [hscan] at h ⊢
        exact scanString_lexeme h
      by_cases hmoment : c = '#'
      · subst hmoment
        have hscan : ∀ ds, scanRegion '#' ds = scanDelimited '#' '#' momentMeaning ds := by
          simp [scanRegion, hnone]
        simp only [hscan] at h ⊢
        exact scanDelimited_lexeme h
      by_cases hname : c = '['
      · subst hname
        have hscan : ∀ ds, scanRegion '[' ds = scanDelimited '[' ']' nameMeaning ds := by
          simp [scanRegion, hnone]
        simp only [hscan] at h ⊢
        exact scanDelimited_lexeme h
      have hrest : ∀ ds, scanRegion c ds =
          if startsNumeral c ds then scanNumeral (c :: ds)
          else if isNameStart c then scanWord c ds
          else ⟨[c], ds, .error ⟨.strayCharacter c, 0⟩⟩ := by
        intro ds
        simp [scanRegion, hnone, hquote, hmoment, hname]
      by_cases hnumeral : startsNumeral c cs = true
      · obtain ⟨body, hlexeme, hbody⟩ := startsNumeral_lexeme hnumeral
        refine ⟨body, by rw [hrest, if_pos hnumeral, hlexeme], ?_⟩
        rw [hrest, if_pos hbody, hrest, if_pos hnumeral, ← hlexeme, scanNumeral_lexeme]
      by_cases hword : isNameStart c = true
      · obtain ⟨hlexeme, hscan⟩ := scanWord_lexeme c cs
        have hcs : scanRegion c cs = scanWord c cs := scanRegion_of_isNameStart hword cs
        refine ⟨cs.takeWhile isNameChar, by rw [hcs, hlexeme], ?_⟩
        rw [hcs, scanRegion_of_isNameStart hword, hscan]
      · rw [hrest, if_neg hnumeral, if_neg hword] at h
        cases h

/-! ## The slices of a text -/

/-- The part of a text that a token is read from. -/
def Located.source (t : Located) (text : String) : String :=
  String.Pos.Raw.extract text ⟨t.start⟩ ⟨t.stop⟩

private theorem utf8Len_eq (cs : List Char) : String.utf8Len cs = byteSize cs := by
  induction cs with
  | nil => rfl
  | cons c cs ih => rw [String.utf8Len_cons, ih, byteSize, Nat.add_comm]

/-- A slice of a text is what stands between its two offsets. -/
theorem extract_of_append {text : String} {before inside after : List Char}
    (h : text.toList = before ++ inside ++ after) :
    String.Pos.Raw.extract text ⟨byteSize before⟩ ⟨byteSize before + byteSize inside⟩ =
      String.ofList inside := by
  have hslice := String.extract_of_valid before inside after
  rwa [utf8Len_eq, utf8Len_eq, ← h, String.ofList_toList] at hslice

/-- The characters of a token are carved into this token. -/
private theorem carve_lexeme {c : Char} {cs : List Char} {t : Token} (hc : isBlank c = false)
    (h : (scanRegion c cs).outcome = .ok t) : carve (scanRegion c cs).lexeme = some [t] := by
  obtain ⟨body, hlexeme, hscan⟩ := scanRegion_lexeme h
  have halone : scanRegion c body = ⟨c :: body, [], .ok t⟩ := by
    rw [hscan, Scan.alone, hlexeme, h]
  rw [hlexeme, carve_of_scan hc halone, carve_nil]
  rfl

private theorem carve_slice {text : String} {before cs : List Char}
    (h : text.toList = before ++ cs) :
    ∀ r ∈ regionsFrom (byteSize before) cs, ∀ t, r.outcome = .ok t →
      carve (String.Pos.Raw.extract text ⟨r.start⟩ ⟨r.stop⟩).toList = some [t] := by
  obtain ⟨n, hn⟩ : ∃ n, n = cs.length := ⟨_, rfl⟩
  induction n using Nat.strongRecOn generalizing before cs with
  | ind n ih =>
      intro r hr t ht
      rw [regionsFrom_eq ⟨byteSize before, cs⟩] at hr
      have hsplit := List.takeWhile_append_dropWhile (p := isBlank) (l := cs)
      cases hdrop : cs.dropWhile isBlank with
      | nil =>
          rw [Tokenizer.nextRegion_of_nil hdrop] at hr
          cases hr
      | cons c body =>
          rw [Tokenizer.nextRegion_of_cons hdrop] at hr
          have hc : isBlank c = false := by
            have hhead := List.head?_dropWhile_not isBlank cs
            rw [hdrop] at hhead
            simpa using hhead
          have htext : text.toList = before ++ cs.takeWhile isBlank ++
              (scanRegion c body).lexeme ++ (scanRegion c body).rest := by
            rw [List.append_assoc, append_scanRegion, ← hdrop, List.append_assoc, hsplit, h]
          rcases List.mem_cons.1 hr with rfl | hr
          · have hok : (scanRegion c body).outcome = .ok t := by
              cases hout : (scanRegion c body).outcome with
              | error e => simp [hout, Except.mapError] at ht
              | ok t' => simpa [hout, Except.mapError] using ht
            have hslice := extract_of_append htext
            rw [byteSize_append] at hslice
            simp only [Tokenizer.skipBlanks]
            rw [hslice, String.toList_ofList]
            exact carve_lexeme hc hok
          · have hlt := length_rest_scanRegion_lt c body
            have hlen := congrArg List.length hsplit
            rw [hdrop, List.length_append] at hlen
            refine ih (scanRegion c body).rest.length (by omega) htext rfl r ?_ t ht
            rw [byteSize_append, byteSize_append]
            exact hr

/-- **The slice of a text that a token is read from holds this token alone.** -/
theorem carve_source {text : String} {ts : List Located} (h : tokenize text = .ok ts) :
    ∀ t ∈ ts, carve (t.source text).toList = some [t.token] := by
  intro t ht
  have hmem : .ok (some t) ∈ (regions text).map Region.answer := by
    rw [tokenize_eq_ok_iff.1 h]
    exact List.mem_map_of_mem ht
  obtain ⟨r, hr, hanswer⟩ := List.mem_map.1 hmem
  unfold Region.answer at hanswer
  cases hout : r.outcome with
  | error e =>
      rw [hout] at hanswer
      cases hanswer
  | ok token =>
      rw [hout] at hanswer
      cases hanswer
      have htext : text.toList = [] ++ text.toList := rfl
      exact carve_slice htext r hr token hout

/-! ## Other blanks -/

/-- Some white space. -/
def IsGap (gap : String) : Prop := ∀ c ∈ gap.toList, isBlank c = true

instance (gap : String) : Decidable (IsGap gap) :=
  decidable_of_iff (gap.toList.all isBlank = true) List.all_eq_true

/-- White space for a row of tokens: in front of the first one and behind each, where it may be
missing behind the last one only. -/
structure Spacing (count : Nat) where
  before : String
  gaps : List String
  length_gaps : gaps.length = count
  before_gap : IsGap before
  gaps_gap : ∀ gap ∈ gaps, IsGap gap
  gaps_ne_empty : ∀ gap ∈ gaps.dropLast, gap ≠ ""

/-- The slices that some tokens of a text are read from, with other blanks between them. -/
def respaced (text : String) (ts : List Located) (spacing : Spacing ts.length) : String :=
  spacing.before ++ String.join (ts.zipWith (fun t gap => t.source text ++ gap) spacing.gaps)

private theorem carve_blanks {blanks : List Char} (h : ∀ c ∈ blanks, isBlank c = true)
    (cs : List Char) : carve (blanks ++ cs) = carve cs := by
  induction blanks with
  | nil => rfl
  | cons c blanks ih =>
      rw [List.cons_append, carve_of_blank (h c List.mem_cons_self),
        ih fun d hd => h d (List.mem_cons_of_mem c hd)]

/-- A token ends in front of a gap that is not empty. -/
private theorem startsBroken_gap {gap : String} (h : IsGap gap) (hne : gap ≠ "")
    (cs : List Char) : StartsBroken (gap.toList ++ cs) := by
  obtain ⟨c, rest, hgap⟩ := List.exists_cons_of_ne_nil fun hnil =>
    hne (String.toList_eq_nil_iff.1 hnil)
  rw [hgap]
  apply startsBroken_cons
  simp [isBreak, h c (by rw [hgap]; exact List.mem_cons_self)]

/-- **Slices with gaps behind them** are carved into their tokens. -/
private theorem carve_slices {text : String} {ts : List Located} {gaps : List String}
    (hlength : gaps.length = ts.length) (hgaps : ∀ gap ∈ gaps, IsGap gap)
    (hne : ∀ gap ∈ gaps.dropLast, gap ≠ "")
    (hts : ∀ t ∈ ts, carve (t.source text).toList = some [t.token]) :
    carve (String.join (ts.zipWith (fun t gap => t.source text ++ gap) gaps)).toList =
      some (tokens ts) := by
  induction ts generalizing gaps with
  | nil => simp
  | cons t ts ih =>
      cases gaps with
      | nil => cases hlength
      | cons gap gaps =>
          have hgap := hgaps gap List.mem_cons_self
          have hinner : gaps ≠ [] → (gap :: gaps).dropLast = gap :: gaps.dropLast :=
            List.dropLast_cons_of_ne_nil
          have hlater : ∀ g ∈ gaps.dropLast, g ≠ "" := by
            intro g hg
            have hcons : gaps ≠ [] := by
              rintro rfl
              cases hg
            exact hne g (by rw [hinner hcons]; exact List.mem_cons_of_mem gap hg)
          have hrest := ih (Nat.succ.inj hlength)
            (fun g hg => hgaps g (List.mem_cons_of_mem gap hg)) hlater
            fun u hu => hts u (List.mem_cons_of_mem t hu)
          have hbroken : StartsBroken (gap.toList ++
              (String.join (ts.zipWith (fun t gap => t.source text ++ gap) gaps)).toList) := by
            by_cases hempty : gap = ""
            · -- Only the last gap may be empty, and behind it there is no token.
              have hnil : gaps = [] := by
                by_contra hcons
                exact hne gap (by rw [hinner hcons]; exact List.mem_cons_self) hempty
              subst hempty hnil
              rw [List.zipWith_nil_right]
              exact startsBroken_nil
            · exact startsBroken_gap hgap hempty _
          rw [List.zipWith_cons_cons, String.join_cons, String.toList_append, String.toList_append,
            List.append_assoc, carve_append (hts t List.mem_cons_self) hbroken,
            carve_blanks hgap, hrest]
          rfl

/-- **Blanks between tokens do not matter.**  The slices that the tokens of a text are read from,
with any blanks in front of them and behind them and at least one between any two, are read as the
same tokens, and as the same tree if there is one. -/
theorem tokenize_respaced {text : String} {ts : List Located} (h : tokenize text = .ok ts)
    (spacing : Spacing ts.length) :
    (∃ ts', tokenize (respaced text ts spacing) = .ok ts' ∧
      ts'.map Located.token = ts.map Located.token) ∧
    ∀ e, parse (respaced text ts spacing) = .ok e ↔ parse text = .ok e := by
  have hcarve : carve text.toList = some (tokens ts) := by
    rw [carve_toList, h]
    rfl
  have hrespaced : carve (respaced text ts spacing).toList = some (tokens ts) := by
    rw [respaced, String.toList_append, carve_blanks spacing.before_gap]
    exact carve_slices spacing.length_gaps spacing.gaps_gap spacing.gaps_ne_empty (carve_source h)
  constructor
  · have htokens := hrespaced
    rw [carve_toList, Option.map_eq_some_iff] at htokens
    obtain ⟨ts', hts', heq⟩ := htokens
    cases hout : tokenize (respaced text ts spacing) with
    | error errors => rw [hout] at hts'; cases hts'
    | ok found => rw [hout] at hts'; cases hts'; exact ⟨ts', rfl, heq⟩
  · intro e
    rw [parse_eq_ok_iff, parse_eq_ok_iff, hcarve, hrespaced]

/-- Behind `1` there is no exponent, and behind `<>` no further symbol. -/
example : carve "1e<>=.1x".toList = carve "1 e <> = .1 x".toList := by
  decide +kernel

/-- A text without a blank between its tokens; one of them holds blanks. -/
def crowded : String := "[x y]<>.5AND'a  b'>=n"

def crowdedTokens : List Located :=
  [⟨.name "x y", 0, 5⟩, ⟨.symbol .notEqual, 5, 7⟩, ⟨.literal (.float 0.5), 7, 9⟩,
    ⟨.symbol .andAnd, 9, 12⟩, ⟨.literal (.string "a  b"), 12, 18⟩, ⟨.symbol .greaterEqual, 18, 20⟩,
    ⟨.name "n", 20, 21⟩]

def airySpacing : Spacing 7 where
  before := "\n"
  gaps := ["\t", " ", "\u3000", " ", "  ", "\r\n", ""]
  length_gaps := rfl
  before_gap := by decide
  gaps_gap := by decide
  gaps_ne_empty := by decide

theorem tokenize_respaced_crowded :
    tokenize crowded = .ok crowdedTokens ∧
    (∃ ts', tokenize "\n[x y]\t<> .5\u3000AND 'a  b'  >=\r\nn" = .ok ts' ∧
      ts'.map Located.token = crowdedTokens.map Located.token) ∧
    ∀ e, parse "\n[x y]\t<> .5\u3000AND 'a  b'  >=\r\nn" = .ok e ↔ parse crowded = .ok e := by
  have htokens : tokenize crowded = .ok crowdedTokens := by decide +kernel
  have htext : respaced crowded crowdedTokens airySpacing =
      "\n[x y]\t<> .5\u3000AND 'a  b'  >=\r\nn" := by decide +kernel
  have hrespaced := tokenize_respaced htokens airySpacing
  rw [htext] at hrespaced
  exact ⟨htokens, hrespaced⟩

end FormulaEngine
