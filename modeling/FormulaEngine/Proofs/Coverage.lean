import Mathlib.Data.List.TakeWhile
import FormulaEngine.Grammar.Region
import FormulaEngine.Proofs.StringItems

/-!
# The regions of a text cover it

Calls for the next token go through a text from left to right and come to its end.  Their regions
do not overlap, nothing but blanks lies outside of them, and they are cut between characters; so is
a fault found at a character of its region.

* `position_scanRegion` -- a fault stands inside of its region;
* `Tokenizer.nextRegion_cases` -- what a call for the next token can do;
* `Carved` -- some characters as blanks and regions in turn;
* `Tokenizer.Run` -- calls for the next token until there is none;
* `Tokenizer.run_carves` -- the calls carve the text, and `tokenize` collects what they answer.
-/

namespace FormulaEngine

/-! ## Offsets in bytes -/

theorem byteSize_pos {cs : List Char} (h : cs ≠ []) : 0 < byteSize cs := by
  cases cs with
  | nil => exact absurd rfl h
  | cons c cs => exact Nat.add_pos_left c.utf8Size_pos _

theorem utf8ByteSize_ofList (cs : List Char) : (String.ofList cs).utf8ByteSize = byteSize cs := by
  induction cs with
  | nil => rfl
  | cons c cs ih =>
      have hsplit : String.ofList (c :: cs) = String.singleton c ++ String.ofList cs := by
        rw [String.singleton_eq_ofList, ← String.ofList_append]
        rfl
      rw [hsplit, String.utf8ByteSize_append, String.utf8ByteSize_singleton, ih, byteSize]

theorem utf8ByteSize_eq (text : String) : text.utf8ByteSize = byteSize text.toList := by
  rw [← utf8ByteSize_ofList, String.ofList_toList]

/-- A place between two characters, where the first one stands at `offset`. -/
def IsBoundary (offset : Nat) (cs : List Char) (n : Nat) : Prop :=
  ∃ before after, cs = before ++ after ∧ n = offset + byteSize before

/-- The places between the characters of a text are its valid positions. -/
theorem IsBoundary.isValid {text : String} {n : Nat} (h : IsBoundary 0 text.toList n) :
    String.Pos.Raw.IsValid text ⟨n⟩ := by
  obtain ⟨before, after, htext, hn⟩ := h
  apply String.Pos.Raw.isValid_iff_exists_append.2
  refine ⟨String.ofList before, String.ofList after, ?_, ?_⟩
  · rw [← String.ofList_append, ← htext, String.ofList_toList]
  · rw [hn, Nat.zero_add, ← utf8ByteSize_ofList]
    rfl

/-! ## Faults inside of regions -/

private theorem outcome_scanSymbol {c : Char} {cs : List Char} {s : Scan}
    (h : scanSymbol c cs = some s) : ∃ t, s.outcome = .ok t := by
  unfold scanSymbol at h
  split at h
  · obtain ⟨_, _, rfl⟩ := Option.map_eq_some_iff.1 h
    exact ⟨_, rfl⟩
  · split at h
    · cases h
      exact ⟨_, rfl⟩
    · obtain ⟨_, _, rfl⟩ := Option.map_eq_some_iff.1 h
      exact ⟨_, rfl⟩

private theorem position_scanString {body : List Char} {e : SyntaxError}
    (h : (scanString body).outcome = .error e) :
    ∃ before after, (scanString body).lexeme = before ++ after ∧ after ≠ [] ∧
      e.position = byteSize before := by
  unfold scanString at h ⊢
  split at h
  · cases h
    exact ⟨[], _, rfl, List.cons_ne_nil _ _, rfl⟩
  · next items rest hitems =>
    cases hmeaning : itemsMeaning 1 items with
    | ok cs =>
        rw [hmeaning] at h
        cases h
    | error found =>
        obtain ⟨sequence, n⟩ := found
        rw [hmeaning] at h
        cases h
        obtain ⟨front, item, tail, rfl, -, -, rfl⟩ := itemsMeaning_eq_error_iff.1 hmeaning
        -- The opening quote and the items in front of the bad one make up the offset.
        refine ⟨'\x27' :: front.flatMap (·.lexeme),
          item.lexeme ++ tail.flatMap (·.lexeme) ++ ['\x27'], ?_, by simp, rfl⟩
        simp

private theorem position_scanDelimited {opening closing : Char}
    {meaning : List Char → Except SyntaxError Token} {body : List Char} {e : SyntaxError}
    (hmeaning : ∀ inside e, meaning inside = .error e → e.position = 0)
    (h : (scanDelimited opening closing meaning body).outcome = .error e) : e.position = 0 := by
  unfold scanDelimited at h
  split at h
  · cases h
    rfl
  · exact hmeaning _ e h

private theorem position_momentMeaning {inside : List Char} {e : SyntaxError}
    (h : momentMeaning inside = .error e) : e.position = 0 := by
  unfold momentMeaning at h
  split at h
  · cases h
  · cases h
    rfl

private theorem position_nameMeaning {inside : List Char} {e : SyntaxError}
    (h : nameMeaning inside = .error e) : e.position = 0 := by
  unfold nameMeaning at h
  split at h
  · cases h
    rfl
  · cases h

private theorem position_numeralMeaning {n : Numeral} {e : SyntaxError}
    (h : numeralMeaning n = .error e) : e.position = 0 := by
  unfold numeralMeaning at h
  split at h
  · cases h
  · split at h
    · cases h
    · cases h
      rfl

/-- **A fault stands at a character of its region.**  Only a bad escape stands behind the first. -/
theorem position_scanRegion {c : Char} {cs : List Char} {e : SyntaxError}
    (h : (scanRegion c cs).outcome = .error e) :
    ∃ before after, (scanRegion c cs).lexeme = before ++ after ∧ after ≠ [] ∧
      e.position = byteSize before := by
  by_cases hzero : e.position = 0
  · exact ⟨[], _, rfl, lexeme_scanRegion_ne_nil c cs, hzero⟩
  · unfold scanRegion at h ⊢
    cases hsymbol : scanSymbol c cs with
    | some s =>
        rw [hsymbol] at h
        obtain ⟨t, ht⟩ := outcome_scanSymbol hsymbol
        exact absurd (ht.symm.trans h) (by simp)
    | none =>
        rw [hsymbol] at h
        simp only at h ⊢
        split at h
        · next hquote =>
          rw [if_pos hquote]
          exact position_scanString h
        · exfalso
          apply hzero
          split at h
          · exact position_scanDelimited (fun _ _ => position_momentMeaning) h
          · split at h
            · exact position_scanDelimited (fun _ _ => position_nameMeaning) h
            · split at h
              · exact position_numeralMeaning h
              · split at h
                · cases h
                · cases h
                  rfl

/-! ## One call -/

/-- What a region is to the characters that it is cut off: blanks stand in front of it, it has a
character, and a fault stands at one of its characters. -/
structure Region.Cuts (r : Region) (offset : Nat) (skip lexeme : List Char) : Prop where
  blank_skip : ∀ c ∈ skip, isBlank c = true
  lexeme_ne_nil : lexeme ≠ []
  start_eq : r.start = offset + byteSize skip
  stop_eq : r.stop = r.start + byteSize lexeme
  fault : ∀ e, r.outcome = .error e → ∃ before after, lexeme = before ++ after ∧ after ≠ [] ∧
    e.position = r.start + byteSize before

namespace Tokenizer

/-- **What a call for the next token can do.**  It comes to the end of the text over blanks, or it
cuts off a region behind blanks. -/
theorem nextRegion_cases (t : Tokenizer) :
    (∃ last, t.nextRegion = (none, last) ∧ (∀ c ∈ t.rest, isBlank c = true) ∧
      last.position = t.position + byteSize t.rest) ∨
    (∃ r next skip lexeme, t.nextRegion = (some r, next) ∧ t.rest = skip ++ (lexeme ++ next.rest) ∧
      r.Cuts t.position skip lexeme ∧ r.start = t.skipBlanks.position ∧
      next.position = r.stop) := by
  have hsplit := List.takeWhile_append_dropWhile (p := isBlank) (l := t.rest)
  cases hdrop : t.rest.dropWhile isBlank with
  | nil =>
      have hall : t.rest.takeWhile isBlank = t.rest := by
        rw [hdrop, List.append_nil] at hsplit
        exact hsplit
      refine .inl ⟨t.skipBlanks, nextRegion_of_nil hdrop, fun c hc => ?_, ?_⟩
      · rw [← hall] at hc
        exact List.mem_takeWhile_imp hc
      · change t.position + byteSize (t.rest.takeWhile isBlank) = _
        rw [hall]
  | cons c body =>
      have htext := append_scanRegion c body
      refine .inr ⟨_, _, t.rest.takeWhile isBlank, (scanRegion c body).lexeme,
        nextRegion_of_cons hdrop, ?_, ?_, rfl, rfl⟩
      · rw [htext, ← hdrop]
        exact hsplit.symm
      · have hne := lexeme_scanRegion_ne_nil c body
        refine ⟨fun c hc => List.mem_takeWhile_imp hc, hne, rfl, rfl, ?_⟩
        intro e he
        cases hout : (scanRegion c body).outcome with
        | ok token =>
            rw [hout] at he
            cases he
        | error found =>
            rw [hout] at he
            cases he
            obtain ⟨before, after, hlexeme, hafter, hposition⟩ := position_scanRegion hout
            refine ⟨before, after, hlexeme, hafter, ?_⟩
            simp only [SyntaxError.shift, hposition]

end Tokenizer

/-! ## All regions -/

/-- Some characters, the first of which stands at `offset`, as blanks and regions in turn. -/
inductive Carved : Nat → List Char → List Region → Prop
  | blanks {offset : Nat} {cs : List Char} (h : ∀ c ∈ cs, isBlank c = true) : Carved offset cs []
  | region {offset : Nat} {skip lexeme rest : List Char} {r : Region} {rs : List Region}
      (hcut : r.Cuts offset skip lexeme) (hrest : Carved r.stop rest rs) :
      Carved offset (skip ++ (lexeme ++ rest)) (r :: rs)

namespace Carved

variable {offset : Nat} {cs : List Char} {rs : List Region}

/-- Every region takes at least a byte. -/
theorem length_le (h : Carved offset cs rs) : rs.length ≤ byteSize cs := by
  induction h with
  | blanks => exact Nat.zero_le _
  | region hcut _ ih =>
      have hpos := byteSize_pos hcut.lexeme_ne_nil
      rw [List.length_cons, byteSize_append, byteSize_append]
      omega

/-- No region begins before the text does. -/
theorem le_start (h : Carved offset cs rs) : ∀ r ∈ rs, offset ≤ r.start := by
  induction h with
  | blanks => simp
  | region hcut _ ih =>
      have hstart := hcut.start_eq
      have hstop := hcut.stop_eq
      intro r hr
      rcases List.mem_cons.1 hr with rfl | hr
      · omega
      · have hlater := ih r hr
        omega

theorem start_lt_stop (h : Carved offset cs rs) : ∀ r ∈ rs, r.start < r.stop := by
  induction h with
  | blanks => simp
  | region hcut _ ih =>
      intro r hr
      rcases List.mem_cons.1 hr with rfl | hr
      · have hpos := byteSize_pos hcut.lexeme_ne_nil
        have hstop := hcut.stop_eq
        omega
      · exact ih r hr

/-- The regions stand one behind the other. -/
theorem ordered (h : Carved offset cs rs) : rs.Pairwise fun r s => r.stop ≤ s.start := by
  induction h with
  | blanks => exact .nil
  | region _ hrest ih => exact .cons hrest.le_start ih

private theorem boundary_behind {skip lexeme rest : List Char} {start stop n : Nat}
    (hstart : start = offset + byteSize skip) (hstop : stop = start + byteSize lexeme)
    (h : IsBoundary stop rest n) : IsBoundary offset (skip ++ (lexeme ++ rest)) n := by
  obtain ⟨before, after, rfl, rfl⟩ := h
  refine ⟨skip ++ (lexeme ++ before), after, by simp, ?_⟩
  rw [byteSize_append, byteSize_append]
  omega

/-- The regions are cut between characters, and their faults are found there too. -/
theorem boundaries (h : Carved offset cs rs) : ∀ r ∈ rs, IsBoundary offset cs r.start ∧
    IsBoundary offset cs r.stop ∧ ∀ e, r.outcome = .error e →
      IsBoundary offset cs e.position ∧ r.start ≤ e.position ∧ e.position < r.stop := by
  induction h with
  | blanks => simp
  | @region offset skip lexeme rest r rs hcut _ ih =>
      have hstart := hcut.start_eq
      have hstop := hcut.stop_eq
      intro s hs
      rcases List.mem_cons.1 hs with rfl | hs
      · refine ⟨⟨skip, lexeme ++ rest, rfl, hstart⟩, ⟨skip ++ lexeme, rest, by simp, ?_⟩, ?_⟩
        · rw [byteSize_append]
          omega
        · intro e he
          obtain ⟨before, after, rfl, hafter, hposition⟩ := hcut.fault e he
          have hpos := byteSize_pos hafter
          rw [byteSize_append] at hstop
          refine ⟨⟨skip ++ before, after ++ rest, by simp, ?_⟩, by omega, by omega⟩
          rw [byteSize_append]
          omega
      · obtain ⟨hfirst, hlast, hfault⟩ := ih s hs
        refine ⟨boundary_behind hstart hstop hfirst, boundary_behind hstart hstop hlast, ?_⟩
        intro e he
        obtain ⟨hplace, hinside⟩ := hfault e he
        exact ⟨boundary_behind hstart hstop hplace, hinside⟩

/-- A character of two parts is one of the first part, or one of the second. -/
private theorem first_or_second {first second before after : List Char} {c : Char}
    (h : first ++ second = before ++ c :: after) :
    (∃ behind, first = before ++ c :: behind) ∨
      ∃ front, before = first ++ front ∧ second = front ++ c :: after := by
  rcases List.append_eq_append_iff.1 h with ⟨front, hbefore, hsecond⟩ | ⟨behind, hfirst, hrest⟩
  · exact .inr ⟨front, hbefore, hsecond⟩
  · cases behind with
    | nil =>
        rw [List.append_nil] at hfirst
        exact .inr ⟨[], by rw [hfirst, List.append_nil], hrest.symm⟩
    | cons d behind =>
        cases hrest
        exact .inl ⟨behind, hfirst⟩

/-- A byte outside of all regions belongs to a blank. -/
theorem blank_outside (h : Carved offset cs rs) {before after : List Char} {c : Char} {i : Nat}
    (hcs : cs = before ++ c :: after) (hlow : offset + byteSize before ≤ i)
    (hhigh : i < offset + byteSize before + c.utf8Size)
    (hout : ∀ r ∈ rs, i < r.start ∨ r.stop ≤ i) : isBlank c = true := by
  induction h generalizing before with
  | blanks hblank =>
      apply hblank c
      rw [hcs]
      exact List.mem_append_right before List.mem_cons_self
  | @region offset skip lexeme rest r rs hcut _ ih =>
      have hstart := hcut.start_eq
      have hstop := hcut.stop_eq
      rcases first_or_second hcs with ⟨behind, rfl⟩ | ⟨front, rfl, hbehind⟩
      · -- It is one of the blanks in front of the region.
        apply hcut.blank_skip c
        exact List.mem_append_right before List.mem_cons_self
      · rw [byteSize_append] at hlow hhigh
        rcases first_or_second hbehind with ⟨behind, rfl⟩ | ⟨further, rfl, hrest⟩
        · -- It is a character of the region, so that the byte is inside.
          rw [byteSize_append, byteSize] at hstop
          have hplace := hout r List.mem_cons_self
          omega
        · -- It stands behind the region.
          rw [byteSize_append] at hlow hhigh
          apply ih hrest
          · omega
          · omega
          · exact fun s hs => hout s (List.mem_cons_of_mem r hs)

/-- The faults are found one behind the other. -/
theorem faults_ordered (h : Carved offset cs rs) :
    (rs.filterMap Region.error?).Pairwise fun a b => a.position < b.position := by
  have hinside := h.boundaries
  have hordered := h.ordered
  clear h
  induction rs with
  | nil => exact .nil
  | cons r rs ih =>
      have hrest := ih (fun s hs => hinside s (List.mem_cons_of_mem r hs)) hordered.of_cons
      cases hout : r.outcome with
      | ok token =>
          have hnone : r.error? = none := by simp [Region.error?, hout]
          rw [List.filterMap_cons_none hnone]
          exact hrest
      | error e =>
          have hsome : r.error? = some e := by simp [Region.error?, hout]
          rw [List.filterMap_cons_some hsome]
          refine .cons (fun d hd => ?_) hrest
          obtain ⟨s, hs, hfault⟩ := List.mem_filterMap.1 hd
          have hds : s.outcome = .error d := by
            unfold Region.error? at hfault
            split at hfault
            · cases hfault
            · next found hfound =>
              cases hfault
              exact hfound
          have hfirst := ((hinside r List.mem_cons_self).2.2 e hout).2.2
          have hsecond := ((hinside s (List.mem_cons_of_mem r hs)).2.2 d hds).2.1
          have hbetween := List.rel_of_pairwise_cons hordered hs
          omega

end Carved

/-! ## The calls for a text -/

namespace Tokenizer

/-- Calls for the next token until there is none.  The region of a call reaches from behind the
blanks up to where the next call goes on, and holds what the call answers. -/
inductive Run : Tokenizer → List Region → Tokenizer → Prop
  | finish {t last : Tokenizer} (h : t.next = (.ok none, last)) : Run t [] last
  | call {t next last : Tokenizer} {r : Region} {rs : List Region} (h : t.next = (r.answer, next))
      (hstart : r.start = t.skipBlanks.position) (hstop : r.stop = next.position)
      (hrest : Run next rs last) : Run t (r :: rs) last

/-- **The calls go through all regions and come to the end**, and the regions are carved out of the
text. -/
theorem run_regionsFrom (t : Tokenizer) :
    Carved t.position t.rest (regionsFrom t.position t.rest) ∧
      ∃ last, Run t (regionsFrom t.position t.rest) last ∧
        last.position = t.position + byteSize t.rest := by
  obtain ⟨n, hn⟩ : ∃ n, n = t.rest.length := ⟨_, rfl⟩
  induction n using Nat.strongRecOn generalizing t with
  | ind n ih =>
      rw [regionsFrom_eq]
      rcases t.nextRegion_cases with ⟨last, hnext, hblank, hlast⟩ |
        ⟨r, next, skip, lexeme, hnext, htext, hcut, hstart, hstop⟩
      · rw [hnext]
        refine ⟨.blanks hblank, last, .finish ?_, hlast⟩
        unfold Tokenizer.next
        rw [hnext]
      · have hshorter := length_rest_nextRegion_lt hnext
        obtain ⟨hcarved, last, hrun, hlast⟩ := ih _ (by omega) next rfl
        rw [hnext]
        simp only
        constructor
        · rw [htext]
          rw [hstop] at hcarved ⊢
          exact .region hcut hcarved
        · refine ⟨last, .call ?_ hstart hstop.symm hrun, ?_⟩
          · unfold Tokenizer.next
            rw [hnext]
          · have hstart' := hcut.start_eq
            have hstop' := hcut.stop_eq
            rw [htext, byteSize_append, byteSize_append]
            omega

end Tokenizer

/-- How regions lie in a text. -/
structure Carves (rs : List Region) (text : String) : Prop where
  /-- no region is empty -/
  start_lt_stop : ∀ r ∈ rs, r.start < r.stop
  /-- each begins where the one before ends, or further on -/
  ordered : rs.Pairwise fun r s => r.stop ≤ s.start
  /-- each begins and ends between characters of the text -/
  isValid : ∀ r ∈ rs, String.Pos.Raw.IsValid text ⟨r.start⟩ ∧ String.Pos.Raw.IsValid text ⟨r.stop⟩
  /-- every byte outside of them belongs to a blank -/
  blank_outside : ∀ before c after i, text.toList = before ++ c :: after → byteSize before ≤ i →
    i < byteSize before + c.utf8Size → (∀ r ∈ rs, i < r.start ∨ r.stop ≤ i) → isBlank c = true
  /-- a fault stands at a character of its region -/
  fault_inside : ∀ r ∈ rs, ∀ e, r.outcome = .error e →
    String.Pos.Raw.IsValid text ⟨e.position⟩ ∧ r.start ≤ e.position ∧ e.position < r.stop
  /-- the faults stand one behind the other -/
  faults_ordered : (rs.filterMap Region.error?).Pairwise fun a b => a.position < b.position

theorem Carved.carves {text : String} {rs : List Region} (h : Carved 0 text.toList rs) :
    Carves rs text where
  start_lt_stop := h.start_lt_stop
  ordered := h.ordered
  isValid := fun r hr => ⟨(h.boundaries r hr).1.isValid, (h.boundaries r hr).2.1.isValid⟩
  blank_outside := fun before c after i htext hlow hhigh hout =>
    h.blank_outside htext (by omega) (by omega) hout
  fault_inside := fun r hr e he =>
    ⟨((h.boundaries r hr).2.2 e he).1.isValid, ((h.boundaries r hr).2.2 e he).2⟩
  faults_ordered := h.faults_ordered

private theorem map_answer_eq_iff {rs : List Region} {ts : List Located} :
    rs.map Region.answer = ts.map (fun t => .ok (some t)) ↔
      rs.filterMap Region.error? = [] ∧ rs.filterMap Region.located? = ts := by
  induction rs generalizing ts with
  | nil => cases ts <;> simp
  | cons r rs ih =>
      cases hout : r.outcome with
      | error e => cases ts <;> simp [Region.answer, Region.error?, hout, Except.map]
      | ok token =>
          have herror : r.error? = none := by simp [Region.error?, hout]
          have hlocated : r.located? = some ⟨token, r.start, r.stop⟩ := by
            simp [Region.located?, hout]
          rw [List.filterMap_cons_none herror, List.filterMap_cons_some hlocated]
          cases ts with
          | nil => simp
          | cons t ts => simp [Region.answer, hout, Except.map, ih, and_left_comm]

/-- The tokens of a text are those of its regions, if these hold no fault. -/
theorem tokenize_eq_ok_iff {text : String} {ts : List Located} :
    tokenize text = .ok ts ↔ (regions text).map Region.answer = ts.map fun t => .ok (some t) := by
  rw [map_answer_eq_iff]
  unfold tokenize
  simp only
  split
  · next h => simp [h]
  · next h =>
    constructor
    · intro hok
      cases hok
    · intro hok
      exact absurd hok.1 h

/-- All faults of a text are reported, if there are any. -/
theorem tokenize_eq_error_iff {text : String} {errors : List SyntaxError} :
    tokenize text = .error errors ↔
      (regions text).filterMap Region.error? = errors ∧ errors ≠ [] := by
  unfold tokenize
  simp only
  split
  · next h =>
    simp only [h]
    constructor
    · intro h
      cases h
    · rintro ⟨rfl, hne⟩
      exact absurd rfl hne
  · next found hne =>
    constructor
    · intro h
      cases h
      exact ⟨rfl, hne⟩
    · rintro ⟨rfl, -⟩
      rfl

/-- **Calls for the next token carve a text.**  There are at most as many as it has bytes, but for
the last one, which comes to the end of the text.  Their regions cover it, but for blanks, and what
they answer is what `tokenize` reports: the tokens, or all the faults. -/
theorem Tokenizer.run_carves (text : String) :
    ∃ rs last, Run (.ofText text) rs last ∧ rs.length + 1 ≤ text.utf8ByteSize + 1 ∧
      last.position = text.utf8ByteSize ∧ Carves rs text ∧
      (∀ ts, tokenize text = .ok ts ↔ rs.map Region.answer = ts.map fun t => .ok (some t)) ∧
      (∀ errors, tokenize text = .error errors ↔
        rs.filterMap Region.error? = errors ∧ errors ≠ []) := by
  obtain ⟨hcarved, last, hrun, hlast⟩ := run_regionsFrom (.ofText text)
  have hlength : (regions text).length ≤ byteSize text.toList := hcarved.length_le
  rw [utf8ByteSize_eq]
  refine ⟨regions text, last, hrun, Nat.succ_le_succ hlength, ?_, hcarved.carves, ?_, ?_⟩
  · rw [hlast]
    exact Nat.zero_add _
  · exact fun ts => tokenize_eq_ok_iff
  · exact fun errors => tokenize_eq_error_iff

end FormulaEngine
