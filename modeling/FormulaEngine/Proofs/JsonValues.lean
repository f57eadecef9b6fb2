import FormulaEngine.Json.OfValue
import FormulaEngine.Proofs.IntegerArithmetic
import FormulaEngine.Proofs.Outcome

/-!
# Values and their JSON trees

JSON trees without objects are values, and they come back from these, but for numbers that do not
fit.  Values without decimals, moments and floats that are not finite come back from their trees.

* `Value.Mirrors` -- the values that are built like a tree;
* `Value.mirrors_of_ofJson`, `Value.Mirrors.ofJson_eq` -- a tree is read as the value that mirrors
  it;
* `Value.ofJson_eq_error_iff` -- unless it holds an object, with the error that says so;
* `Value.Common`, `Json.NumbersFit` -- what values and trees have in common;
* `Value.ofJson_lossless` -- what is common is kept both ways.
-/

namespace FormulaEngine

/-- Induction on trees, with the hypothesis for each item of an array. -/
@[elab_as_elim]
theorem Json.byItems {motive : Json → Prop} (j : Json) (null : motive .null)
    (boolean : ∀ b, motive (.boolean b)) (integer : ∀ n, motive (.integer n))
    (float : ∀ x, motive (.float x)) (string : ∀ s, motive (.string s))
    (array : ∀ items, (∀ j ∈ items, motive j) → motive (.array items))
    (object : ∀ members, motive (.object members)) : motive j := by
  cases j with
  | null => exact null
  | boolean b => exact boolean b
  | integer n => exact integer n
  | float x => exact float x
  | string s => exact string s
  | array items =>
      exact array items fun j _ => byItems j null boolean integer float string array object
  | object members => exact object members
termination_by sizeOf j
decreasing_by
  have hlt := List.sizeOf_lt_of_mem ‹_ ∈ _›
  simp only [Json.array.sizeOf_spec]
  omega

namespace Value

/-! ## The value of a tree -/

/-- A value is built like a tree: with lists for its arrays, which have as many items, and with the
same leaves, but that an integer too large for a word is the float next to it. -/
inductive Mirrors : Value → Json → Prop
  | null : Mirrors .null .null
  | boolean (b : Bool) : Mirrors (.boolean b) (.boolean b)
  | integer (i : Int64) : Mirrors (.integer i) (.integer i.toInt)
  | large {n : Int} (h : ∀ i : Int64, i.toInt ≠ n) : Mirrors (.float (.ofInt n)) (.integer n)
  | float (x : Float) : Mirrors (.float x) (.float x)
  | string (s : String) : Mirrors (.string s) (.string s)
  | list {vs : List Value} {js : List Json} (hlength : vs.length = js.length)
      (h : ∀ k (hk : k < js.length) (hk' : k < vs.length), Mirrors vs[k] js[k]) :
      Mirrors (.list vs) (.array js)

/-- What is read mirrors its tree. -/
theorem mirrors_of_ofJson {j : Json} {v : Value} (h : ofJson j = .ok v) : v.Mirrors j := by
  induction j using Json.byItems generalizing v with
  | null => cases h; exact .null
  | boolean b => cases h; exact .boolean b
  | integer n =>
      rw [ofJson] at h
      cases hn : int64? n with
      | some i =>
          rw [hn] at h
          obtain rfl := int64?_eq_some_iff.1 hn
          cases h
          exact .integer i
      | none =>
          rw [hn] at h
          cases h
          exact .large (int64?_eq_none_iff.1 hn)
  | float x => cases h; exact .float x
  | string s => cases h; exact .string s
  | array items ih =>
      rw [ofJson, ofJsonAll_eq_mapM] at h
      obtain ⟨vs, hvs, rfl⟩ := map_eq_ok_iff.1 h
      obtain ⟨hlength, hitems⟩ := (mapM_eq_ok_iff ofJson items vs).1 hvs
      exact .list hlength fun k hk hk' => ih _ (List.getElem_mem hk) (hitems k hk hk')
  | object members => cases h

/-- What mirrors a tree is read from it. -/
theorem Mirrors.ofJson_eq {v : Value} {j : Json} (h : v.Mirrors j) : ofJson j = .ok v := by
  induction h with
  | null | boolean _ | float _ | string _ => rfl
  | integer i => rw [ofJson, int64?_eq_some_iff.2 rfl]
  | large h => rw [ofJson, int64?_eq_none_iff.2 h]
  | list hlength _ ih =>
      rw [ofJson, ofJsonAll_eq_mapM, (mapM_eq_ok_iff ofJson _ _).2 ⟨hlength, ih⟩]
      rfl

end Value

/-! ## Objects -/

/-- An object stands in a tree, at whatever depth. -/
inductive Json.HasObject : Json → Prop
  | object (members : List (String × Json)) : HasObject (.object members)
  | array {items : List Json} {j : Json} (hj : j ∈ items) (h : HasObject j) :
      HasObject (.array items)

namespace Value

/-- **Objects are refused**, at whatever depth they stand, and nothing else is. -/
theorem ofJson_eq_error_iff {j : Json} {err : EvalError} :
    ofJson j = .error err ↔ err = .jsonObject ∧ j.HasObject := by
  induction j using Json.byItems generalizing err with
  | null | boolean _ | float _ | string _ => exact ⟨nofun, nofun⟩
  | integer n =>
      rw [ofJson]
      cases int64? n <;> exact ⟨nofun, nofun⟩
  | array items ih =>
      have hfails : ∀ e, items.mapM ofJson = .error e →
          e = .jsonObject ∧ (Json.array items).HasObject := by
        intro e h
        obtain ⟨k, hk, hfail, -⟩ := (mapM_eq_error_iff ofJson items e).1 h
        obtain ⟨he, hobject⟩ := (ih _ (List.getElem_mem hk)).1 hfail
        exact ⟨he, .array (List.getElem_mem hk) hobject⟩
      rw [ofJson, ofJsonAll_eq_mapM]
      refine map_eq_error_iff.trans ⟨hfails err, ?_⟩
      rintro ⟨rfl, hobject⟩
      -- the item with the object need not be the first one that fails
      cases hitems : items.mapM ofJson with
      | error e => rw [(hfails e hitems).1]
      | ok vs =>
          cases hobject with
          | array hj hobject =>
              obtain ⟨k, hk, rfl⟩ := List.getElem_of_mem hj
              obtain ⟨hlength, hok⟩ := (mapM_eq_ok_iff ofJson items vs).1 hitems
              have hfail := (ih _ hj).2 ⟨rfl, hobject⟩
              rw [hok k hk (hlength ▸ hk)] at hfail
              cases hfail
  | object members =>
      constructor
      · intro h
        cases h
        exact ⟨rfl, .object members⟩
      · rintro ⟨rfl, -⟩
        rfl

/-! ## What is common -/

/-- The values that JSON tells apart: without decimals, moments and floats that are not finite. -/
inductive Common : Value → Prop
  | null : Common .null
  | boolean (b : Bool) : Common (.boolean b)
  | integer (i : Int64) : Common (.integer i)
  | float {x : Float} (h : x.isFinite = true) : Common (.float x)
  | string (s : String) : Common (.string s)
  | list {items : List Value} (h : ∀ v ∈ items, Common v) : Common (.list items)

/-- What is common mirrors its tree. -/
theorem Common.mirrors_toJson {v : Value} (h : v.Common) : v.Mirrors v.toJson := by
  induction h with
  | null => exact .null
  | boolean b => exact .boolean b
  | integer i => exact .integer i
  | @float x h =>
      rw [toJson, if_pos h]
      exact .float x
  | string s => exact .string s
  | @list items _ ih =>
      rw [toJson, toJsonAll_eq_map]
      refine .list (by simp) fun k hk hk' => ?_
      rw [List.getElem_map]
      exact ih _ (List.getElem_mem hk')

end Value

/-- Every number of a tree is an integer that fits into a word, or a finite float. -/
inductive Json.NumbersFit : Json → Prop
  | null : NumbersFit .null
  | boolean (b : Bool) : NumbersFit (.boolean b)
  | integer (i : Int64) : NumbersFit (.integer i.toInt)
  | float {x : Float} (h : x.isFinite = true) : NumbersFit (.float x)
  | string (s : String) : NumbersFit (.string s)
  | array {items : List Json} (h : ∀ j ∈ items, NumbersFit j) : NumbersFit (.array items)
  | object {members : List (String × Json)} (h : ∀ m ∈ members, NumbersFit m.2) :
      NumbersFit (.object members)

namespace Value

/-- A value that mirrors a tree whose numbers all fit has this tree. -/
theorem Mirrors.toJson_eq {v : Value} {j : Json} (h : v.Mirrors j) (hfit : j.NumbersFit) :
    v.toJson = j := by
  induction h with
  | null | boolean _ | integer _ | string _ => rfl
  | large h =>
      cases hfit with
      | integer i => exact absurd rfl (h i)
  | float x =>
      cases hfit with
      | float hfinite => rw [toJson, if_pos hfinite]
  | @list vs js hlength _ ih =>
      cases hfit with
      | array hall =>
          rw [toJson, toJsonAll_eq_map]
          congr 1
          apply List.ext_getElem
          · rw [List.length_map, hlength]
          · intro k hk hk'
            rw [List.getElem_map]
            exact ih k hk' (hlength ▸ hk') (hall _ (List.getElem_mem hk'))

/-- **Values and JSON trees agree on what they have in common.**  A value without decimals, moments
and floats that are not finite is read back from its tree.  A tree is refused exactly if an object
stands in it, as a value of the wrong type; otherwise it is read as a value that is built like it,
and this has the same tree again if all the numbers fit. -/
theorem ofJson_lossless :
    (∀ v : Value, v.Common → ofJson v.toJson = .ok v) ∧
    (∀ (j : Json) (err : EvalError), ofJson j = .error err ↔ err = .jsonObject ∧ j.HasObject) ∧
    (∀ j : Json, ¬ j.HasObject → ∃ v : Value, ofJson j = .ok v ∧ v.Mirrors j ∧
      (j.NumbersFit → v.toJson = j)) ∧
    EvalError.jsonObject.message = "Type error: expected scalar or array, got object" := by
  refine ⟨fun v hv => hv.mirrors_toJson.ofJson_eq, fun j err => ofJson_eq_error_iff, ?_, rfl⟩
  intro j hobject
  cases hj : ofJson j with
  | error err => exact absurd (ofJson_eq_error_iff.1 hj).2 hobject
  | ok v =>
      have hmirrors := mirrors_of_ofJson hj
      exact ⟨v, rfl, hmirrors, hmirrors.toJson_eq⟩

/-- An integer and the float that is equal to it, at two depths. -/
def twos : Value := .list [.integer 2, .list [.float 2.0, .null]]

def twosTree : Json := .array [.integer 2, .array [.float 2.0, .null]]

theorem ofJson_lossless_twos :
    (twos.Common ∧ ¬ twosTree.HasObject ∧ twosTree.NumbersFit) ∧
    ofJson twos.toJson = .ok twos ∧
    (∃ v : Value, ofJson twosTree = .ok v ∧ v.toJson = twosTree) ∧
    ofJson (.array [twosTree, .array [.object []], .null]) = .error .jsonObject := by
  have hfinite : (2.0 : Float).isFinite = true := by decide +kernel
  have hcommon : twos.Common := by
    refine .list (List.forall_mem_cons.2 ⟨.integer 2, List.forall_mem_singleton.2 (.list ?_)⟩)
    exact List.forall_mem_cons.2 ⟨.float hfinite, List.forall_mem_singleton.2 .null⟩
  have hfit : twosTree.NumbersFit := by
    refine .array (List.forall_mem_cons.2 ⟨.integer 2, List.forall_mem_singleton.2 (.array ?_)⟩)
    exact List.forall_mem_cons.2 ⟨.float hfinite, List.forall_mem_singleton.2 .null⟩
  have hnone : ¬ twosTree.HasObject := by
    intro h
    rcases h with _ | ⟨hj, h⟩
    simp only [List.mem_cons, List.not_mem_nil, or_false] at hj
    rcases hj with rfl | rfl
    · cases h
    · rcases h with _ | ⟨hj, h⟩
      simp only [List.mem_cons, List.not_mem_nil, or_false] at hj
      rcases hj with rfl | rfl <;> cases h
  obtain ⟨hvalues, herrors, htrees, -⟩ := ofJson_lossless
  obtain ⟨v, hv, -, hback⟩ := htrees twosTree hnone
  refine ⟨⟨hcommon, hnone, hfit⟩, hvalues twos hcommon, ⟨v, hv, hback hfit⟩, ?_⟩
  have hobject : (Json.array [.object []]).HasObject := .array List.mem_cons_self (.object [])
  exact (herrors _ _).2 ⟨rfl, .array (by simp) hobject⟩

end Value

end FormulaEngine
