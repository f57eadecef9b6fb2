import FormulaEngine.Evaluation.BuiltinCall
import FormulaEngine.Proofs.WholeDecimals
import Mathlib.Algebra.Order.Field.Rat
import Mathlib.Order.Compare
import Mathlib.Tactic.Common
import Mathlib.Tactic.FieldSimp
import Mathlib.Tactic.Positivity

/-!
# Laws of equality and order

Values are compared by two functions, one for equality and one for order, and both bring two numbers
to a common sort first.  They agree with each other in both argument orders.  Without floats nothing
is lost on the way to the common sort, so that equality is an equivalence and the order is total and
transitive.

* `Value.order_eq_ok_iff`, `Value.equals_iff` -- which values have an order, and which are equal;
* `Value.order_swap`, `Value.equals_comm` -- the operands may change places;
* `Value.equals_iff_order` -- equality is what the order says;
* `Value.order_of_exact` -- integers and decimals are ordered by their exact values;
* `Value.equals_iff_worth?` -- without floats, values are equal when they stand for the same;
* `Value.order_laws` -- all of this, for the operators, `Max` and `Min` too.
-/

namespace FormulaEngine

/-! ## Numbers of a common sort -/

open Float.Model (UnpackedFloat) in
private theorem unpacked_compare_swap (x y : UnpackedFloat) :
    y.compare x = (x.compare y).map Ordering.swap := by
  have hmagnitude (e f : Int) (m n : Nat) :
      (compare f e).then (compare n m) = ((compare e f).then (compare m n)).swap := by
    rw [Ordering.swap_then, Int.compare_swap, Nat.compare_swap]
  -- All but two finite numbers of one sign are compared by what they are.
  rcases x with (_ | _) | _ | (_ | _) | ⟨_ | _, m, e, hm⟩ <;>
    rcases y with (_ | _) | _ | (_ | _) | ⟨_ | _, n, f, hn⟩ <;>
    try rfl
  · exact congrArg (fun order => some order.swap) (hmagnitude e f m n)
  · exact congrArg some (hmagnitude e f m n)

namespace NumberPair

/-- Two floats are equal exactly if their order says so. -/
private theorem float_equal_iff (a b : Float) :
    (a == b) = true ↔ a.toModel.unpack.compare b.toModel.unpack = some .eq := by
  change (a.toModel.unpack.compare b.toModel.unpack == some .eq) = true ↔ _
  exact beq_iff_eq

private theorem float_less_iff (a b : Float) :
    a < b ↔ a.toModel.unpack.compare b.toModel.unpack = some .lt := by
  change Float.lt a b = true ↔ _
  rw [Float.lt, decide_eq_true_iff]
  change (a.toModel.unpack.compare b.toModel.unpack == some .lt) = true ↔ _
  exact beq_iff_eq

/-- Two floats stand in the order of what their bits stand for. -/
private theorem compareFloats_eq (a b : Float) :
    compareFloats a b = a.toModel.unpack.compare b.toModel.unpack := by
  unfold compareFloats
  simp only [float_less_iff, float_equal_iff, gt_iff_lt]
  rw [unpacked_compare_swap a.toModel.unpack]
  cases a.toModel.unpack.compare b.toModel.unpack with
  | none => rfl
  | some order => cases order <;> rfl

/-- The same two numbers in the other order. -/
def swap : NumberPair → NumberPair
  | integers a b => integers b a
  | decimals a b => decimals b a
  | floats a b => floats b a

/-- The order of two numbers is reversed with them. -/
theorem order_swap (pair : NumberPair) : pair.swap.order = pair.order.map Ordering.swap := by
  cases pair with
  | integers a b => exact congrArg some (Int.compare_swap _ _).symm
  | decimals a b =>
      simp only [swap, order, Decimal.compare, Option.map_some, Int.compare_swap, Nat.max_comm]
  | floats a b =>
      simp only [swap, order, compareFloats_eq]
      exact unpacked_compare_swap _ _

/-- Two numbers are equal exactly if their order says so. -/
theorem equal_iff (pair : NumberPair) : pair.equal = true ↔ pair.order = some .eq := by
  cases pair with
  | integers a b => simp [equal, order, Int64.toInt_inj]
  | decimals a b =>
      change (a.compare b == .eq) = true ↔ some (a.compare b) = some .eq
      simp
  | floats a b => rw [order, compareFloats_eq, equal, float_equal_iff]

/-- Equality of two numbers does not see which one is the first. -/
theorem equal_swap (pair : NumberPair) : pair.swap.equal = pair.equal := by
  rw [Bool.eq_iff_iff, equal_iff, equal_iff, order_swap]
  cases pair.order with
  | none => simp
  | some order => cases order <;> simp

end NumberPair

/-- The common sort of two numbers does not depend on which one is the first. -/
theorem promote?_swap (v w : Value) : promote? w v = (promote? v w).map NumberPair.swap := by
  cases v <;> cases w <;> rfl

/-- Moments are compared field by field. -/
private theorem Moment.compare_eq_compareLex : Moment.compare =
    compareLex (compareOn Moment.year) (compareLex (compareOn Moment.month)
      (compareLex (compareOn Moment.day) (compareLex (compareOn Moment.hour)
        (compareLex (compareOn Moment.minute)
          (compareLex (compareOn Moment.second) (compareOn Moment.nanosecond)))))) := rfl

instance : Std.TransCmp Moment.compare := by
  rw [Moment.compare_eq_compareLex]
  infer_instance

instance : Std.TransOrd Moment := inferInstanceAs (Std.TransCmp Moment.compare)

/-! ## Operands that change places -/

namespace Value

/-- **Which values have an order**, and which one: two numbers, two strings, two moments and two
booleans. -/
theorem order_eq_ok_iff {l r : Value} {o : Option Ordering} :
    l.order r = .ok o ↔
      (∃ pair, promote? l r = some pair ∧ o = pair.order) ∨
      (∃ s t, l = .string s ∧ r = .string t ∧ o = some (compare s t)) ∨
      (∃ m n, l = .moment m ∧ r = .moment n ∧ o = some (m.compare n)) ∨
      (∃ a b, l = .boolean a ∧ r = .boolean b ∧ o = some (compare a b)) := by
  cases l <;> cases r <;> simp [order, promote?, eq_comm]

/-- The order of two values is reversed with them. -/
theorem order_swap {l r : Value} {o : Option Ordering} (h : l.order r = .ok o) :
    r.order l = .ok (o.map Ordering.swap) := by
  rcases order_eq_ok_iff.1 h with ⟨pair, hpair, rfl⟩ | ⟨s, t, rfl, rfl, rfl⟩ |
    ⟨m, n, rfl, rfl, rfl⟩ | ⟨a, b, rfl, rfl, rfl⟩
  · rw [← pair.order_swap]
    apply order_of_promote?
    rw [promote?_swap, hpair]
    rfl
  · rw [Option.map_some, ← Std.OrientedOrd.eq_swap]
    rfl
  · have hswap : n.compare m = (m.compare n).swap := Std.OrientedCmp.eq_swap
    rw [Option.map_some, ← hswap]
    rfl
  · rw [Option.map_some, ← Std.OrientedOrd.eq_swap]
    rfl

/-- Neither of two values can be compared with the other, or both can. -/
theorem order_fails_iff {l r : Value} :
    (∃ e, r.order l = .error e) ↔ ∃ e, l.order r = .error e := by
  suffices h : ∀ v w : Value, (∃ e, v.order w = .error e) → ∃ e, w.order v = .error e from
    ⟨h r l, h l r⟩
  intro v w hfails
  obtain ⟨e, he⟩ := hfails
  cases hback : w.order v with
  | error e' => exact ⟨e', rfl⟩
  | ok o => exact nomatch he.symm.trans (order_swap hback)

/-- **Which values are equal**: numbers of a common sort, lists item by item, and otherwise only a
value and itself. -/
theorem equals_iff {l r : Value} :
    l.equals r = true ↔
      (∃ pair, promote? l r = some pair ∧ pair.equal = true) ∨
      (∃ as bs, l = .list as ∧ r = .list bs ∧ equalsAll as bs = true) ∨
      (l = r ∧ l.kind ∈ [.null, .boolean, .string, .moment]) := by
  have hsame (v w : Value) : (v == w) = v.same w := rfl
  cases l <;> cases r <;> simp [equals, promote?, kind, hsame, same]

/-- **Equality is what the order says**, where there is one. -/
theorem equals_iff_order {l r : Value} {o : Option Ordering} (h : l.order r = .ok o) :
    l.equals r = true ↔ o = some .eq := by
  rcases order_eq_ok_iff.1 h with ⟨pair, hpair, rfl⟩ | ⟨s, t, rfl, rfl, rfl⟩ |
    ⟨m, n, rfl, rfl, rfl⟩ | ⟨a, b, rfl, rfl, rfl⟩
  · rw [equals_of_promote? hpair, pair.equal_iff]
  · simp [equals_iff, promote?, kind]
  · simp [equals_iff, promote?, kind, Moment.compare_eq_iff]
  · simp [equals_iff, promote?, kind]

/-- What holds of a list if it holds of its items, and of all other values, holds of every value. -/
@[elab_as_elim]
theorem byItems {motive : Value → Prop} (leaf : ∀ v, v.kind ≠ .list → motive v)
    (list : ∀ items, (∀ v ∈ items, motive v) → motive (.list items)) (v : Value) : motive v := by
  cases v with
  | list items => exact list items fun v _ => byItems leaf list v
  | _ => exact leaf _ (by simp [kind])
termination_by sizeOf v
decreasing_by
  have hlt := List.sizeOf_lt_of_mem ‹_ ∈ _›
  simp only [Value.list.sizeOf_spec]
  omega

private theorem equalsAll_symm {as : List Value}
    (ih : ∀ a ∈ as, ∀ r : Value, a.equals r = true → r.equals a = true) :
    ∀ {bs : List Value}, equalsAll as bs = true → equalsAll bs as = true := by
  induction as with
  | nil =>
      intro bs h
      cases bs with
      | nil => rfl
      | cons b bs => exact nomatch h
  | cons a as ihtail =>
      intro bs h
      cases bs with
      | nil => exact nomatch h
      | cons b bs =>
          rw [equalsAll, Bool.and_eq_true] at h ⊢
          exact ⟨ih a List.mem_cons_self b h.1,
            ihtail (fun d hd => ih d (List.mem_cons_of_mem a hd)) h.2⟩

/-- Equality does not see which value is the first, floats and lists included. -/
theorem equals_symm {l r : Value} (h : l.equals r = true) : r.equals l = true := by
  induction l using byItems generalizing r with
  | leaf l hl =>
      rcases equals_iff.1 h with ⟨pair, hpair, hequal⟩ | ⟨as, bs, rfl, -, -⟩ | ⟨rfl, -⟩
      · refine equals_iff.2 (.inl ⟨pair.swap, ?_, pair.equal_swap.trans hequal⟩)
        rw [promote?_swap, hpair]
        rfl
      · exact absurd rfl hl
      · exact h
  | list as ih =>
      rcases equals_iff.1 h with ⟨pair, hpair, -⟩ | ⟨_, bs, hlist, rfl, hall⟩ | ⟨-, hkind⟩
      · simp [promote?] at hpair
      · cases hlist
        exact equals_iff.2 (.inr (.inl ⟨bs, as, rfl, rfl, equalsAll_symm ih hall⟩))
      · simp [kind] at hkind

/-- **Equality is symmetric.** -/
theorem equals_comm (l r : Value) : r.equals l = l.equals r :=
  Bool.eq_iff_iff.2 ⟨equals_symm, equals_symm⟩

/-! ## Exact values -/

end Value

namespace Decimal

/-- The rational number that a decimal denotes. -/
def value (d : Decimal) : ℚ := d.signedAt d.scale / 10 ^ d.scale

/-- The signed coefficient at any scale that is large enough. -/
theorem signedAt_eq_value (d : Decimal) {scale : Nat} (h : d.scale ≤ scale) :
    (d.signedAt scale : ℚ) = d.value * 10 ^ scale := by
  obtain ⟨k, rfl⟩ := Nat.exists_eq_add_of_le h
  have hpower : (10 : ℚ) ^ d.scale ≠ 0 := by positivity
  rw [signedAt_mul d (Nat.le_refl _) h, value, Nat.add_sub_cancel_left]
  push_cast
  rw [pow_add]
  field_simp

/-- Decimals are compared by what they denote, whatever their scales are. -/
theorem compare_eq_value (a b : Decimal) : a.compare b = Ord.compare a.value b.value := by
  have hpower : (0 : ℚ) < 10 ^ max a.scale b.scale := by positivity
  have hscale : StrictMono fun q : ℚ => q * 10 ^ max a.scale b.scale := fun p q hpq =>
    mul_lt_mul_of_pos_right hpq hpower
  have hcast : StrictMono fun n : Int => (n : ℚ) := Int.cast_strictMono
  rw [← cmp_eq_compare, ← hscale.cmp_map_eq, ← a.signedAt_eq_value (Nat.le_max_left _ _),
    ← b.signedAt_eq_value (Nat.le_max_right _ _), hcast.cmp_map_eq, cmp_eq_compare]
  rfl

/-- A decimal that denotes an integer has it for a value. -/
theorem Denotes.value_eq {d : Decimal} {n : Int} (h : d.Denotes n) : d.value = n := by
  have hpower : (10 : ℚ) ^ d.scale ≠ 0 := by positivity
  rw [value, show d.signedAt d.scale = _ from h]
  push_cast
  field_simp

end Decimal

namespace Value

/-- The exact value of an integer or a decimal. -/
def number? : Value → Option ℚ
  | .integer i => some i.toInt
  | .decimal d => some d.value
  | _ => none

/-- **Integers and decimals are ordered by their exact values.** -/
theorem order_of_exact {l r : Value} {p q : ℚ} (hl : l.number? = some p) (hr : r.number? = some q) :
    l.order r = .ok (some (compare p q)) := by
  have hword (i : Int64) : (i.toInt : ℚ) = (Decimal.ofInt64 i).value :=
    (Decimal.ofInt64_denotes i).value_eq.symm
  have hcast : StrictMono fun n : Int => (n : ℚ) := Int.cast_strictMono
  cases l <;> cases r <;> cases hl <;> cases hr
  case integer.integer i j =>
    rw [← cmp_eq_compare, hcast.cmp_map_eq, cmp_eq_compare]
    rfl
  case integer.decimal i d =>
    rw [hword, ← Decimal.compare_eq_value]
    rfl
  case decimal.integer d i =>
    rw [hword, ← Decimal.compare_eq_value]
    rfl
  case decimal.decimal c d =>
    rw [← Decimal.compare_eq_value]
    rfl

theorem equals_of_exact {l r : Value} {p q : ℚ} (hl : l.number? = some p)
    (hr : r.number? = some q) : l.equals r = true ↔ p = q := by
  rw [equals_iff_order (order_of_exact hl hr), Option.some_inj, Std.compare_eq_iff_eq]

/-! ## Values without floats -/

/-- There is no float in the value, however deep. -/
inductive FloatFree : Value → Prop
  | null : FloatFree .null
  | boolean (b : Bool) : FloatFree (.boolean b)
  | integer (i : Int64) : FloatFree (.integer i)
  | decimal (d : Decimal) : FloatFree (.decimal d)
  | string (s : String) : FloatFree (.string s)
  | moment (m : Moment) : FloatFree (.moment m)
  | list {items : List Value} (h : ∀ v ∈ items, FloatFree v) : FloatFree (.list items)

end Value

/-- What values stand for, where integers and decimals stand for rational numbers. -/
inductive Worth where
  | null
  | boolean (b : Bool)
  | number (q : ℚ)
  | string (s : String)
  | moment (m : Moment)
  | list (items : List Worth)

namespace Value

mutual

/-- What a value without floats stands for. -/
def worth? : Value → Option Worth
  | null => some .null
  | boolean b => some (.boolean b)
  | integer i => some (.number i.toInt)
  | decimal d => some (.number d.value)
  | float _ => none
  | string s => some (.string s)
  | moment m => some (.moment m)
  | list items => (worthAll? items).map .list

/-- What the items of a list stand for. -/
def worthAll? : List Value → Option (List Worth)
  | [] => some []
  | v :: rest => do
    let x ← worth? v
    let xs ← worthAll? rest
    some (x :: xs)

end

private theorem isSome_worthAll? {items : List Value} (h : ∀ v ∈ items, v.worth?.isSome = true) :
    (worthAll? items).isSome = true := by
  induction items with
  | nil => rfl
  | cons v rest ih =>
      obtain ⟨x, hx⟩ := Option.isSome_iff_exists.1 (h v List.mem_cons_self)
      obtain ⟨xs, hxs⟩ := Option.isSome_iff_exists.1
        (ih fun w hw => h w (List.mem_cons_of_mem v hw))
      rw [worthAll?, hx, hxs]
      rfl

/-- Every value without floats stands for something. -/
theorem FloatFree.isSome_worth? {v : Value} (h : v.FloatFree) : v.worth?.isSome = true := by
  induction h with
  | list _ ih =>
      rw [worth?, Option.isSome_map]
      exact isSome_worthAll? ih
  | _ => rfl

theorem FloatFree.isSome_worthAll? {items : List Value} (h : ∀ v ∈ items, v.FloatFree) :
    (worthAll? items).isSome = true :=
  Value.isSome_worthAll? fun v hv => (h v hv).isSome_worth?

private theorem worthAll?_cons_eq_iff {a b : Value} {as bs : List Value}
    (ha : a.worth?.isSome = true) (has : (worthAll? as).isSome = true)
    (hb : b.worth?.isSome = true) (hbs : (worthAll? bs).isSome = true) :
    worthAll? (a :: as) = worthAll? (b :: bs) ↔
      a.worth? = b.worth? ∧ worthAll? as = worthAll? bs := by
  obtain ⟨x, hx⟩ := Option.isSome_iff_exists.1 ha
  obtain ⟨xs, hxs⟩ := Option.isSome_iff_exists.1 has
  obtain ⟨y, hy⟩ := Option.isSome_iff_exists.1 hb
  obtain ⟨ys, hys⟩ := Option.isSome_iff_exists.1 hbs
  simp [worthAll?, hx, hxs, hy, hys]

private theorem equalsAll_iff_worthAll? {as : List Value}
    (ih : ∀ a ∈ as, ∀ {r : Value}, r.FloatFree → (a.equals r = true ↔ a.worth? = r.worth?))
    (has : ∀ a ∈ as, a.FloatFree) :
    ∀ {bs : List Value}, (∀ b ∈ bs, b.FloatFree) →
      (equalsAll as bs = true ↔ worthAll? as = worthAll? bs) := by
  induction as with
  | nil =>
      intro bs hbs
      cases bs with
      | nil => simp [equalsAll]
      | cons b bs =>
          rw [List.forall_mem_cons] at hbs
          obtain ⟨x, hx⟩ := Option.isSome_iff_exists.1 hbs.1.isSome_worth?
          cases hall : worthAll? bs <;> simp [equalsAll, worthAll?, hx, hall]
  | cons a as ihtail =>
      intro bs hbs
      rw [List.forall_mem_cons] at ih has
      cases bs with
      | nil =>
          obtain ⟨x, hx⟩ := Option.isSome_iff_exists.1 has.1.isSome_worth?
          cases hall : worthAll? as <;> simp [equalsAll, worthAll?, hx, hall]
      | cons b bs =>
          rw [List.forall_mem_cons] at hbs
          rw [equalsAll, Bool.and_eq_true, ih.1 hbs.1, ihtail ih.2 has.2 hbs.2,
            worthAll?_cons_eq_iff has.1.isSome_worth? (FloatFree.isSome_worthAll? has.2)
              hbs.1.isSome_worth? (FloatFree.isSome_worthAll? hbs.2)]

/-- **Without floats, values are equal when they stand for the same.** -/
theorem equals_iff_worth? {l r : Value} (hl : l.FloatFree) (hr : r.FloatFree) :
    l.equals r = true ↔ l.worth? = r.worth? := by
  induction l using byItems generalizing r with
  | leaf l hlist =>
      cases hl <;> cases hr
      case integer.integer | integer.decimal | decimal.integer | decimal.decimal =>
        rw [equals_of_exact rfl rfl]
        simp [worth?]
      case list.list => exact absurd rfl hlist
      all_goals simp [equals_iff, worth?, promote?, kind]
  | list as ih =>
      cases hr with
      | list hbs =>
          cases hl with
          | list has =>
              rw [equals, equalsAll_iff_worthAll? (fun a ha r => ih a ha (has a ha)) has hbs,
                worth?, worth?, (Option.map_injective fun _ _ h => Worth.list.inj h).eq_iff]
      | _ => simp [equals_iff, worth?, promote?, kind]

/-- **Without floats, equality is an equivalence.** -/
theorem equals_equivalence :
    Equivalence fun v w : {v : Value // v.FloatFree} => v.1.equals w.1 = true where
  refl v := (equals_iff_worth? v.2 v.2).2 rfl
  symm h := equals_symm h
  trans {u v w} h h' := (equals_iff_worth? u.2 w.2).2
    (((equals_iff_worth? u.2 v.2).1 h).trans ((equals_iff_worth? v.2 w.2).1 h'))

/-! ## Total preorders -/

/-- The first value can be compared with the second and is not above it. -/
def AtMost (l r : Value) : Prop := ∃ o : Ordering, l.order r = .ok (some o) ∧ o.isLE = true

/-- On these values the order is total and transitive. -/
structure TotallyPreordered (among : Value → Prop) : Prop where
  total : ∀ u v, among u → among v → u.AtMost v ∨ v.AtMost u
  trans : ∀ u v w, among u → among v → among w → u.AtMost v → v.AtMost w → u.AtMost w

/-- Values are totally preordered if they are compared by a key with an order of its own. -/
theorem totallyPreordered_of_key {κ : Type} [Ord κ] [Std.TransOrd κ] {key : Value → κ → Prop}
    (h : ∀ {v w x y}, key v x → key w y → v.order w = .ok (some (compare x y))) :
    TotallyPreordered fun v => ∃ x, key v x := by
  have hiff {v w x y} (hv : key v x) (hw : key w y) : v.AtMost w ↔ (compare x y).isLE = true := by
    simp [AtMost, h hv hw]
  constructor
  · rintro u v ⟨x, hx⟩ ⟨y, hy⟩
    rw [hiff hx hy, hiff hy hx, Std.OrientedOrd.eq_swap (a := y)]
    cases compare x y <;> simp
  · rintro u v w ⟨x, hx⟩ ⟨y, hy⟩ ⟨z, hz⟩
    rw [hiff hx hy, hiff hy hz, hiff hx hz]
    exact Std.TransOrd.isLE_trans

/-! ## Operators and functions -/

/-- How two values may come out of a choice between them: one of them that stands in an accepted
order to the other, a `NaN` if they are not ordered, and the failure of their order. -/
structure Chosen (accept : Ordering → Bool) (l r : Value) (outcome : Except EvalError Value) :
    Prop where
  of_ordered : ∀ o, l.order r = .ok (some o) → ∃ kept other, outcome = .ok kept ∧
    ((kept = l ∧ other = r) ∨ (kept = r ∧ other = l)) ∧
    ∃ o', kept.order other = .ok (some o') ∧ accept o' = true
  of_unordered : l.order r = .ok none → outcome = .ok (.float notANumber)
  of_failure : ∀ e, l.order r = .error e → outcome = .error e

/-- A choice by an order that accepts two values, or accepts them reversed. -/
theorem chosen_extremum {accept : Ordering → Bool}
    (haccept : ∀ o, accept o = true ∨ accept o.swap = true) (l r : Value) :
    Chosen accept l r (l.extremum accept r) where
  of_ordered := by
    intro o h
    have hextremum : l.extremum accept r = .ok (if accept o then l else r) := by
      rw [extremum, h]
      rfl
    cases ho : accept o with
    | true =>
        rw [ho] at hextremum
        exact ⟨l, r, hextremum, .inl ⟨rfl, rfl⟩, o, h, ho⟩
    | false =>
        rw [ho] at hextremum
        have hback : accept o.swap = true := (haccept o).resolve_left (by simp [ho])
        exact ⟨r, l, hextremum, .inr ⟨rfl, rfl⟩, o.swap, order_swap h, hback⟩
  of_unordered := by
    intro h
    rw [extremum, h]
    rfl
  of_failure := by
    intro e h
    rw [extremum, h]
    rfl

/-- What equality, order, comparisons and extrema of two values have to do with each other. -/
structure Compared (l r : Value) : Prop where
  /-- one of the two orders fails exactly if the other does -/
  fails_iff : (∃ e, r.order l = .error e) ↔ ∃ e, l.order r = .error e
  /-- otherwise they are each other's reverse -/
  reversed : ∀ o, l.order r = .ok o → r.order l = .ok (o.map Ordering.swap)
  equals_comm : r.equals l = l.equals r
  equals_iff : ∀ o, l.order r = .ok o → (l.equals r = true ↔ o = some .eq)
  lessEqual : ∀ o, l.order r = .ok o → ∃ less equal,
    applyBinary .less l r = .ok (.boolean less) ∧ applyBinary .equal l r = .ok (.boolean equal) ∧
    applyBinary .lessEqual l r = .ok (.boolean (less || equal))
  greater : ∀ o, l.order r = .ok o → ∃ above,
    applyBinary .greater l r = .ok (.boolean above) ∧ applyBinary .less r l = .ok (.boolean above)
  max : ∀ options, Chosen (·.isGE) l r (Builtin.max.call options [l, r])
  min : ∀ options, Chosen (·.isLE) l r (Builtin.min.call options [l, r])

theorem ordered_of_order {l r : Value} {o : Option Ordering} (h : l.order r = .ok o)
    (accept : Ordering → Bool) : l.ordered accept r = .ok (.boolean (o.any accept)) := by
  rw [ordered, h]
  rfl

/-- The laws hold of any two values. -/
theorem compared (l r : Value) : Compared l r where
  fails_iff := order_fails_iff
  reversed := fun _ => order_swap
  equals_comm := Value.equals_comm l r
  equals_iff := fun _ => equals_iff_order
  lessEqual := by
    intro o h
    refine ⟨_, _, ordered_of_order h _, rfl, ?_⟩
    have hequal : l.equals r = o.any (·.isEq) := by
      rw [Bool.eq_iff_iff, equals_iff_order h]
      cases o with
      | none => simp
      | some o => simp
    rw [hequal]
    refine (ordered_of_order h _).trans ?_
    cases o with
    | none => rfl
    | some o => cases o <;> rfl
  greater := by
    intro o h
    refine ⟨_, ordered_of_order h _, (ordered_of_order (order_swap h) _).trans ?_⟩
    cases o with
    | none => rfl
    | some o => cases o <;> rfl
  max := fun options => chosen_extremum (fun o => by cases o <;> simp) l r
  min := fun options => chosen_extremum (fun o => by cases o <;> simp) l r

/-- **Equality and order obey the laws of an order.**  Of any two values, they do not depend on
which one is the first, but that the order is reversed; equality, the comparisons and the two
extrema say what the order says.  Without floats, equality is an equivalence, and the order is a
total preorder of the integers and decimals, which goes by their exact values, of the strings, of
the moments and of the booleans. -/
theorem order_laws :
    (∀ l r : Value, Compared l r) ∧
    (Equivalence fun v w : {v : Value // v.FloatFree} => v.1.equals w.1 = true) ∧
    (∀ (l r : Value) (p q : ℚ), l.number? = some p → r.number? = some q →
      l.order r = .ok (some (compare p q))) ∧
    TotallyPreordered (fun v => ∃ q, v.number? = some q) ∧
    TotallyPreordered (fun v => ∃ s, v = .string s) ∧
    TotallyPreordered (fun v => ∃ m, v = .moment m) ∧
    TotallyPreordered (fun v => ∃ b, v = .boolean b) := by
  refine ⟨compared, equals_equivalence, fun l r p q => order_of_exact,
    totallyPreordered_of_key order_of_exact, ?_, ?_, ?_⟩
  · apply totallyPreordered_of_key
    rintro _ _ s t rfl rfl
    rfl
  · apply totallyPreordered_of_key
    rintro _ _ m n rfl rfl
    rfl
  · apply totallyPreordered_of_key
    rintro _ _ a b rfl rfl
    rfl

/-- A decimal of two digits after the point. -/
def hundredths (n : Fin 1000) : Decimal :=
  ⟨false, n, 2, Nat.lt_trans n.isLt (by decide), by decide⟩

/-- The integer two is `2.00`, also within lists, and so it is below what `2.00` is below. -/
theorem order_laws_hundredths :
    (Value.decimal (hundredths 250)).order (.integer 2) = .ok (some .gt) ∧
    (Value.integer 2).order (.decimal (hundredths 250)) =
      .ok (some (compare ((2 : Int64).toInt : ℚ) (hundredths 250).value)) ∧
    (Value.list [.list [.integer 2], .null]).equals
      (.list [.list [.decimal (hundredths 200)], .null]) = true ∧
    (Value.decimal (hundredths 200)).AtMost (.integer 2) ∧
    (Value.integer 2).AtMost (.decimal (hundredths 250)) := by
  obtain ⟨hcompared, hequivalence, hexact, hnumbers, -, -, -⟩ := order_laws
  have hfree (v : Value) (hv : v.FloatFree) : (Value.list [.list [v], .null]).FloatFree := by
    refine .list fun w hw => ?_
    simp only [List.mem_cons, List.not_mem_nil, or_false] at hw
    rcases hw with rfl | rfl
    · exact .list fun u hu => (List.mem_singleton.1 hu) ▸ hv
    · exact .null
  have hback : (Value.list [.list [.decimal (hundredths 200)], .null]).equals
      (.list [.list [.integer 2], .null]) = true := rfl
  refine ⟨(hcompared (.integer 2) _).reversed (some .lt) rfl, hexact _ _ _ _ rfl rfl, ?_,
    ⟨.eq, rfl, rfl⟩, ?_⟩
  · exact hequivalence.symm (x := ⟨_, hfree _ (.decimal (hundredths 200))⟩)
      (y := ⟨_, hfree _ (.integer 2)⟩) hback
  · exact hnumbers.trans _ (.decimal (hundredths 200)) _ ⟨_, rfl⟩ ⟨_, rfl⟩ ⟨_, rfl⟩
      ⟨.eq, rfl, rfl⟩ ⟨.lt, rfl, rfl⟩

end Value

end FormulaEngine
