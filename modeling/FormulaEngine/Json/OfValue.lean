import FormulaEngine.Evaluation.EvalError
import FormulaEngine.Json.Basic

/-!
# Values as JSON

Every value has a JSON tree: decimals and moments become strings, floats that are not finite
become null.  Every JSON tree without objects is a value: numbers that fit become integers, the
others floats.

* `Value.toJsonAll_eq_map`, `Value.ofJsonAll_eq_mapM` -- lists are converted item by item.
-/

namespace FormulaEngine

namespace Value

mutual

/-- The JSON tree of a value. -/
def toJson : Value → Json
  | null => .null
  | boolean b => .boolean b
  | integer i => .integer i.toInt
  | decimal d => .string d.text
  | float x => if x.isFinite then .float x else .null
  | string s => .string s
  | moment m => .string m.exactText
  | list items => .array (toJsonAll items)

/-- The JSON trees of several values. -/
def toJsonAll : List Value → List Json
  | [] => []
  | v :: rest => toJson v :: toJsonAll rest

end

mutual

/-- The value of a JSON tree. -/
def ofJson : Json → Except EvalError Value
  | .null => .ok null
  | .boolean b => .ok (boolean b)
  | .integer n =>
    match int64? n with
    | some i => .ok (integer i)
    | none => .ok (float (Float.ofInt n))
  | .float x => .ok (float x)
  | .string s => .ok (string s)
  | .array items => (ofJsonAll items).map list
  | .object _ => .error .jsonObject

/-- The values of several JSON trees. -/
def ofJsonAll : List Json → Except EvalError (List Value)
  | [] => .ok []
  | j :: rest => do
    let v ← ofJson j
    let vs ← ofJsonAll rest
    .ok (v :: vs)

end

/-- The trees of several values, one by one. -/
theorem toJsonAll_eq_map (items : List Value) : toJsonAll items = items.map toJson := by
  induction items with
  | nil => rw [toJsonAll, List.map_nil]
  | cons v rest ih => rw [toJsonAll, List.map_cons, ih]

/-- The values of several trees, one by one. -/
theorem ofJsonAll_eq_mapM (items : List Json) : ofJsonAll items = items.mapM ofJson := by
  induction items with
  | nil => rw [ofJsonAll, List.mapM_nil]; rfl
  | cons j rest ih => rw [ofJsonAll, List.mapM_cons, ih]; rfl

end Value

end FormulaEngine
