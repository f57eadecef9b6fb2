import FormulaEngine.Evaluation.Parameters

/-!
# Parameters in slots

The entries of a parameter map stand in slots, each under the key that it is found by.  The key is
the name itself, or its lowercase form where case is ignored; the entry keeps the spelling of the
name.  Keys are not computed again when an entry is looked for, so every operation has to leave the
right ones.

* `ParameterTable.insert`, `ParameterTable.remove` -- they also answer with the value that was
  there before;
* `ParameterTable.setIgnoreCase` -- puts the entries under their keys by the other rule;
* `ParameterTable.answer`, `ParameterTable.after` -- what an operation answers and leaves;
* `ParameterTable.afterAll` -- the table after a run of operations.
-/

namespace FormulaEngine

/-- An entry under the key that it is found by. -/
structure Slot where
  key : String
  entry : String × Value

/-- An entry put under a key, in place of the one that stands there; also that one.  A new key is
appended. -/
def putSlot (key : String) (entry : String × Value) :
    List Slot → Option (String × Value) × List Slot
  | [] => (none, [⟨key, entry⟩])
  | slot :: rest =>
    if slot.key == key then (some slot.entry, ⟨slot.key, entry⟩ :: rest)
    else
      let (old, rest) := putSlot key entry rest
      (old, slot :: rest)

/-- The slot of a key taken out; also its entry. -/
def takeSlot (key : String) : List Slot → Option (String × Value) × List Slot
  | [] => (none, [])
  | slot :: rest =>
    if slot.key == key then (some slot.entry, rest)
    else
      let (old, rest) := takeSlot key rest
      (old, slot :: rest)

/-- The entries of a parameter map in their slots. -/
structure ParameterTable where
  slots : List Slot := []
  ignoreCase : Bool := false

namespace ParameterTable

/-- What a name is found by. -/
def key (t : ParameterTable) (name : String) : String := foldName t.ignoreCase name

/-- The value of a name. -/
def get? (t : ParameterTable) (name : String) : Option Value :=
  (t.slots.find? (·.key == t.key name)).map (·.entry.2)

/-- Whether a name has a value. -/
def contains (t : ParameterTable) (name : String) : Bool := t.slots.any (·.key == t.key name)

/-- A name set to a value; also the value that it had. -/
def insert (t : ParameterTable) (name : String) (value : Value) : Option Value × ParameterTable :=
  let (old, slots) := putSlot (t.key name) (name, value) t.slots
  (old.map (·.2), { t with slots })

/-- A name taken out; also the value that it had. -/
def remove (t : ParameterTable) (name : String) : Option Value × ParameterTable :=
  let (old, slots) := takeSlot (t.key name) t.slots
  (old.map (·.2), { t with slots })

/-- Many names set, from left to right. -/
def extend (t : ParameterTable) (entries : List (String × Value)) : ParameterTable :=
  entries.foldl (fun t (name, value) => (t.insert name value).2) t

/-- The table that regards case with the given entries. -/
def collect (entries : List (String × Value)) : ParameterTable :=
  ({} : ParameterTable).extend entries

/-- The entries in their order. -/
def entries (t : ParameterTable) : List (String × Value) := t.slots.map (·.entry)

/-- The table under a rule for the case of names.  If the rule is another one, every entry is put
under its new key, from left to right. -/
def setIgnoreCase (t : ParameterTable) (ignoreCase : Bool) : ParameterTable :=
  if t.ignoreCase = ignoreCase then t
  else ({ ignoreCase } : ParameterTable).extend t.entries

/-- The names in their order. -/
def names (t : ParameterTable) : List String := t.slots.map (·.entry.1)

/-- The number of entries. -/
def size (t : ParameterTable) : Nat := t.slots.length

/-- Whether there are no entries. -/
def isEmpty (t : ParameterTable) : Bool := t.slots.isEmpty

/-- What changes a table. -/
inductive Step where
  | insert (name : String) (value : Value)
  | remove (name : String)
  | extend (entries : List (String × Value))
  /-- begin anew with some entries -/
  | collect (entries : List (String × Value))
  | setIgnoreCase (ignoreCase : Bool)

/-- The table after an operation. -/
def after (t : ParameterTable) : Step → ParameterTable
  | .insert name value => (t.insert name value).2
  | .remove name => (t.remove name).2
  | .extend entries => t.extend entries
  | .collect entries => collect entries
  | .setIgnoreCase ignoreCase => t.setIgnoreCase ignoreCase

/-- What an operation answers: the value that a name had before. -/
def answer (t : ParameterTable) : Step → Option Value
  | .insert name value => (t.insert name value).1
  | .remove name => (t.remove name).1
  | .extend _ | .collect _ | .setIgnoreCase _ => none

/-- The table after a run of operations. -/
def afterAll (t : ParameterTable) (steps : List Step) : ParameterTable := steps.foldl after t

end ParameterTable

end FormulaEngine
