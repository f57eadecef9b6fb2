import FormulaEngine.Text.Lowercase
import FormulaEngine.Value.Basic

/-!
# Parameters

Named values in the order of their insertion.  A map may ignore the case of names: names with
the same lowercase form then share one entry, which keeps the spelling that came last.  That no
two entries have names that mean the same is part of the type.

* `insert` replaces an entry in its place, or appends one;
* `setIgnoreCase` inserts the entries again under the other rule, so that of entries that fall
  together the last one stays, in the place of the first.
-/

namespace FormulaEngine

/-- What a name is compared by: itself, or its lowercase form where case is ignored. -/
def foldName (ignoreCase : Bool) (name : String) : String :=
  if ignoreCase then lowercase name else name

/-- Named values in the order of their insertion; no two names mean the same entry. -/
structure Parameters where
  entries : List (String × Value)
  ignoreCase : Bool
  distinct : (entries.map fun entry => foldName ignoreCase entry.1).Nodup

namespace Parameters

/-- No parameters. -/
def empty (ignoreCase : Bool) : Parameters := ⟨[], ignoreCase, List.nodup_nil⟩

instance : Inhabited Parameters := ⟨empty false⟩

/-- What a name is compared by. -/
def key (p : Parameters) (name : String) : String := foldName p.ignoreCase name

/-- Whether two names mean the same entry. -/
def agree (p : Parameters) (a b : String) : Bool := p.key a == p.key b

/-- The value of a name. -/
def get? (p : Parameters) (name : String) : Option Value :=
  (p.entries.find? fun entry => p.agree entry.1 name).map (·.2)

/-- Whether a name has a value. -/
def contains (p : Parameters) (name : String) : Bool := (p.get? name).isSome

/-- The entries with the first one that passes a test replaced by a new one, which is appended
if there is none. -/
def replaceFirst (test : String → Bool) (new : String × Value) :
    List (String × Value) → List (String × Value)
  | [] => [new]
  | entry :: rest => if test entry.1 then new :: rest else entry :: replaceFirst test new rest

private theorem map_replaceFirst (fold : String → String) (name : String) (value : Value)
    (entries : List (String × Value)) :
    (replaceFirst (fold · == fold name) (name, value) entries).map (fold ·.1) =
      if fold name ∈ entries.map (fold ·.1) then entries.map (fold ·.1)
      else entries.map (fold ·.1) ++ [fold name] := by
  induction entries with
  | nil => rfl
  | cons entry rest ih =>
    by_cases h : fold entry.1 = fold name
    · simp [replaceFirst, h]
    · have hne : fold name ≠ fold entry.1 := fun h' => h h'.symm
      simp only [replaceFirst, beq_iff_eq, h, if_false, List.map_cons, ih, List.mem_cons, hne,
        false_or]
      split <;> rfl

/-- The map with a name set to a value, in its old place if it had one. -/
def insert (p : Parameters) (name : String) (value : Value) : Parameters where
  entries := replaceFirst (p.agree · name) (name, value) p.entries
  ignoreCase := p.ignoreCase
  distinct := by
    have hkeys := map_replaceFirst (foldName p.ignoreCase) name value p.entries
    refine hkeys ▸ ?_
    split
    · exact p.distinct
    · next h => exact List.nodup_append.2 ⟨p.distinct, by simp, by grind⟩

/-- The map with many names set, from left to right. -/
def insertAll (p : Parameters) (entries : List (String × Value)) : Parameters :=
  entries.foldl (fun p (name, value) => p.insert name value) p

/-- The map without a name; the others keep their order. -/
def erase (p : Parameters) (name : String) : Parameters :=
  { p with
    entries := p.entries.eraseP fun entry => p.agree entry.1 name
    distinct := p.distinct.sublist (List.eraseP_sublist.map _) }

/-- The map under a rule for the case of names. -/
def setIgnoreCase (p : Parameters) (ignoreCase : Bool) : Parameters :=
  if p.ignoreCase = ignoreCase then p else (empty ignoreCase).insertAll p.entries

/-- The map that regards case with the given entries. -/
def ofList (entries : List (String × Value)) : Parameters := (empty false).insertAll entries

/-- The number of entries. -/
def size (p : Parameters) : Nat := p.entries.length

/-- Whether there are no entries. -/
def isEmpty (p : Parameters) : Bool := p.entries.isEmpty

/-- The names in their order. -/
def names (p : Parameters) : List String := p.entries.map (·.1)

/-- Insertion leaves the rule for names alone. -/
@[simp]
theorem ignoreCase_insert (p : Parameters) (name : String) (value : Value) :
    (p.insert name value).ignoreCase = p.ignoreCase := rfl

end Parameters

end FormulaEngine
