import FormulaEngine.Formula.Cache

/-!
# A cache and the trees that are held

A shelf is a cache together with the named trees that are held outside of it.  Which trees are
held decides which entries of the cache count.

* `Shelf.Step` -- what can be done with a shelf; a tree that is answered is held under a name, or
  dropped at once;
* `Shelf.afterAll` -- the shelf after a run of steps.
-/

namespace FormulaEngine

/-- A cache and named trees. -/
structure Shelf where
  cache : FormulaCache := {}
  trees : List (String × SharedTree) := []

namespace Shelf

/-- Whether a tree is on the shelf. -/
def holds (s : Shelf) (id : Nat) : Bool := s.trees.any (·.2.id == id)

/-- The names that a tree is held under. -/
def namesOf (s : Shelf) (t : SharedTree) : List String :=
  (s.trees.filter (·.2.id == t.id)).map (·.1)

/-- The shelf without the tree of a name. -/
def drop (s : Shelf) (name : String) : Shelf :=
  { s with trees := s.trees.filter (·.1 != name) }

/-- The shelf with a tree held under a name, in the place of another. -/
def hold (s : Shelf) (name : String) (t : SharedTree) : Shelf :=
  { s with trees := (name, t) :: (s.drop name).trees }

/-- The tree of a text, through the cache. -/
def compile (s : Shelf) (text : String) (bypass : Bool) :
    Except (List SyntaxError) SharedTree × Shelf :=
  let (outcome, cache) := s.cache.compile s.holds text bypass
  (outcome, { s with cache })

/-- The tree that the cache has for a text. -/
def get? (s : Shelf) (text : String) : Option SharedTree := s.cache.get? s.holds text

/-- Remove the dead entries of the cache; also their number. -/
def prune (s : Shelf) : Nat × Shelf :=
  let (removed, cache) := s.cache.prune s.holds
  (removed, { s with cache })

/-- Remove all entries of the cache. -/
def clear (s : Shelf) : Shelf := { s with cache := s.cache.clear }

/-- Switch the cache on or off. -/
def setEnabled (s : Shelf) (enabled : Bool) : Shelf :=
  { s with cache := s.cache.setEnabled enabled }

/-- The shelf with a tree held under a name, if there are both. -/
def keep (s : Shelf) (name? : Option String) (t? : Option SharedTree) : Shelf :=
  match name?, t? with
  | some name, some t => s.hold name t
  | _, _ => s

/-- What can be done with a shelf. -/
inductive Step where
  | compile (text : String) (bypass : Bool) (name? : Option String)
  | get (text : String) (name? : Option String)
  /-- hold the tree of a name under another one as well -/
  | share (name other : String)
  | drop (name : String)
  | prune
  | clear
  | setEnabled (enabled : Bool)

/-- The tree that a step answers with. -/
def answer? (s : Shelf) : Step → Option SharedTree
  | .compile text bypass _ => (s.compile text bypass).1.toOption
  | .get text _ => s.get? text
  | .share name _ => s.trees.lookup name
  | _ => none

/-- The shelf after a step. -/
def after (s : Shelf) : Step → Shelf
  | .compile text bypass name? =>
    let (outcome, s) := s.compile text bypass
    s.keep name? outcome.toOption
  | .get text name? => s.keep name? (s.get? text)
  | .share name other => s.keep (some other) (s.trees.lookup name)
  | .drop name => s.drop name
  | .prune => s.prune.2
  | .clear => s.clear
  | .setEnabled enabled => s.setEnabled enabled

/-- The shelf after a run of steps. -/
def afterAll (s : Shelf) (steps : List Step) : Shelf := steps.foldl after s

end Shelf

end FormulaEngine
