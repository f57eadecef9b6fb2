import FormulaEngine.Grammar.Parse

/-!
# The cache of parsed formulas

The cache remembers the trees of texts, but it does not keep a tree alive: an entry counts only
while its tree is held somewhere outside.  So the operations ask which trees are held, by the
number that every tree gets when it is made.  An entry whose tree is no longer held is dead; it is
removed by the sweep after each new entry.

* `FormulaCache.compile` -- the tree of a text, from the cache if possible;
* `FormulaCache.prune` -- the sweep;
* `FormulaCache.held_of_mem_prune` -- after the sweep the trees of all entries are held.
-/

namespace FormulaEngine

/-- A tree with the number that tells it from all other trees, equal ones included. -/
structure SharedTree where
  id : Nat
  tree : Expr

/-- The cache of parsed formulas. -/
structure FormulaCache where
  entries : List (String × SharedTree) := []
  enabled : Bool := true
  /-- look-ups that were answered -/
  hits : Nat := 0
  /-- look-ups after which a text had to be parsed -/
  misses : Nat := 0
  /-- dead entries that were removed -/
  pruned : Nat := 0
  /-- the number of the next tree -/
  fresh : Nat := 0

namespace FormulaCache

/-- A tree as a new shared one. -/
def share (c : FormulaCache) (tree : Expr) : SharedTree × FormulaCache :=
  (⟨c.fresh, tree⟩, { c with fresh := c.fresh + 1 })

/-- The tree of a text, if there is an entry and its tree is held. -/
def get? (c : FormulaCache) (held : Nat → Bool) (text : String) : Option SharedTree :=
  (c.entries.lookup text).filter fun t => held t.id

/-- The entries with that of a text replaced, or with a new one. -/
def storeEntry (text : String) (t : SharedTree) :
    List (String × SharedTree) → List (String × SharedTree)
  | [] => [(text, t)]
  | entry :: rest =>
    if entry.1 == text then (text, t) :: rest else entry :: storeEntry text t rest

/-- Remove the dead entries; also their number. -/
def prune (c : FormulaCache) (held : Nat → Bool) : Nat × FormulaCache :=
  let alive := c.entries.filter fun entry => held entry.2.id
  let removed := c.entries.length - alive.length
  (removed, { c with entries := alive, pruned := c.pruned + removed })

/-- Remove all entries. -/
def clear (c : FormulaCache) : FormulaCache := { c with entries := [] }

/-- Switch the cache on or off; switched off, it has no entries. -/
def setEnabled (c : FormulaCache) (enabled : Bool) : FormulaCache :=
  { c with enabled := enabled, entries := if enabled then c.entries else [] }

/-- A new shared tree of a text. -/
def parseShared (c : FormulaCache) (text : String) :
    Except (List SyntaxError) SharedTree × FormulaCache :=
  match parse text with
  | .error errors => (.error errors, c)
  | .ok tree =>
    let (t, c) := c.share tree
    (.ok t, c)

/-- The tree of a text: the one in the cache if there is one, else a new one, which is then
stored.  Switched off or bypassed, the cache takes no part. -/
def compile (c : FormulaCache) (held : Nat → Bool) (text : String) (bypass : Bool) :
    Except (List SyntaxError) SharedTree × FormulaCache :=
  if bypass || !c.enabled then c.parseShared text
  else
    match c.get? held text with
    | some t => (.ok t, { c with hits := c.hits + 1 })
    | none =>
      match { c with misses := c.misses + 1 }.parseShared text with
      | (.error errors, c) => (.error errors, c)
      | (.ok t, c) =>
        let stored := { c with entries := storeEntry text t c.entries }
        (.ok t, (stored.prune fun id => id == t.id || held id).2)

/-- The number of entries, dead ones included. -/
def size (c : FormulaCache) : Nat := c.entries.length

/-- The number of entries whose tree is held. -/
def liveSize (c : FormulaCache) (held : Nat → Bool) : Nat :=
  c.entries.countP fun entry => held entry.2.id

/-- The answered look-ups in percent of all. -/
def hitRate (c : FormulaCache) : Float :=
  if c.hits + c.misses = 0 then 0
  else c.hits.toFloat / (c.hits + c.misses).toFloat * 100

end FormulaCache

/-- After a sweep every entry's tree is held. -/
theorem FormulaCache.held_of_mem_prune {c : FormulaCache} {held : Nat → Bool}
    {entry : String × SharedTree} (h : entry ∈ (c.prune held).2.entries) :
    held entry.2.id = true :=
  (List.mem_filter.1 h).2

/-- A cache that is switched off takes no part in compiling. -/
theorem FormulaCache.compile_of_not_enabled {c : FormulaCache} (held : Nat → Bool)
    (text : String) (bypass : Bool) (h : c.enabled = false) :
    c.compile held text bypass = c.parseShared text := by
  simp [FormulaCache.compile, h]

end FormulaEngine
