import FormulaEngine.Evaluation.ParameterTable
import FormulaEngine.Proofs.Broadcast
import Mathlib.Data.List.Induction
import Mathlib.Data.List.Nodup

/-!
# A table of parameters is an ordered list of entries

The slots of a table hold the entries of a parameter map, each under its folded name.  This stays so
through every run of operations, and what they do and answer can be read off the list of entries.

* `Parameters.entries_insert_of_key_eq`, `Parameters.entries_insert_of_absent` -- an insertion takes
  the place of an entry, or the last one;
* `Merges` -- entries that fall together: the last of them in the place of the first;
* `ParameterTable.Edit` -- what an operation does to a list of entries, and what it answers;
* `ParameterTable.Shows` -- how a table shows a list of entries;
* `ParameterTable.after_table` -- one operation on slots and on entries;
* `ParameterTable.afterAll_refines` -- the table after a run of operations.
-/

namespace FormulaEngine

/-! ## Entries by their keys -/

namespace Parameters

variable {p : Parameters} {front tail : List (String × Value)} {old : String × Value}
  {name : String}

/-- A key has one entry. -/
theorem key_ne_of_entries_eq (h : p.entries = front ++ old :: tail) :
    ∀ e ∈ front ++ tail, p.key e.1 ≠ p.key old.1 := by
  have hnodup := p.distinct
  rw [h, List.map_append, List.map_cons] at hnodup
  have hsplit := List.nodup_middle.1 hnodup
  intro e he heq
  apply (List.nodup_cons.1 hsplit).1
  rw [← List.map_append]
  exact List.mem_map.2 ⟨e, he, heq⟩

private theorem agree_front (h : p.entries = front ++ old :: tail)
    (hkey : p.key old.1 = p.key name) : ∀ e ∈ front, p.agree e.1 name = false := by
  intro e he
  apply beq_eq_false_iff_ne.2
  rw [← hkey]
  exact key_ne_of_entries_eq h e (List.mem_append_left tail he)

/-- The name of an entry is set in the place of this entry. -/
theorem entries_insert_of_key_eq (h : p.entries = front ++ old :: tail)
    (hkey : p.key old.1 = p.key name) (value : Value) :
    (p.insert name value).entries = front ++ (name, value) :: tail := by
  have hold : p.agree old.1 name = true := beq_iff_eq.2 hkey
  change replaceFirst (p.agree · name) (name, value) p.entries = _
  rw [h]
  exact replaceFirst_append (agree_front h hkey) hold (name, value) tail

private theorem replaceFirst_of_absent {test : String → Bool} {entries : List (String × Value)}
    (h : ∀ e ∈ entries, test e.1 = false) (new : String × Value) :
    replaceFirst test new entries = entries ++ [new] := by
  induction entries with
  | nil => rfl
  | cons e rest ih =>
      have hrest := ih fun d hd => h d (List.mem_cons_of_mem e hd)
      simp [replaceFirst, h e List.mem_cons_self, hrest]

/-- A new name is set behind all entries. -/
theorem entries_insert_of_absent (h : ∀ e ∈ p.entries, p.key e.1 ≠ p.key name) (value : Value) :
    (p.insert name value).entries = p.entries ++ [(name, value)] := by
  change replaceFirst (p.agree · name) (name, value) p.entries = _
  apply replaceFirst_of_absent
  intro e he
  exact beq_eq_false_iff_ne.2 (h e he)

/-- The name of an entry is taken out with it; the others keep their order. -/
theorem entries_erase_of_key_eq (h : p.entries = front ++ old :: tail)
    (hkey : p.key old.1 = p.key name) : (p.erase name).entries = front ++ tail := by
  have hold : p.agree old.1 name = true := beq_iff_eq.2 hkey
  have hfront : ∀ e ∈ front, ¬p.agree e.1 name = true := by
    intro e he
    simp [agree_front h hkey e he]
  change p.entries.eraseP (fun e => p.agree e.1 name) = _
  rw [h, List.eraseP_append_right _ hfront]
  exact congrArg (front ++ ·) (List.eraseP_cons_of_pos hold)

/-- Nothing is taken out for a name without an entry. -/
theorem entries_erase_of_absent (h : ∀ e ∈ p.entries, p.key e.1 ≠ p.key name) :
    (p.erase name).entries = p.entries := by
  apply List.eraseP_of_forall_not
  intro e he
  simp [agree, h e he]

/-- A name has the value of its entry. -/
theorem get?_eq_some_iff {value : Value} :
    p.get? name = some value ↔ ∃ e ∈ p.entries, p.key e.1 = p.key name ∧ e.2 = value := by
  unfold get?
  rw [Option.map_eq_some_iff]
  constructor
  · intro h
    obtain ⟨e, hfind, hvalue⟩ := h
    have hagree := List.find?_some hfind
    exact ⟨e, List.mem_of_find?_eq_some hfind, beq_iff_eq.1 hagree, hvalue⟩
  · intro h
    obtain ⟨e, he, hkey, hvalue⟩ := h
    obtain ⟨front, tail, hentries⟩ := List.append_of_mem he
    have hfront : ∀ d ∈ front, (!p.agree d.1 name) = true := by
      intro d hd
      simp [agree_front hentries hkey d hd]
    refine ⟨e, List.find?_eq_some_iff_append.2 ?_, hvalue⟩
    exact ⟨beq_iff_eq.2 hkey, front, tail, hentries, hfront⟩

theorem get?_of_key_eq (h : p.entries = front ++ old :: tail) (hkey : p.key old.1 = p.key name) :
    p.get? name = some old.2 := by
  refine get?_eq_some_iff.2 ⟨old, ?_, hkey, rfl⟩
  rw [h]
  exact List.mem_append_right front List.mem_cons_self

/-- A name without an entry has no value. -/
theorem get?_eq_none_iff : p.get? name = none ↔ ∀ e ∈ p.entries, p.key e.1 ≠ p.key name := by
  simp [get?, agree]

/-- A name has an entry, in some place, or none. -/
theorem key_eq_or_absent (p : Parameters) (name : String) :
    (∃ front old tail, p.entries = front ++ old :: tail ∧ p.key old.1 = p.key name) ∨
      ∀ e ∈ p.entries, p.key e.1 ≠ p.key name := by
  by_cases h : ∃ e ∈ p.entries, p.key e.1 = p.key name
  · obtain ⟨e, he, hkey⟩ := h
    obtain ⟨front, tail, hentries⟩ := List.append_of_mem he
    exact .inl ⟨front, e, tail, hentries, hkey⟩
  · exact .inr fun e he hkey => h ⟨e, he, hkey⟩

@[simp]
theorem ignoreCase_insertAll (p : Parameters) (entries : List (String × Value)) :
    (p.insertAll entries).ignoreCase = p.ignoreCase := by
  unfold insertAll
  induction entries generalizing p with
  | nil => rfl
  | cons e rest ih =>
      rw [List.foldl_cons, ih]
      exact ignoreCase_insert p e.1 e.2

@[simp]
theorem ignoreCase_setIgnoreCase (p : Parameters) (ignoreCase : Bool) :
    (p.setIgnoreCase ignoreCase).ignoreCase = ignoreCase := by
  unfold setIgnoreCase
  split
  · assumption
  · exact ignoreCase_insertAll _ _

theorem insertAll_concat (p : Parameters) (entries : List (String × Value)) (e : String × Value) :
    p.insertAll (entries ++ [e]) = (p.insertAll entries).insert e.1 e.2 := by
  unfold insertAll
  rw [List.foldl_append]
  rfl

/-- Entries whose keys are new are appended. -/
theorem entries_insertAll_of_nodup (p : Parameters) (entries : List (String × Value))
    (h : ((p.entries ++ entries).map fun e => p.key e.1).Nodup) :
    (p.insertAll entries).entries = p.entries ++ entries := by
  induction entries generalizing p with
  | nil => exact (List.append_nil _).symm
  | cons e rest ih =>
      have hnew : ∀ d ∈ p.entries, p.key d.1 ≠ p.key e.1 := by
        rw [List.map_append, List.map_cons] at h
        intro d hd
        have hmem : p.key d.1 ∈ p.entries.map fun d => p.key d.1 := List.mem_map_of_mem hd
        exact (List.nodup_append.1 h).2.2 _ hmem _ List.mem_cons_self
      have hentries := entries_insert_of_absent hnew e.2
      have hrest := ih (p.insert e.1 e.2) (by
        rw [hentries, List.append_assoc]
        exact h)
      change ((p.insert e.1 e.2).insertAll rest).entries = _
      rw [hrest, hentries, List.append_assoc]
      rfl

end Parameters

/-! ## Entries that fall together -/

/-- What is left of entries when those with one key share a place: in the place of the first of them
stands the last one, with its own spelling. -/
structure Merges (fold : String → String) (entries left : List (String × Value)) : Prop where
  keys : left.map (fold ·.1) = (entries.map (fold ·.1)).eraseDups
  last : ∀ e ∈ left, ∃ front tail, entries = front ++ e :: tail ∧
    ∀ d ∈ tail, fold d.1 ≠ fold e.1

private theorem eraseDups_map_concat {α β : Type} [BEq β] [LawfulBEq β] (f : α → β) (as : List α)
    (a : α) :
    ((as ++ [a]).map f).eraseDups =
      if f a ∈ as.map f then (as.map f).eraseDups else (as.map f).eraseDups ++ [f a] := by
  rw [List.map_append, List.map_singleton, List.eraseDups_append]
  by_cases h : f a ∈ as.map f
  · simp [List.removeAll, h]
  · simp [List.removeAll, h, List.eraseDups_cons]

namespace Merges

variable {fold : String → String} {entries left : List (String × Value)}

/-- A key stands among the entries exactly if one of those left has it. -/
theorem key_mem_iff (h : Merges fold entries left) (key : String) :
    key ∈ entries.map (fold ·.1) ↔ key ∈ left.map (fold ·.1) := by
  rw [h.keys, List.mem_eraseDups]

/-- One more entry behind is of no concern to the entries of other keys: the last of them stays
the last. -/
theorem last_concat (h : Merges fold entries left) (e : String × Value) {d : String × Value}
    (hd : d ∈ left) (hne : fold d.1 ≠ fold e.1) :
    ∃ front tail, entries ++ [e] = front ++ d :: tail ∧ ∀ c ∈ tail, fold c.1 ≠ fold d.1 := by
  obtain ⟨front, tail, hentries, htail⟩ := h.last d hd
  refine ⟨front, tail ++ [e], ?_, ?_⟩
  · rw [hentries]
    simp
  · intro c hc
    rcases List.mem_append.1 hc with hc | hc
    · exact htail c hc
    · rw [List.mem_singleton.1 hc]
      exact hne.symm

/-- An entry whose key is already there takes the place of the one that has it. -/
theorem replace {old e : String × Value} {front tail : List (String × Value)}
    (h : Merges fold entries (front ++ old :: tail)) (hkey : fold old.1 = fold e.1)
    (hothers : ∀ d ∈ front ++ tail, fold d.1 ≠ fold e.1) :
    Merges fold (entries ++ [e]) (front ++ e :: tail) := by
  refine ⟨?_, ?_⟩
  · have hmem : fold e.1 ∈ entries.map (fold ·.1) := by
      rw [h.key_mem_iff, ← hkey]
      exact List.mem_map_of_mem (List.mem_append_right front List.mem_cons_self)
    rw [eraseDups_map_concat, if_pos hmem, ← h.keys]
    simp only [List.map_append, List.map_cons, hkey]
  · intro d hd
    rcases List.mem_append.1 hd with hd | hd
    · exact h.last_concat e (List.mem_append_left _ hd) (hothers d (List.mem_append_left tail hd))
    · rcases List.mem_cons.1 hd with rfl | hd
      · exact ⟨entries, [], rfl, by simp⟩
      · exact h.last_concat e (List.mem_append_right front (List.mem_cons_of_mem old hd))
          (hothers d (List.mem_append_right front hd))

/-- An entry with a key of its own is put behind. -/
theorem append (h : Merges fold entries left) {e : String × Value}
    (hnew : ∀ d ∈ left, fold d.1 ≠ fold e.1) : Merges fold (entries ++ [e]) (left ++ [e]) := by
  refine ⟨?_, ?_⟩
  · have hmem : fold e.1 ∉ entries.map (fold ·.1) := by
      rw [h.key_mem_iff]
      intro hin
      obtain ⟨d, hd, heq⟩ := List.mem_map.1 hin
      exact hnew d hd heq
    rw [eraseDups_map_concat, if_neg hmem, ← h.keys, List.map_append, List.map_singleton]
  · intro d hd
    rcases List.mem_append.1 hd with hd | hd
    · exact h.last_concat e hd (hnew d hd)
    · rw [List.mem_singleton.1 hd]
      exact ⟨entries, [], rfl, by simp⟩

end Merges

namespace Parameters

/-- To set one more entry is to merge one more. -/
theorem merges_insert {p : Parameters} {entries : List (String × Value)}
    (h : Merges p.key entries p.entries) (e : String × Value) :
    Merges p.key (entries ++ [e]) (p.insert e.1 e.2).entries := by
  rcases p.key_eq_or_absent e.1 with ⟨front, old, tail, hold, hkey⟩ | habsent
  · rw [entries_insert_of_key_eq hold hkey e.2]
    rw [hold] at h
    have hothers := key_ne_of_entries_eq hold
    rw [hkey] at hothers
    exact h.replace hkey hothers
  · rw [entries_insert_of_absent habsent e.2]
    exact h.append habsent

/-- Entries that are set one after another are merged by their keys. -/
theorem merges_insertAll (ignoreCase : Bool) (entries : List (String × Value)) :
    Merges (foldName ignoreCase) entries ((empty ignoreCase).insertAll entries).entries := by
  induction entries using List.reverseRecOn with
  | nil => exact ⟨rfl, fun e he => absurd he List.not_mem_nil⟩
  | append_singleton entries e ih =>
      have hcase : ((empty ignoreCase).insertAll entries).ignoreCase = ignoreCase :=
        ignoreCase_insertAll (empty ignoreCase) entries
      rw [insertAll_concat]
      generalize (empty ignoreCase).insertAll entries = p at ih hcase
      subst hcase
      exact merges_insert ih e

/-- Names that differ in lower case differ: where case is regarded, no entries fall together. -/
theorem entries_insertAll_of_distinct (p : Parameters) :
    ((empty false).insertAll p.entries).entries = p.entries := by
  have hnodup : (p.entries.map (·.1)).Nodup := by
    have hdistinct := p.distinct
    have hmap : (p.entries.map fun e => foldName p.ignoreCase e.1) =
        (p.entries.map (·.1)).map (foldName p.ignoreCase) := by
      rw [List.map_map]
      rfl
    rw [hmap] at hdistinct
    exact hdistinct.of_map _
  exact entries_insertAll_of_nodup (empty false) p.entries hnodup

/-! ## Slots -/

/-- The table with the entries of a map, each under its folded name. -/
def table (p : Parameters) : ParameterTable :=
  ⟨p.entries.map fun e => ⟨p.key e.1, e⟩, p.ignoreCase⟩

/-- The map after an operation. -/
def after (p : Parameters) : ParameterTable.Step → Parameters
  | .insert name value => p.insert name value
  | .remove name => p.erase name
  | .extend entries => p.insertAll entries
  | .collect entries => ofList entries
  | .setIgnoreCase ignoreCase => p.setIgnoreCase ignoreCase

/-- The map after a run of operations. -/
def afterAll (p : Parameters) (steps : List ParameterTable.Step) : Parameters := steps.foldl after p

end Parameters

section Slots

variable (fold : String → String) (name : String) (entries : List (String × Value))

/-- To put an entry under its folded name is to replace the first entry with this key. -/
theorem putSlot_map (value : Value) :
    putSlot (fold name) (name, value) (entries.map fun e => ⟨fold e.1, e⟩) =
      (entries.find? (fold ·.1 == fold name),
        (Parameters.replaceFirst (fold · == fold name) (name, value) entries).map
          fun e => ⟨fold e.1, e⟩) := by
  induction entries with
  | nil => rfl
  | cons e rest ih =>
      by_cases h : fold e.1 = fold name
      · simp [putSlot, Parameters.replaceFirst, h]
      · simp [putSlot, Parameters.replaceFirst, h, ih]

/-- To take the slot of a folded name out is to erase the first entry with this key. -/
theorem takeSlot_map :
    takeSlot (fold name) (entries.map fun e => ⟨fold e.1, e⟩) =
      (entries.find? (fold ·.1 == fold name),
        (entries.eraseP (fold ·.1 == fold name)).map fun e => ⟨fold e.1, e⟩) := by
  induction entries with
  | nil => rfl
  | cons e rest ih =>
      by_cases h : fold e.1 = fold name
      · simp [takeSlot, h]
      · simp [takeSlot, h, ih]

end Slots

namespace ParameterTable

variable (p : Parameters)

@[simp]
theorem entries_table : p.table.entries = p.entries := by
  simp [entries, Parameters.table, Function.comp_def]

theorem get?_table (name : String) : p.table.get? name = p.get? name := by
  unfold get? Parameters.get? Parameters.table
  rw [List.find?_map, Option.map_map]
  rfl

theorem contains_table (name : String) : p.table.contains name = p.contains name := by
  unfold contains Parameters.contains Parameters.get? Parameters.table
  rw [List.any_map, Option.isSome_map, Bool.eq_iff_iff, List.find?_isSome, List.any_eq_true]
  rfl

/-- An insertion answers with what the name was before. -/
theorem insert_table (name : String) (value : Value) :
    p.table.insert name value = (p.get? name, (p.insert name value).table) := by
  have hput := putSlot_map p.key name p.entries value
  unfold insert
  change ((putSlot (p.key name) (name, value) (p.entries.map fun e => ⟨p.key e.1, e⟩)).1.map (·.2),
    (⟨(putSlot (p.key name) (name, value) (p.entries.map fun e => ⟨p.key e.1, e⟩)).2,
      p.ignoreCase⟩ : ParameterTable)) = _
  rw [hput]
  rfl

/-- A removal answers with what the name was before. -/
theorem remove_table (name : String) :
    p.table.remove name = (p.get? name, (p.erase name).table) := by
  have htake := takeSlot_map p.key name p.entries
  unfold remove
  change ((takeSlot (p.key name) (p.entries.map fun e => ⟨p.key e.1, e⟩)).1.map (·.2),
    (⟨(takeSlot (p.key name) (p.entries.map fun e => ⟨p.key e.1, e⟩)).2,
      p.ignoreCase⟩ : ParameterTable)) = _
  rw [htake]
  rfl

theorem extend_table (entries : List (String × Value)) :
    p.table.extend entries = (p.insertAll entries).table := by
  unfold extend Parameters.insertAll
  induction entries generalizing p with
  | nil => rfl
  | cons e rest ih =>
      have hinsert := congrArg Prod.snd (insert_table p e.1 e.2)
      rw [List.foldl_cons, List.foldl_cons]
      change rest.foldl _ (p.table.insert e.1 e.2).2 = _
      rw [hinsert]
      exact ih (p.insert e.1 e.2)

theorem collect_eq_table (entries : List (String × Value)) :
    collect entries = (Parameters.ofList entries).table :=
  extend_table (.empty false) entries

/-- Entries that are put under new keys are inserted anew. -/
theorem setIgnoreCase_table (ignoreCase : Bool) :
    p.table.setIgnoreCase ignoreCase = (p.setIgnoreCase ignoreCase).table := by
  have hanew := extend_table (.empty ignoreCase) p.entries
  rw [← entries_table p] at hanew
  unfold setIgnoreCase Parameters.setIgnoreCase
  by_cases h : p.ignoreCase = ignoreCase
  · rw [if_pos h]
    exact if_pos h
  · rw [if_neg h, ← entries_table p, ← hanew]
    exact if_neg h

/-- **One operation on slots is that on entries.** -/
theorem after_table (s : Step) : p.table.after s = (p.after s).table := by
  cases s with
  | insert name value => exact congrArg Prod.snd (insert_table p name value)
  | remove name => exact congrArg Prod.snd (remove_table p name)
  | extend entries => exact extend_table p entries
  | collect entries => exact collect_eq_table entries
  | setIgnoreCase ignoreCase => exact setIgnoreCase_table p ignoreCase

/-- A run of operations on slots is that on entries. -/
theorem afterAll_table (steps : List Step) : p.table.afterAll steps = (p.afterAll steps).table := by
  unfold afterAll Parameters.afterAll
  induction steps generalizing p with
  | nil => rfl
  | cons s rest ih =>
      rw [List.foldl_cons, List.foldl_cons, after_table]
      exact ih (p.after s)

/-! ## The list that a table stands for -/

/-- What an operation does to an ordered list of entries, whose names are compared with or without
their case: what it answers, and the rule for the case and the entries after it. -/
inductive Edit : Bool → List (String × Value) → Step → Option Value →
    Bool → List (String × Value) → Prop
  /-- A name that is there: its entry gets the new spelling and the new value, in its place. -/
  | insertHeld {ignoreCase front old tail name value} :
      foldName ignoreCase old.1 = foldName ignoreCase name →
      Edit ignoreCase (front ++ old :: tail) (.insert name value) (some old.2)
        ignoreCase (front ++ (name, value) :: tail)
  | insertNew {ignoreCase entries name value} :
      (∀ e ∈ entries, foldName ignoreCase e.1 ≠ foldName ignoreCase name) →
      Edit ignoreCase entries (.insert name value) none ignoreCase (entries ++ [(name, value)])
  | removeHeld {ignoreCase front old tail name} :
      foldName ignoreCase old.1 = foldName ignoreCase name →
      Edit ignoreCase (front ++ old :: tail) (.remove name) (some old.2) ignoreCase (front ++ tail)
  | removeAbsent {ignoreCase entries name} :
      (∀ e ∈ entries, foldName ignoreCase e.1 ≠ foldName ignoreCase name) →
      Edit ignoreCase entries (.remove name) none ignoreCase entries
  | extendDone {ignoreCase entries} : Edit ignoreCase entries (.extend []) none ignoreCase entries
  | extendNext {ignoreCase entries name value old next rest left} :
      Edit ignoreCase entries (.insert name value) old ignoreCase next →
      Edit ignoreCase next (.extend rest) none ignoreCase left →
      Edit ignoreCase entries (.extend ((name, value) :: rest)) none ignoreCase left
  | collect {ignoreCase entries new left} :
      Edit false [] (.extend new) none false left →
      Edit ignoreCase entries (.collect new) none false left
  | keepCase {ignoreCase entries} :
      Edit ignoreCase entries (.setIgnoreCase ignoreCase) none ignoreCase entries
  /-- Where case is ignored from now on, entries fall together. -/
  | ignoreCase {entries left} :
      Merges lowercase entries left → Edit false entries (.setIgnoreCase true) none true left
  /-- Where case is regarded again, the entries stay as they are. -/
  | regardCase {entries} : Edit true entries (.setIgnoreCase false) none false entries

/-- A table shows a list of entries, whose names are compared with or without their case. -/
structure Shows (t : ParameterTable) (ignore : Bool) (held : List (String × Value)) : Prop where
  ignoreCase : t.ignoreCase = ignore
  /-- Every entry stands under its folded spelling. -/
  keys : ∀ slot ∈ t.slots, slot.key = foldName ignore slot.entry.1
  distinct : (t.slots.map (·.key)).Nodup
  entries : t.entries = held
  names : t.names = held.map (·.1)
  size : t.size = held.length
  isEmpty : t.isEmpty = true ↔ held = []
  get? : ∀ name value, t.get? name = some value ↔
    ∃ e ∈ held, foldName ignore e.1 = foldName ignore name ∧ e.2 = value
  contains : ∀ name, t.contains name = true ↔
    ∃ e ∈ held, foldName ignore e.1 = foldName ignore name

/-- A table shows the entries of a map, and each operation answers and edits them as it does on a
list. -/
structure Refines (t : ParameterTable) (p : Parameters) : Prop where
  agrees : t.Shows p.ignoreCase p.entries
  edit : ∀ s : Step, Edit p.ignoreCase p.entries s (t.answer s) (p.after s).ignoreCase
    (p.after s).entries

theorem shows_table : p.table.Shows p.ignoreCase p.entries where
  ignoreCase := rfl
  keys := by
    intro slot hslot
    obtain ⟨e, _, rfl⟩ := List.mem_map.1 hslot
    rfl
  distinct := by
    unfold Parameters.table
    rw [List.map_map]
    exact p.distinct
  entries := entries_table p
  names := by
    rw [← entries_table p]
    exact (List.map_map ..).symm
  size := List.length_map _
  isEmpty := by simp [isEmpty, Parameters.table]
  get? := by
    intro name value
    rw [get?_table]
    exact Parameters.get?_eq_some_iff
  contains := by
    intro name
    rw [contains_table]
    simp [Parameters.contains, Parameters.get?, Parameters.agree, Parameters.key]

/-- An insertion edits the entries. -/
theorem edit_insert (name : String) (value : Value) :
    Edit p.ignoreCase p.entries (.insert name value) (p.get? name) p.ignoreCase
      (p.insert name value).entries := by
  rcases p.key_eq_or_absent name with ⟨front, old, tail, hold, hkey⟩ | habsent
  · rw [Parameters.entries_insert_of_key_eq hold hkey value, Parameters.get?_of_key_eq hold hkey,
      hold]
    exact .insertHeld hkey
  · rw [Parameters.entries_insert_of_absent habsent value, Parameters.get?_eq_none_iff.2 habsent]
    exact .insertNew habsent

/-- A removal edits the entries. -/
theorem edit_remove (name : String) :
    Edit p.ignoreCase p.entries (.remove name) (p.get? name) p.ignoreCase
      (p.erase name).entries := by
  rcases p.key_eq_or_absent name with ⟨front, old, tail, hold, hkey⟩ | habsent
  · rw [Parameters.entries_erase_of_key_eq hold hkey, Parameters.get?_of_key_eq hold hkey, hold]
    exact .removeHeld hkey
  · rw [Parameters.entries_erase_of_absent habsent, Parameters.get?_eq_none_iff.2 habsent]
    exact .removeAbsent habsent

/-- Many insertions edit the entries one after another. -/
theorem edit_extend (entries : List (String × Value)) :
    Edit p.ignoreCase p.entries (.extend entries) none p.ignoreCase
      (p.insertAll entries).entries := by
  induction entries generalizing p with
  | nil => exact .extendDone
  | cons e rest ih => exact .extendNext (edit_insert p e.1 e.2) (ih (p.insert e.1 e.2))

/-- A new rule for the case of names edits the entries. -/
theorem edit_setIgnoreCase (ignoreCase : Bool) :
    Edit p.ignoreCase p.entries (.setIgnoreCase ignoreCase) none ignoreCase
      (p.setIgnoreCase ignoreCase).entries := by
  unfold Parameters.setIgnoreCase
  by_cases h : p.ignoreCase = ignoreCase
  · rw [if_pos h, h]
    exact .keepCase
  · rw [if_neg h]
    cases ignoreCase with
    | true =>
        rw [eq_false_of_ne_true h]
        exact .ignoreCase (Parameters.merges_insertAll true p.entries)
    | false =>
        rw [eq_true_of_ne_false h, Parameters.entries_insertAll_of_distinct]
        exact .regardCase

theorem refines_table : p.table.Refines p where
  agrees := shows_table p
  edit := by
    intro s
    cases s with
    | insert name value =>
        have hanswer := congrArg Prod.fst (insert_table p name value)
        change Edit _ _ _ (p.table.insert name value).1 _ _
        rw [hanswer]
        exact edit_insert p name value
    | remove name =>
        have hanswer := congrArg Prod.fst (remove_table p name)
        change Edit _ _ _ (p.table.remove name).1 _ _
        rw [hanswer]
        exact edit_remove p name
    | extend entries =>
        have hcase := p.ignoreCase_insertAll entries
        change Edit _ _ _ none (p.insertAll entries).ignoreCase _
        rw [hcase]
        exact edit_extend p entries
    | collect entries =>
        have hcase := (Parameters.empty false).ignoreCase_insertAll entries
        change Edit _ _ _ none ((Parameters.empty false).insertAll entries).ignoreCase _
        rw [hcase]
        exact .collect (edit_extend (.empty false) entries)
    | setIgnoreCase ignoreCase =>
        have hcase := p.ignoreCase_setIgnoreCase ignoreCase
        change Edit _ _ _ none (p.setIgnoreCase ignoreCase).ignoreCase _
        rw [hcase]
        exact edit_setIgnoreCase p ignoreCase

/-- **A table is an ordered list of entries.**  After every run of operations on an empty table it
shows the entries that the same run leaves in a map, each found by its folded spelling alone; and
whatever operation comes next answers and changes them as it does on a list. -/
theorem afterAll_refines (ignoreCase : Bool) (steps : List Step) :
    (({ ignoreCase } : ParameterTable).afterAll steps).Refines
      ((Parameters.empty ignoreCase).afterAll steps) := by
  have htable := afterAll_table (.empty ignoreCase) steps
  change ((Parameters.empty ignoreCase).table.afterAll steps).Refines _
  rw [htable]
  exact refines_table _

end ParameterTable

end FormulaEngine
