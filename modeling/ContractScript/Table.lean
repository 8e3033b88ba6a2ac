/-!
Tables: finite maps from texts, kept in the order of their keys (by code point). The order is part
of the type, so two tables with the same entries are equal and every listing of a table is sorted.
-/

namespace ContractScript

/-- Puts an entry at its place in the order; an entry with the same key gives way. -/
def insertEntry {α : Type} (key : String) (value : α) : List (String × α) → List (String × α)
  | [] => [(key, value)]
  | entry :: rest =>
    if key < entry.1 then (key, value) :: entry :: rest
    else if entry.1 < key then entry :: insertEntry key value rest
    else (key, value) :: rest

theorem mem_insertEntry {α : Type} {key : String} {value : α} {entries : List (String × α)}
    {entry : String × α} (member : entry ∈ insertEntry key value entries) :
    entry = (key, value) ∨ entry ∈ entries := by
  induction entries with
  | nil => simpa [insertEntry] using member
  | cons head rest ih =>
    unfold insertEntry at member
    split at member
    · simpa using member
    · split at member
      · rcases List.mem_cons.mp member with rfl | inRest
        · simp
        · rcases ih inRest with same | old
          · exact .inl same
          · exact .inr (List.mem_cons_of_mem _ old)
      · rcases List.mem_cons.mp member with rfl | inRest
        · simp
        · exact .inr (List.mem_cons_of_mem _ inRest)

/-- Keys strictly increase along the entries, so no key occurs twice. -/
def Increasing {α : Type} (entries : List (String × α)) : Prop :=
  entries.Pairwise fun left right => left.1 < right.1

theorem key_eq_of_not_lt {a b : String} (notBelow : ¬a < b) (notAbove : ¬b < a) : a = b :=
  String.le_antisymm (String.not_lt.mp notAbove) (String.not_lt.mp notBelow)

theorem Increasing.insertEntry {α : Type} {entries : List (String × α)}
    (sorted : Increasing entries) (key : String) (value : α) :
    Increasing (insertEntry key value entries) := by
  induction entries with
  | nil => simp [ContractScript.insertEntry, Increasing]
  | cons head rest ih =>
    have below := (List.pairwise_cons.mp sorted).1
    have tail := (List.pairwise_cons.mp sorted).2
    unfold ContractScript.insertEntry
    split
    · next less =>
      refine List.pairwise_cons.mpr ⟨fun entry member => ?_, sorted⟩
      rcases List.mem_cons.mp member with rfl | inRest
      · exact less
      · exact String.lt_trans less (below entry inRest)
    · next notLess =>
      split
      · next greater =>
        refine List.pairwise_cons.mpr ⟨fun entry member => ?_, ih tail⟩
        rcases mem_insertEntry member with rfl | inRest
        · exact greater
        · exact below entry inRest
      · next notGreater =>
        have same : key = head.1 := key_eq_of_not_lt notLess notGreater
        exact List.pairwise_cons.mpr ⟨fun entry member => same ▸ below entry member, tail⟩

structure Table (α : Type) where
  entries : List (String × α)
  increasing : Increasing entries

namespace Table

variable {α β : Type}

@[ext] theorem ext {s t : Table α} (same : s.entries = t.entries) : s = t := by
  cases s
  cases t
  cases same
  rfl

instance [DecidableEq α] : DecidableEq (Table α) := fun s t =>
  decidable_of_iff (s.entries = t.entries) ⟨Table.ext, fun same => same ▸ rfl⟩

def empty : Table α := ⟨[], List.Pairwise.nil⟩

instance : EmptyCollection (Table α) := ⟨empty⟩

instance : Inhabited (Table α) := ⟨empty⟩

/-- Binds a key; the entry of an earlier binding of the same key gives way. -/
def insert (table : Table α) (key : String) (value : α) : Table α :=
  ⟨insertEntry key value table.entries, table.increasing.insertEntry key value⟩

def get? (table : Table α) (key : String) : Option α :=
  table.entries.lookup key

def keys (table : Table α) : List String :=
  table.entries.map (·.1)

/-- The table that results from binding the pairs one after the other. -/
def ofList (pairs : List (String × α)) : Table α :=
  pairs.foldl (fun table pair => table.insert pair.1 pair.2) empty

/-- Applies a function to every value and keeps the keys. -/
def map (f : α → β) (table : Table α) : Table β :=
  ⟨table.entries.map fun entry => (entry.1, f entry.2), by
    simpa [Increasing, List.pairwise_map] using table.increasing⟩

theorem lookup_cons_of_ne {key other : String} (differ : other ≠ key) (value : α)
    (entries : List (String × α)) :
    ((key, value) :: entries).lookup other = entries.lookup other := by
  have away : (other == key) = false := by simpa using differ
  simp [List.lookup_cons, away]

theorem lookup_insertEntry (key other : String) (value : α) (entries : List (String × α)) :
    (insertEntry key value entries).lookup other =
      if other = key then some value else entries.lookup other := by
  by_cases same : other = key
  · subst same
    rw [if_pos rfl]
    induction entries with
    | nil => exact List.lookup_cons_self
    | cons head rest ih =>
      unfold insertEntry
      split
      · exact List.lookup_cons_self
      · split
        · next greater =>
          have differ : other ≠ head.1 := fun same => String.lt_irrefl _ (same ▸ greater)
          rw [lookup_cons_of_ne differ]
          exact ih
        · exact List.lookup_cons_self
  · rw [if_neg same]
    induction entries with
    | nil => exact lookup_cons_of_ne same value []
    | cons head rest ih =>
      unfold insertEntry
      split
      · exact lookup_cons_of_ne same value _
      · next notLess =>
        split
        · by_cases atHead : other = head.1
          · subst atHead
            rw [List.lookup_cons_self, List.lookup_cons_self]
          · rw [lookup_cons_of_ne atHead, lookup_cons_of_ne atHead]
            exact ih
        · next notGreater =>
          have atHead : key = head.1 := key_eq_of_not_lt notLess notGreater
          rw [lookup_cons_of_ne same, lookup_cons_of_ne (atHead ▸ same)]

@[simp] theorem get?_empty (key : String) : (empty : Table α).get? key = none := rfl

/-- Insertion changes exactly one key. -/
theorem get?_insert (table : Table α) (key other : String) (value : α) :
    (table.insert key value).get? other = if other = key then some value else table.get? other :=
  lookup_insertEntry key other value table.entries

@[simp] theorem get?_insert_self (table : Table α) (key : String) (value : α) :
    (table.insert key value).get? key = some value := by
  simp [get?_insert]

end Table

end ContractScript
