import ContractScript.Table
import Mathlib.Data.List.Induction
import Mathlib.Data.List.Nodup
import Mathlib.Data.List.Perm.Basic
import Mathlib.Data.Set.Operations

/-!
Tables through their look-ups: a table is what `get?` says of it, and a table built by insertions
answers with the last value inserted under a key. So the order in which entries with different keys
are inserted leaves no trace.
-/

namespace ContractScript

theorem Table.mem_of_lookup {α : Type} {entries : List (String × α)} {key : String} {value : α}
    (found : entries.lookup key = some value) : (key, value) ∈ entries := by
  obtain ⟨front, back, rfl, _⟩ := List.lookup_eq_some_iff.mp found
  simp

theorem lookup_eq_some_of_nodup {α : Type} {entries : List (String × α)}
    (named : (entries.map Prod.fst).Nodup) {key : String} {value : α}
    (member : (key, value) ∈ entries) : entries.lookup key = some value := by
  induction entries with
  | nil => cases member
  | cons head rest ih =>
    obtain ⟨fresh, named⟩ := List.nodup_cons.mp named
    rcases List.mem_cons.mp member with rfl | inRest
    · exact List.lookup_cons_self
    · have differ : key ≠ head.1 := by
        rintro rfl
        exact fresh (List.mem_map.mpr ⟨_, inRest, rfl⟩)
      rw [Table.lookup_cons_of_ne differ]
      exact ih named inRest

theorem lookup_reverse_of_nodup {α : Type} {entries : List (String × α)}
    (named : (entries.map Prod.fst).Nodup) (key : String) :
    entries.reverse.lookup key = entries.lookup key := by
  have back : (entries.reverse.map Prod.fst).Nodup := by
    rw [List.map_reverse]
    exact List.nodup_reverse.mpr named
  refine Option.ext fun value => ⟨fun found => ?_, fun found => ?_⟩
  · exact lookup_eq_some_of_nodup named (List.mem_reverse.mp (Table.mem_of_lookup found))
  · exact lookup_eq_some_of_nodup back (List.mem_reverse.mpr (Table.mem_of_lookup found))

namespace Increasing

variable {α : Type} {entries : List (String × α)}

theorem keys_nodup (sorted : Increasing entries) : (entries.map Prod.fst).Nodup :=
  List.Pairwise.map Prod.fst (fun _ _ below same => String.lt_irrefl _ (same ▸ below)) sorted

theorem lookup_eq_some (sorted : Increasing entries) {key : String} {value : α}
    (member : (key, value) ∈ entries) : entries.lookup key = some value :=
  lookup_eq_some_of_nodup sorted.keys_nodup member

end Increasing

namespace Table

variable {α : Type}

theorem mem_entries_iff (table : Table α) (key : String) (value : α) :
    (key, value) ∈ table.entries ↔ table.get? key = some value :=
  ⟨table.increasing.lookup_eq_some, mem_of_lookup⟩

theorem map_named (table : Table α) {nameOf : α → String}
    (named : ∀ key value, table.get? key = some value → nameOf value = key) :
    table.entries.map (fun entry => (nameOf entry.2, entry.2)) = table.entries := by
  have same : ∀ entry ∈ table.entries, (nameOf entry.2, entry.2) = entry := by
    rintro ⟨key, value⟩ member
    rw [named key value ((mem_entries_iff ..).mp member)]
  exact (List.map_congr_left same).trans (List.map_id' _)

theorem entries_nodup (table : Table α) : table.entries.Nodup := by
  refine List.Pairwise.imp ?_ table.increasing
  intro a b below same
  exact String.lt_irrefl _ (same ▸ below)

/-- Tables with the same look-ups are the same table. -/
theorem ext_get? {s t : Table α} (same : ∀ key, s.get? key = t.get? key) : s = t := by
  apply Table.ext
  have members : ∀ entry : String × α, entry ∈ s.entries ↔ entry ∈ t.entries := by
    rintro ⟨key, value⟩
    rw [mem_entries_iff, mem_entries_iff, same]
  have arranged : s.entries.Perm t.entries :=
    (List.perm_ext_iff_of_nodup s.entries_nodup t.entries_nodup).mpr members
  refine arranged.eq_of_pairwise (fun a b _ _ less greater => ?_) s.increasing t.increasing
  exact absurd (String.lt_trans less greater) (String.lt_irrefl _)

theorem lookup_rename {β : Type} {f : String → String} (injective : Function.Injective f)
    (g : α → β) (entries : List (String × α)) (key : String) :
    (entries.map fun entry => (f entry.1, g entry.2)).lookup (f key) =
      (entries.lookup key).map g := by
  induction entries with
  | nil => rfl
  | cons entry rest ih =>
    obtain ⟨other, value⟩ := entry
    by_cases same : key = other
    · simp [same]
    · rw [List.map_cons, lookup_cons_of_ne (injective.ne same), lookup_cons_of_ne same, ih]

theorem lookup_map {β : Type} (f : α → β) (entries : List (String × α)) (key : String) :
    (entries.map fun entry => (entry.1, f entry.2)).lookup key = (entries.lookup key).map f :=
  lookup_rename Function.injective_id f entries key

theorem get?_map {β : Type} (f : α → β) (table : Table α) (key : String) :
    (table.map f).get? key = (table.get? key).map f :=
  lookup_map f table.entries key

/-- Binds the pairs one after the other in a table that may hold entries before. -/
def insertAll (table : Table α) (pairs : List (String × α)) : Table α :=
  pairs.foldl (fun table pair => table.insert pair.1 pair.2) table

theorem get?_insertAll (pairs : List (String × α)) (table : Table α) (key : String) :
    (table.insertAll pairs).get? key = (pairs.reverse.lookup key).or (table.get? key) := by
  induction pairs generalizing table with
  | nil => rfl
  | cons pair rest ih =>
    obtain ⟨other, value⟩ := pair
    change ((table.insert other value).insertAll rest).get? key = _
    rw [ih, get?_insert, List.reverse_cons, List.lookup_append]
    cases rest.reverse.lookup key with
    | some found => rfl
    | none =>
      by_cases same : key = other
      · simp [same]
      · simp [same, lookup_cons_of_ne same]

theorem get?_insertAll_of_nodup {pairs : List (String × α)}
    (named : (pairs.map Prod.fst).Nodup) (table : Table α) (key : String) :
    (table.insertAll pairs).get? key = (pairs.lookup key).or (table.get? key) := by
  rw [get?_insertAll, lookup_reverse_of_nodup named]

theorem get?_ofList (pairs : List (String × α)) (key : String) :
    (ofList pairs).get? key = pairs.reverse.lookup key := by
  change ((empty : Table α).insertAll pairs).get? key = _
  rw [get?_insertAll, get?_empty, Option.or_none]

/-- Of the values inserted under one name the last is found. -/
theorem get?_ofList_map {β : Type} (nameOf : β → String) (f : β → α) (as : List β) (key : String) :
    (ofList (as.map fun a => (nameOf a, f a))).get? key =
      (as.filter fun a => nameOf a = key).getLast?.map f := by
  rw [get?_ofList, ← List.map_reverse]
  induction as using List.reverseRecOn with
  | nil => rfl
  | append_singleton as a ih =>
    rw [List.reverse_append, List.filter_append, List.reverse_singleton, List.singleton_append,
      List.map_cons]
    by_cases same : key = nameOf a
    · simp [same]
    · rw [lookup_cons_of_ne same, ih]
      simp [Ne.symm same]

theorem mem_of_get?_ofList {pairs : List (String × α)} {key : String} {value : α}
    (found : (ofList pairs).get? key = some value) : (key, value) ∈ pairs := by
  rw [get?_ofList] at found
  exact List.mem_reverse.mp (mem_of_lookup found)

theorem exists_get?_ofList {pairs : List (String × α)} {key : String} {value : α}
    (member : (key, value) ∈ pairs) : ∃ last, (ofList pairs).get? key = some last := by
  rw [get?_ofList]
  refine Option.isSome_iff_exists.mp (List.lookup_isSome_iff.mpr ⟨(key, value), ?_, ?_⟩)
  · exact List.mem_reverse.mpr member
  · exact BEq.rfl

/-- The entries of a table, inserted in any order, make the table again. -/
theorem ofList_perm {pairs : List (String × α)} {table : Table α}
    (arranged : pairs.Perm table.entries) : ofList pairs = table := by
  have back : ∀ key value, (ofList pairs).get? key = some value → table.get? key = some value := by
    intro key value found
    exact (mem_entries_iff ..).mp (arranged.subset (mem_of_get?_ofList found))
  refine ext_get? fun key => Option.ext fun value => ⟨back key value, fun found => ?_⟩
  have member : (key, value) ∈ pairs :=
    arranged.symm.subset ((mem_entries_iff ..).mpr found)
  obtain ⟨last, inserted⟩ := exists_get?_ofList member
  rw [inserted, ← back key last inserted, found]

theorem get?_eq_none_iff {table : Table α} {key : String} :
    table.get? key = none ↔ key ∉ table.keys := by
  rw [get?, List.lookup_eq_none_iff]
  simp only [keys, List.mem_map, not_exists, not_and]
  constructor
  · rintro away entry member rfl
    simpa using away entry member
  · intro away entry member
    simpa using fun same => away entry member (Eq.symm same)

/-- The entries of both tables; under a key that both have, that of the second. -/
def override (s t : Table α) : Table α := s.insertAll t.entries

theorem get?_override (s t : Table α) (key : String) :
    (s.override t).get? key = (t.get? key).or (s.get? key) := by
  have again : ofList t.entries = t := ofList_perm (.refl _)
  rw [override, get?_insertAll, ← get?_ofList, again]

theorem override_insert (s t : Table α) (key : String) (value : α) :
    s.override (t.insert key value) = (s.override t).insert key value := by
  apply ext_get?
  intro other
  rw [get?_override, get?_insert, get?_insert, get?_override]
  split <;> rfl

theorem override_comm {s t : Table α} (apart : ∀ key ∈ s.keys, key ∉ t.keys) :
    s.override t = t.override s := by
  apply ext_get?
  intro key
  rw [get?_override, get?_override]
  by_cases inFirst : key ∈ s.keys
  · rw [get?_eq_none_iff.mpr (apart key inFirst), Option.none_or, Option.or_none]
  · rw [get?_eq_none_iff.mpr inFirst, Option.none_or, Option.or_none]

/-- The table with other keys and values, one for each entry. -/
def rename {β : Type} (f : String → String) (g : α → β) (table : Table α) : Table β :=
  ofList (table.entries.map fun entry => (f entry.1, g entry.2))

variable {β : Type} {f : String → String}

theorem get?_rename (injective : Function.Injective f) (g : α → β) (table : Table α)
    (key : String) : (table.rename f g).get? (f key) = (table.get? key).map g := by
  have named : ((table.entries.map fun entry => (f entry.1, g entry.2)).map Prod.fst).Nodup := by
    have keys := table.increasing.keys_nodup.map injective
    simpa only [List.map_map, Function.comp_def] using keys
  rw [rename, get?_ofList, lookup_reverse_of_nodup named, lookup_rename injective]
  rfl

theorem get?_rename_of_notMem_range {key : String} (away : key ∉ Set.range f) (g : α → β)
    (table : Table α) : (table.rename f g).get? key = none := by
  refine Option.eq_none_iff_forall_ne_some.mpr fun value found => away ?_
  obtain ⟨entry, _, same⟩ := List.mem_map.mp (mem_of_get?_ofList found)
  exact ⟨entry.1, congrArg Prod.fst same⟩

/-- An entry may be inserted before a change of keys or after it. -/
theorem rename_insert (injective : Function.Injective f) (g : α → β) (table : Table α)
    (key : String) (value : α) :
    (table.insert key value).rename f g = (table.rename f g).insert (f key) (g value) := by
  refine ext_get? fun other => ?_
  -- no entry has a key that is not the image of one
  by_cases image : other ∈ Set.range f
  · obtain ⟨name, rfl⟩ := image
    rw [get?_insert, get?_rename injective, get?_rename injective, get?_insert]
    by_cases same : name = key
    · simp [same]
    · simp [same, injective.ne same]
  · have differ : other ≠ f key := fun same => image ⟨key, same.symm⟩
    rw [get?_insert, if_neg differ, get?_rename_of_notMem_range image,
      get?_rename_of_notMem_range image]

end Table

end ContractScript
