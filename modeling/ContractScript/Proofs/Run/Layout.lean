import ContractScript.Heap
import ContractScript.Proofs.Table
import ContractScript.Registry

/-!
The layout of a run's heap: the entry instance, then the namespaces of its imports, then host
objects, with references to the latter two only. Each change that a run makes to its heap keeps the
layout. What host objects may answer is a hypothesis on the registry, stated over the states that
they can have in a run.
-/

namespace ContractScript

variable {T : Toolkit}

namespace Registry

/-- `registry.Hosts handle given`: a host object of a run over this registry may have the state
`handle` after it was given the values of `given`. Its class comes from the registry or from another
host object. -/
inductive Hosts (registry : Registry T) : T.Handle → List (Value T.Class) → Prop
  | registered {module classes c handle} (found : registry.modules.get? module = some classes)
      (member : c ∈ classes) (made : T.construct c.cls = .ok handle) : Hosts registry handle []
  | answered {giver given name c handle} (holder : Hosts registry giver given)
      (answer : T.get giver name = some (.cls c)) (made : T.construct c.cls = .ok handle) :
      Hosts registry handle []
  | set {handle given} (holder : Hosts registry handle given) (render : Value T.Class → String)
      (name : String) (value : Value T.Class) :
      Hosts registry (T.set render handle name value).2 (value :: given)
  | invoked {handle given} (holder : Hosts registry handle given) (render : Value T.Class → String)
      (name : String) (args : List (Value T.Class)) :
      Hosts registry (T.invoke render handle name args).2 (args ++ given)

/-- `registry.Offers cls`: a run over this registry may come to construct the class. -/
inductive Offers (registry : Registry T) : T.Class → Prop
  | registered {module classes c} (found : registry.modules.get? module = some classes)
      (member : c ∈ classes) : Offers registry c.cls
  | answered {giver given name c} (holder : Hosts registry giver given)
      (answer : T.get giver name = some (.cls c)) : Offers registry c.cls

theorem Offers.hosts {registry : Registry T} {cls : T.Class} {handle : T.Handle}
    (offers : Offers registry cls) (made : T.construct cls = .ok handle) :
    Hosts registry handle [] := by
  cases offers with
  | registered found member => exact .registered found member made
  | answered holder answer => exact .answered holder answer made

/-- Host objects answer with references only that they were given. -/
structure CreatesNoReferences (registry : Registry T) : Prop where
  get : ∀ handle given name id, registry.Hosts handle given →
    T.get handle name = some (.object id) → .object id ∈ given
  invoke : ∀ handle given render name args id, registry.Hosts handle given →
    (T.invoke render handle name args).1 = .ok (.object id) → .object id ∈ args ++ given

/-- The namespaces of those imports whose modules are registered. -/
def spaces (registry : Registry T) (imports : List (String × String)) : List (Object T) :=
  imports.filterMap fun entry => registry.space? entry.2

theorem spaces_cons (registry : Registry T) (entry : String × String)
    (imports : List (String × String)) :
    registry.spaces (entry :: imports) =
      (registry.space? entry.2).toList ++ registry.spaces imports := by
  cases found : registry.space? entry.2 <;> simp [spaces, found]

theorem space?_get? {registry : Registry T} {module name : String} {space : Object T}
    {value : Value T.Class} (made : registry.space? module = some space)
    (holds : space.get? name = some value) :
    ∃ classes c, registry.modules.get? module = some classes ∧ c ∈ classes ∧ value = .cls c := by
  simp only [space?, Option.map_eq_some_iff] at made
  obtain ⟨classes, found, rfl⟩ := made
  have member := Table.mem_of_get?_ofList holds
  obtain ⟨c, among, same⟩ := List.mem_map.mp member
  exact ⟨classes, c, found, among, (Prod.mk.inj same).2.symm⟩

theorem space?_interpreted {registry : Registry T} {module : String} {space : Object T}
    (made : registry.space? module = some space) : ∃ fields, space = .interpreted none fields := by
  simp only [space?, Option.map_eq_some_iff] at made
  obtain ⟨classes, _, rfl⟩ := made
  exact ⟨_, rfl⟩

end Registry

namespace Value

variable {C : Type}

/-- No class, and no reference but to the objects after the first in a heap of a given size. -/
def Plain (size : Nat) : Value C → Prop
  | object id => 0 < id ∧ id < size
  | cls _ => False
  | _ => True

theorem Plain.mono {value : Value C} {size size' : Nat} (plain : value.Plain size)
    (le : size ≤ size') : value.Plain size' := by
  cases value with
  | object id => exact ⟨plain.1, Nat.lt_of_lt_of_le plain.2 le⟩
  | _ => exact plain

end Value

namespace Heap

/-- The layout of a run's heap: the entry instance, the namespaces `spaces`, then host objects. -/
structure Tame (registry : Registry T) (contract : Contract) (spaces : List (Object T))
    (h : Heap T) : Prop where
  entry : ∃ fields, h.lookup 0 = .interpreted (some contract) fields ∧
    ∀ name value, fields.get? name = some value → value.Plain h.size
  room : spaces.length < h.size
  space : ∀ (i : Nat) object, spaces[i]? = some object → h.lookup (i + 1) = object
  made : ∀ object ∈ spaces, ∃ module, registry.space? module = some object
  host : ∀ id : Nat, spaces.length < id → id < h.size →
    ∃ handle given, h.lookup id = .hosted handle ∅ ∧ registry.Hosts handle given ∧
      ∀ value ∈ given, value.Plain h.size

namespace Tame

variable {registry : Registry T} {contract : Contract} {spaces : List (Object T)} {h : Heap T}

theorem object_cases (tame : Tame registry contract spaces h) {id : Nat}
    (plain : (Value.object id : Value T.Class).Plain h.size) :
    (id ≤ spaces.length ∧ spaces[id - 1]? = some (h.lookup id) ∧
      ∃ module, registry.space? module = some (h.lookup id)) ∨
    (spaces.length < id ∧ ∃ handle given, h.lookup id = .hosted handle ∅ ∧
      registry.Hosts handle given ∧ ∀ value ∈ given, value.Plain h.size) := by
  obtain ⟨positive, live⟩ : 0 < id ∧ id < h.size := plain
  by_cases among : id ≤ spaces.length
  · have bound : id - 1 < spaces.length := by omega
    have read := List.getElem?_eq_getElem bound
    have same : h.lookup id = spaces[id - 1] := by
      have next : id - 1 + 1 = id := by omega
      rw [← tame.space (id - 1) _ read, next]
    refine .inl ⟨among, by rw [same, read], ?_⟩
    rw [same]
    exact tame.made _ (List.getElem_mem bound)
  · have beyond : spaces.length < id := by omega
    exact .inr ⟨beyond, tame.host id beyond live⟩

theorem contract?_eq_none (tame : Tame registry contract spaces h) {id : Nat}
    (plain : (Value.object id : Value T.Class).Plain h.size) : (h.lookup id).contract? = none := by
  rcases tame.object_cases plain with ⟨_, _, module, space⟩ | ⟨_, handle, given, found, _⟩
  · obtain ⟨fields, same⟩ := Registry.space?_interpreted space
    rw [same]
    rfl
  · rw [found]
    rfl

theorem get?_entry (tame : Tame registry contract spaces h) {name : String}
    {value : Value T.Class} (holds : (h.lookup 0).get? name = some value) :
    value.Plain h.size := by
  obtain ⟨fields, found, plain⟩ := tame.entry
  rw [found] at holds
  exact plain name value holds

theorem lookup_cases (tame : Tame registry contract spaces h) (id : Nat) :
    (h.size ≤ id ∧ h.lookup id = .interpreted none ∅) ∨
    (id = 0 ∧ ∃ fields, h.lookup id = .interpreted (some contract) fields) ∨
    (0 < id ∧ id < h.size ∧ spaces[id - 1]? = some (h.lookup id) ∧
      ∃ module, registry.space? module = some (h.lookup id)) ∨
    (0 < id ∧ id < h.size ∧ ∃ handle given, h.lookup id = .hosted handle ∅ ∧
      registry.Hosts handle given ∧ ∀ value ∈ given, value.Plain h.size) := by
  by_cases absent : h.size ≤ id
  · exact .inl ⟨absent, lookup_of_size_le h absent⟩
  · by_cases first : id = 0
    · obtain ⟨fields, found, _⟩ := tame.entry
      exact .inr (.inl ⟨first, fields, by rw [first, found]⟩)
    · have positive : 0 < id := Nat.pos_of_ne_zero first
      have live : id < h.size := Nat.lt_of_not_le absent
      rcases tame.object_cases ⟨positive, live⟩ with ⟨_, space⟩ | ⟨_, host⟩
      · exact .inr (.inr (.inl ⟨positive, live, space⟩))
      · exact .inr (.inr (.inr ⟨positive, live, host⟩))

theorem hosted_state (tame : Tame registry contract spaces h) {id : Nat} {handle : T.Handle}
    {written : Table (Value T.Class)} (found : h.lookup id = .hosted handle written) :
    written = ∅ ∧ ∃ given, registry.Hosts handle given ∧
      ∀ value ∈ given, value.Plain h.size := by
  rcases tame.lookup_cases id with ⟨_, at_⟩ | ⟨_, _, at_⟩ | ⟨_, _, _, module, space⟩ |
    ⟨_, _, handle', given, at_, hosts, plain⟩
  · rw [found] at at_
    cases at_
  · rw [found] at at_
    cases at_
  · obtain ⟨_, same⟩ := Registry.space?_interpreted space
    rw [found] at same
    cases same
  · rw [found] at at_
    cases at_
    exact ⟨rfl, given, hosts, plain⟩

theorem reference_plain (tame : Tame registry contract spaces h)
    (creates : registry.CreatesNoReferences) {id : Nat} {name : String} {target : ObjectId}
    (holds : (h.lookup id).get? name = some (.object target)) :
    (Value.object target : Value T.Class).Plain h.size := by
  rcases tame.lookup_cases id with ⟨_, found⟩ | ⟨rfl, _⟩ | ⟨_, _, _, module, space⟩ |
    ⟨_, _, handle, given, found, hosts, plain⟩
  · rw [found] at holds
    cases holds
  · exact tame.get?_entry holds
  · obtain ⟨_, _, _, _, same⟩ := Registry.space?_get? space holds
    cases same
  · rw [found] at holds
    exact plain _ (creates.get handle given name target hosts holds)

theorem putEntry (tame : Tame registry contract spaces h) {fields : Table (Value T.Class)}
    (plain : ∀ name value, fields.get? name = some value → value.Plain h.size) :
    Tame registry contract spaces (h.put 0 (.interpreted (some contract) fields)) := by
  have live : 0 < h.size := Nat.zero_lt_of_lt tame.room
  constructor
  · refine ⟨fields, by simp [lookup_put _ _ _ _ live], ?_⟩
    simpa only [size_put] using plain
  · simpa only [size_put] using tame.room
  · intro i object found
    rw [lookup_put _ _ _ _ live, if_neg (Nat.succ_ne_zero i)]
    exact tame.space i object found
  · exact tame.made
  · intro id beyond bound
    have away : id ≠ 0 := by omega
    rw [size_put] at bound
    simpa only [lookup_put _ _ _ _ live, if_neg away, size_put] using tame.host id beyond bound

theorem setEntry (tame : Tame registry contract spaces h) {fields : Table (Value T.Class)}
    (found : h.lookup 0 = .interpreted (some contract) fields) (name : String)
    {value : Value T.Class} (plain : value.Plain h.size) :
    Tame registry contract spaces
      (h.put 0 (.interpreted (some contract) (fields.insert name value))) := by
  refine tame.putEntry fun other held holds => ?_
  rw [Table.get?_insert] at holds
  split at holds
  · cases holds
    exact plain
  · exact tame.get?_entry (by rw [found]; exact holds)

theorem putHost (tame : Tame registry contract spaces h) {id : Nat}
    (beyond : spaces.length < id) (live : id < h.size) {handle : T.Handle}
    {given : List (Value T.Class)} (hosts : registry.Hosts handle given)
    (plain : ∀ value ∈ given, value.Plain h.size) :
    Tame registry contract spaces (h.put id (.hosted handle ∅)) := by
  constructor
  · have away : 0 ≠ id := by omega
    simpa only [lookup_put _ _ _ _ live, if_neg away, size_put] using tame.entry
  · simpa only [size_put] using tame.room
  · intro i object found
    have among : i < spaces.length := (List.getElem?_eq_some_iff.mp found).1
    have away : i + 1 ≠ id := by omega
    rw [lookup_put _ _ _ _ live, if_neg away]
    exact tame.space i object found
  · exact tame.made
  · intro other past bound
    rw [size_put] at bound
    by_cases same : other = id
    · subst same
      refine ⟨handle, given, by simp [lookup_put _ _ _ _ live], hosts, ?_⟩
      simpa only [size_put] using plain
    · simpa only [lookup_put _ _ _ _ live, if_neg same, size_put] using tame.host other past bound

theorem pushHost (tame : Tame registry contract spaces h) {handle : T.Handle}
    (hosts : registry.Hosts handle []) :
    Tame registry contract spaces (h.push (.hosted handle ∅)) := by
  have room := tame.room
  have live : 0 < h.size := Nat.zero_lt_of_lt room
  have larger : h.size ≤ h.size + 1 := Nat.le_succ _
  constructor
  · obtain ⟨fields, found, plain⟩ := tame.entry
    refine ⟨fields, by rw [lookup_push_of_lt _ _ live, found], ?_⟩
    intro name value holds
    rw [size_push]
    exact (plain name value holds).mono larger
  · rw [size_push]
    omega
  · intro i object found
    have among : i < spaces.length := (List.getElem?_eq_some_iff.mp found).1
    rw [lookup_push_of_lt _ _ (by omega)]
    exact tame.space i object found
  · exact tame.made
  · intro id beyond bound
    rw [size_push] at bound ⊢
    by_cases last : id = h.size
    · subst last
      exact ⟨handle, [], lookup_push_size .., hosts, by simp⟩
    · obtain ⟨old, given, found, hosts, plain⟩ := tame.host id beyond (by omega)
      refine ⟨old, given, by rw [lookup_push_of_lt _ _ (by omega), found], hosts, ?_⟩
      intro value member
      exact (plain value member).mono larger

theorem pushSpace (tame : Tame registry contract spaces h) (full : h.size = spaces.length + 1)
    {module : String} {space : Object T} (made : registry.space? module = some space) :
    Tame registry contract (spaces ++ [space]) (h.push space) := by
  have live : 0 < h.size := Nat.zero_lt_of_lt tame.room
  constructor
  · obtain ⟨fields, found, plain⟩ := tame.entry
    refine ⟨fields, by rw [lookup_push_of_lt _ _ live, found], ?_⟩
    intro name value holds
    rw [size_push]
    exact (plain name value holds).mono (Nat.le_succ _)
  · rw [size_push, List.length_append, List.length_singleton]
    omega
  · intro i object found
    rw [List.getElem?_append] at found
    split at found
    · next among =>
      rw [lookup_push_of_lt _ _ (by omega)]
      exact tame.space i object found
    · have index : i = spaces.length := by
        have := (List.getElem?_eq_some_iff.mp found).1
        simp only [List.length_singleton] at this
        omega
      subst index
      have same : space = object := by simpa using found
      rw [← full, lookup_push_size, same]
  · intro object member
    rcases List.mem_append.mp member with old | new
    · exact tame.made object old
    · exact ⟨module, by rw [made, List.mem_singleton.mp new]⟩
  · intro id beyond bound
    rw [size_push] at bound
    rw [List.length_append, List.length_singleton] at beyond
    omega

end Tame

/-- What a field of the entry instance may hold. -/
inductive Admits (registry : Registry T) (h : Heap T) : Value T.Class → Prop
  | null : Admits registry h .null
  | integer (value : Int64) : Admits registry h (.integer value)
  | text (contents : String) : Admits registry h (.text contents)
  | space {id module} (live : id < h.size) (made : registry.space? module = some (h.lookup id)) :
      Admits registry h (.object id)
  | host {id handle given} (found : h.lookup id = .hosted handle ∅)
      (hosts : registry.Hosts handle given) : Admits registry h (.object id)

/-- No object of the heap hands out a reference to an instance: not in a field, and a host object
not as the answer of a method either. Namespaces are those of the run, as they were made, and host
objects answer for themselves. -/
structure Isolated (registry : Registry T) (spaces : List (Object T)) (h : Heap T) : Prop where
  entryFields : ∀ name value, (h.lookup 0).get? name = some value → h.Admits registry value
  instances : ∀ id contract, (h.lookup id).contract? = some contract → id = 0
  fields : ∀ id name target, (h.lookup id).get? name = some (.object target) →
    (h.lookup target).contract? = none
  answers : ∀ id handle written render name args target, h.lookup id = .hosted handle written →
    (T.invoke render handle name args).1 = .ok (.object target) →
      .object target ∈ args ∨ (h.lookup target).contract? = none
  namespaces : ∀ id fields, id < h.size → h.lookup id = .interpreted none fields →
    0 < id ∧ spaces[id - 1]? = some (h.lookup id)
  mirrors : ∀ id handle written, h.lookup id = .hosted handle written →
    written = ∅ ∧ ∀ name, (h.lookup id).get? name = T.get handle name

namespace Isolated

variable {registry : Registry T} {spaces : List (Object T)}

theorem empty : Isolated registry spaces (Heap.empty : Heap T) := by
  constructor
  · intro name value holds
    cases holds
  · intro id contract found
    cases found
  · intro id name target holds
    cases holds
  · intro id handle written render name args target found
    cases found
  · intro id fields live
    exact absurd live (Nat.not_lt_zero id)
  · intro id handle written found
    cases found

theorem of_tame (creates : registry.CreatesNoReferences) {contract : Contract}
    {bound : List (Object T)} {h : Heap T} (tame : Tame registry contract bound h)
    (part : bound <+: spaces) : Isolated registry spaces h := by
  constructor
  · intro name value holds
    have plain := tame.get?_entry holds
    cases value with
    | null => exact .null
    | integer value => exact .integer value
    | text contents => exact .text contents
    | cls c => exact plain.elim
    | object id =>
      rcases tame.object_cases plain with ⟨_, _, module, made⟩ | ⟨_, handle, given, found, hosts, _⟩
      · exact .space plain.2 made
      · exact .host found hosts
  · intro id instanceOf found
    rcases tame.lookup_cases id with ⟨_, at_⟩ | ⟨first, _⟩ | ⟨positive, live, _⟩ |
      ⟨positive, live, _⟩
    · rw [at_] at found
      cases found
    · exact first
    · rw [tame.contract?_eq_none ⟨positive, live⟩] at found
      cases found
    · rw [tame.contract?_eq_none ⟨positive, live⟩] at found
      cases found
  · intro id name target holds
    exact tame.contract?_eq_none (tame.reference_plain creates holds)
  · intro id handle written render name args target found answer
    obtain ⟨_, given, hosts, plain⟩ := tame.hosted_state found
    have known := creates.invoke handle given render name args target hosts answer
    rcases List.mem_append.mp known with now | earlier
    · exact .inl now
    · exact .inr (tame.contract?_eq_none (plain _ earlier))
  · intro id fields live found
    rcases tame.lookup_cases id with ⟨absent, _⟩ | ⟨_, _, at_⟩ | ⟨positive, _, space, _⟩ |
      ⟨_, _, _, _, at_, _⟩
    · exact absurd live (Nat.not_lt.mpr absent)
    · rw [found] at at_
      cases at_
    · obtain ⟨tail, rfl⟩ := part
      have bounded : id - 1 < bound.length := (List.getElem?_eq_some_iff.mp space).1
      exact ⟨positive, by rw [List.getElem?_append_left bounded, space]⟩
    · rw [found] at at_
      cases at_
  · intro id handle written found
    obtain ⟨rfl, _⟩ := tame.hosted_state found
    refine ⟨rfl, fun name => ?_⟩
    rw [found]
    rfl

end Isolated

end Heap

end ContractScript
