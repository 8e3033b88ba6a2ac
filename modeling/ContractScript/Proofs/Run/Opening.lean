import ContractScript.Proofs.Machine.Binding
import ContractScript.Proofs.Run.Ending

/-!
The fields of the entry instance when the first statement of a run is begun. Parameters go over
imports and imports over declared fields, each import being linked to a namespace of its own. Main
statement: what each field holds then, over a registry made by any registrations.
-/

namespace ContractScript

open ContractScript.Action

variable {T : Toolkit}

/-! ### Registries -/

/-- One request to a registry: to add one class to a module, or several. -/
inductive Registration (T : Toolkit) where
  | one (module : String) (c : ClassObject T.Class)
  | several (module : String) (classes : List (ClassObject T.Class))

namespace Registration

/-- The classes that one registration has for a module. -/
def classesFor (module : String) : Registration T → List (ClassObject T.Class)
  | one other c => if other = module then [c] else []
  | several other classes => if other = module then classes else []

/-- The classes of a module after registrations, in the order in which they were added. -/
def offered (registrations : List (Registration T)) (module : String) :
    List (ClassObject T.Class) :=
  registrations.flatMap (classesFor module)

end Registration

namespace Registry

def add (r : Registry T) : Registration T → Registry T
  | .one module c => r.register module c
  | .several module classes => r.registerAll module classes

def ofRegistrations (registrations : List (Registration T)) : Registry T :=
  registrations.foldl add empty

/-- The registry holds the modules that have classes, and no others. -/
def Lists (r : Registry T) (given : String → List (ClassObject T.Class)) : Prop :=
  ∀ module, r.modules.get? module = if given module = [] then none else some (given module)

namespace Lists

variable {r : Registry T} {given : String → List (ClassObject T.Class)}

theorem register (lists : r.Lists given) (module : String) (c : ClassObject T.Class) :
    (r.register module c).Lists fun other =>
      given other ++ if module = other then [c] else [] := by
  intro other
  simp only [Registry.register, Table.get?_insert]
  by_cases same : other = module
  · subst same
    rw [lists other]
    by_cases none : given other = [] <;> simp [none]
  · simp [same, Ne.symm same, lists other]

theorem registerAll (lists : r.Lists given) (module : String)
    (classes : List (ClassObject T.Class)) :
    (r.registerAll module classes).Lists fun other =>
      given other ++ if module = other then classes else [] := by
  induction classes generalizing r given with
  | nil =>
    intro other
    simpa [Registry.registerAll] using lists other
  | cons c classes ih =>
    intro other
    have rest := ih (lists.register module c) other
    simp only [Registry.registerAll, List.foldl_cons] at rest ⊢
    rw [rest]
    by_cases same : module = other <;> simp [same]

theorem foldl_add (lists : r.Lists given) (registrations : List (Registration T)) :
    (registrations.foldl add r).Lists fun module =>
      given module ++ Registration.offered registrations module := by
  induction registrations generalizing r given with
  | nil =>
    intro module
    simpa [Registration.offered] using lists module
  | cons registration rest ih =>
    have first : (r.add registration).Lists fun module =>
        given module ++ registration.classesFor module := by
      cases registration with
      | one module c => exact lists.register module c
      | several module classes => exact lists.registerAll module classes
    intro module
    have all := ih first module
    simp only [List.append_assoc] at all
    exact all

end Lists

theorem ofRegistrations_lists (registrations : List (Registration T)) :
    (ofRegistrations registrations).Lists (Registration.offered registrations) := by
  have none : (empty : Registry T).Lists fun _ => [] := fun _ => rfl
  intro module
  simpa [ofRegistrations] using none.foldl_add registrations module

/-- A module is found once it has classes. Of two classes with one name its namespaces offer the one
registered last. -/
theorem Lists.space? {r : Registry T} {given : String → List (ClassObject T.Class)}
    (lists : r.Lists given) (module : String) :
    (given module = [] ∧ r.space? module = none) ∨
    given module ≠ [] ∧ ∃ classes, r.space? module = some (.interpreted none classes) ∧
      ∀ name, classes.get? name =
        ((given module).filter fun c => T.className c.cls = name).getLast?.map .cls := by
  rw [Registry.space?, lists module]
  by_cases absent : given module = []
  · exact .inl ⟨absent, by simp [absent]⟩
  · refine .inr ⟨absent, _, by simp only [absent, if_false, Option.map_some]; rfl, fun name => ?_⟩
    exact Table.get?_ofList_map (fun c => T.className c.cls) Value.cls (given module) name

/-! ### Links -/

/-- The imports whose modules are registered. -/
def registered (registry : Registry T) (imports : List (String × String)) :
    List (String × String) :=
  imports.filter fun entry => (registry.space? entry.2).isSome

/-- The objects that imports are bound to when the first namespace gets the place `next`. -/
def links (registry : Registry T) (next : ObjectId) (imports : List (String × String)) :
    List (String × ObjectId) :=
  ((registry.registered imports).zipIdx next).map fun entry => (entry.1.1, entry.2)

/-- The object that an import of the entry contract is bound to in a run. The instance itself has
the place before the first namespace. -/
def linked (registry : Registry T) (contract : Contract) (name : String) : Option ObjectId :=
  (registry.links 1 contract.imports.entries).lookup name

variable (registry : Registry T) (next : ObjectId) {imports : List (String × String)}

theorem links_cons_none {localName module : String} (absent : registry.space? module = none)
    (rest : List (String × String)) :
    registry.links next ((localName, module) :: rest) = registry.links next rest := by
  simp [links, registered, absent]

theorem links_cons_some {localName module : String} {space : Object T}
    (made : registry.space? module = some space) (rest : List (String × String)) :
    registry.links next ((localName, module) :: rest) =
      (localName, next) :: registry.links (next + 1) rest := by
  simp [links, registered, made]

theorem map_fst_links : (registry.links next imports).map Prod.fst =
    (registry.registered imports).map Prod.fst := by
  rw [links, List.map_map]
  change ((registry.registered imports).zipIdx next).map (Prod.fst ∘ Prod.fst) = _
  rw [← List.map_map, List.zipIdx_map_fst]

theorem links_named (named : (imports.map Prod.fst).Nodup) :
    ((registry.links next imports).map Prod.fst).Nodup := by
  rw [map_fst_links]
  exact named.sublist (List.filter_sublist.map _)

theorem map_space?_registered (imports : List (String × String)) :
    (registry.registered imports).map (fun entry => registry.space? entry.2) =
      (registry.spaces imports).map some := by
  induction imports with
  | nil => rfl
  | cons entry rest ih =>
    rw [registered] at ih ⊢
    rw [spaces_cons, List.filter_cons]
    cases made : registry.space? entry.2 with
    | none => simpa using ih
    | some space => simpa [made] using ih

theorem getElem?_spaces {i : Nat} {entry : String × String}
    (found : (registry.registered imports)[i]? = some entry) :
    (registry.spaces imports)[i]? = registry.space? entry.2 := by
  have same := congrArg (·[i]?) (registry.map_space?_registered imports)
  simp only [List.getElem?_map, found, Option.map_some] at same
  cases there : (registry.spaces imports)[i]? with
  | none => simp [there] at same
  | some space => simpa [there] using same.symm

variable {registry} {contract : Contract} {name : String} {id : ObjectId}

theorem linked_eq_some_iff : registry.linked contract name = some id ↔
    1 ≤ id ∧ ∃ module, (registry.registered contract.imports.entries)[id - 1]? =
      some (name, module) := by
  have named := registry.links_named 1 contract.imports.increasing.keys_nodup
  have same : registry.linked contract name = some id ↔
      (name, id) ∈ registry.links 1 contract.imports.entries :=
    ⟨Table.mem_of_lookup, lookup_eq_some_of_nodup named⟩
  rw [same, links, List.mem_map]
  constructor
  · rintro ⟨⟨⟨_, module⟩, _⟩, member, rfl, rfl⟩
    obtain ⟨positive, found⟩ := List.mk_mem_zipIdx_iff_le_and_getElem?_sub.mp member
    exact ⟨positive, module, found⟩
  · rintro ⟨positive, module, found⟩
    exact ⟨((name, module), id), List.mk_mem_zipIdx_iff_le_and_getElem?_sub.mpr ⟨positive, found⟩,
      rfl⟩

theorem linked_ne_none_iff : registry.linked contract name ≠ none ↔
    ∃ module, contract.imports.get? name = some module ∧ registry.space? module ≠ none := by
  rw [Option.ne_none_iff_exists']
  constructor
  · rintro ⟨id, found⟩
    obtain ⟨_, module, there⟩ := linked_eq_some_iff.mp found
    obtain ⟨member, made⟩ := List.mem_filter.mp (List.mem_of_getElem? there)
    refine ⟨module, (Table.mem_entries_iff ..).mp member, ?_⟩
    exact Option.isSome_iff_ne_none.mp made
  · rintro ⟨module, found, made⟩
    have member : (name, module) ∈ registry.registered contract.imports.entries :=
      List.mem_filter.mpr ⟨(Table.mem_entries_iff ..).mpr found, Option.isSome_iff_ne_none.mpr made⟩
    obtain ⟨i, there⟩ := List.mem_iff_getElem?.mp member
    exact ⟨i + 1, linked_eq_some_iff.mpr ⟨Nat.le_add_left 1 i, module, there⟩⟩

theorem linked_inj {other : String} (first : registry.linked contract name = some id)
    (second : registry.linked contract other = some id) : name = other := by
  obtain ⟨_, module, found⟩ := linked_eq_some_iff.mp first
  obtain ⟨_, module', found'⟩ := linked_eq_some_iff.mp second
  exact congrArg Prod.fst (Option.some.inj (found.symm.trans found'))

end Registry

open Heap (Tame)

/-- In the heap of a run an import is linked to a namespace of its module. -/
theorem Heap.Tame.linked {registry : Registry T} {contract : Contract} {h : Heap T}
    (tame : Tame registry contract (registry.spaces contract.imports.entries) h) {name : String}
    {id : ObjectId} (found : registry.linked contract name = some id) :
    ∃ module, contract.imports.get? name = some module ∧
      registry.space? module = some (h.lookup id) := by
  obtain ⟨positive, module, there⟩ := Registry.linked_eq_some_iff.mp found
  obtain ⟨member, made⟩ := List.mem_filter.mp (List.mem_of_getElem? there)
  obtain ⟨space, made⟩ := Option.isSome_iff_exists.mp made
  have holds := tame.space (id - 1) space ((registry.getElem?_spaces there).trans made)
  rw [Nat.sub_add_cancel positive] at holds
  exact ⟨module, (Table.mem_entries_iff ..).mp member, by rw [holds]; exact made⟩

/-- What a field of an instance of the contract holds when its imports are bound as `linked` says,
and the parameters after them. -/
def Contract.opening {C : Type} (contract : Contract) (params : List String)
    (linked : String → Option ObjectId) (name : String) : Option (Value C) :=
  if name ∈ params then some .null
  else
    match linked name with
    | some id => some (.object id)
    | none => if name ∈ contract.fields.keys then some .null else none

namespace Machine

variable {registry : Registry T} {contract : Contract} {m after : Machine T}

theorem bindImports_entry {fields : Table (Value T.Class)}
    (found : m.heap.lookup 0 = .interpreted (some contract) fields)
    {imports : List (String × String)} (bound : bindImports registry 0 imports m = .ok () after) :
    after.heap.lookup 0 = .interpreted (some contract) (fields.insertAll
      ((registry.links m.heap.size imports).map fun link => (link.1, .object link.2))) := by
  induction imports generalizing m fields with
  | nil =>
    cases bound
    exact found
  | cons entry rest ih =>
    obtain ⟨localName, module⟩ := entry
    cases made : registry.space? module with
    | none =>
      simp only [bindImports, made] at bound
      rw [registry.links_cons_none _ made]
      exact ih found bound
    | some space =>
      have live : 0 < m.heap.size := by
        apply Heap.lt_size_of_lookup
        rw [found]
        intro same
        cases same
      have foundStill : (m.heap.push space).lookup 0 = .interpreted (some contract) fields := by
        rw [Heap.lookup_push_of_lt _ _ live, found]
      simp only [bindImports, made, bind_apply, allocate_apply] at bound
      rw [setField_apply (m := { m with heap := m.heap.push space }) foundStill] at bound
      rw [registry.links_cons_some _ made]
      have grown : 0 < (m.heap.push space).size := by simp
      have later := ih (m := { m with heap := (m.heap.push space).put 0 _ })
        (by rw [Heap.lookup_put _ _ _ _ grown, if_pos rfl]) bound
      have next : m.heap.nextId = m.heap.size := rfl
      simpa [Table.insertAll, next] using later

theorem get?_insertAll_links (name : String) :
    ((contract.fields.map fun _ => (.null : Value T.Class)).insertAll
      ((registry.links 1 contract.imports.entries).map fun link => (link.1, .object link.2))).get?
        name = contract.opening [] (registry.linked contract) name := by
  have named := registry.links_named 1 contract.imports.increasing.keys_nodup
  rw [Table.get?_insertAll_of_nodup (by simpa [Function.comp_def] using named), Table.lookup_map,
    Table.get?_map, Contract.opening, if_neg List.not_mem_nil]
  change ((registry.linked contract name).map _).or _ = _
  cases registry.linked contract name with
  | some id => rfl
  | none =>
    cases declared : contract.fields.get? name with
    | none => simp [Table.get?_eq_none_iff.mp declared]
    | some decl =>
      have among : name ∈ contract.fields.keys := by
        refine Classical.byContradiction fun absent => ?_
        rw [Table.get?_eq_none_iff.mpr absent] at declared
        cases declared
      simp [among]

/-- Imports go over the declared fields, each under its name. -/
theorem linked_fields {sink : Sink}
    (bound : bindImports registry 0 contract.imports.entries ((start sink).instantiate contract) =
      .ok () m) :
    ∃ fields, m.heap.lookup 0 = .interpreted (some contract) fields ∧
      ∀ name, fields.get? name = contract.opening [] (registry.linked contract) name :=
  ⟨_, bindImports_entry (m := (start sink).instantiate contract) rfl bound,
    get?_insertAll_links⟩

namespace Enters

variable {config : Config} {program : Program} {sink : Sink} {method : Method}
  {statements : List Statement} {inside : Machine T}

/-- Parameters go over everything else. -/
theorem fields (enters : Enters config registry program sink contract method statements inside) :
    ∃ fields, inside.heap.lookup 0 = .interpreted (some contract) fields ∧
      ∀ name, fields.get? name =
        contract.opening method.params (registry.linked contract) name := by
  obtain ⟨_, ready, linked, bound⟩ := bind_eq_ok enters.binds
  obtain ⟨fields, found, holds⟩ := linked_fields linked
  have live : 0 < ready.heap.size := Heap.lt_size_of_lookup (found ▸ nofun)
  cases (bindParams_apply live found method.params []).symm.trans bound
  refine ⟨_, (Heap.lookup_put _ _ _ _ live).trans (if_pos rfl), fun name => ?_⟩
  rw [get?_insertAll_bindings_nil, holds, Contract.opening, Contract.opening,
    if_neg List.not_mem_nil]

end Enters

variable (registry) in
theorem exists_enters_of_reads {config : Config} {program : Program} {method : Method}
    {statements : List Statement} (entry : program.entry config = .ok (contract, method))
    (reads : method.compile config.mode = .ok statements) (room : 0 < config.maxCallDepth)
    (sink : Sink) :
    ∃ inside, Enters config registry program sink contract method statements inside := by
  rcases runProgram_cases registry entry sink with
    ⟨_, _, _, ⟨limit, _⟩ | ⟨_, refused, _⟩⟩ | ⟨statements', inside, enters⟩
  · exact absurd limit (Nat.ne_of_gt room)
  · cases reads.symm.trans refused
  · cases reads.symm.trans enters.reads
    exact ⟨inside, enters⟩

/-- When the first statement of a run is begun, the entry instance has the parameters, the imports
whose modules were given classes, and the declared fields, the former of them going over the latter,
and no other field. Each import has a namespace of its own, which offers of two classes with one
name the one registered last. -/
theorem run_opening (registrations : List (Registration T)) {config : Config} {program : Program}
    {method : Method} {statements : List Statement}
    (entry : program.entry config = .ok (contract, method))
    (reads : method.compile config.mode = .ok statements) (room : 0 < config.maxCallDepth)
    (sink : Sink) :
    ∃ inside linked, Enters config (.ofRegistrations registrations) program sink contract method
        statements inside ∧
      (∃ fields, inside.heap.lookup 0 = .interpreted (some contract) fields ∧
        ∀ name, fields.get? name = contract.opening method.params linked name) ∧
      (∀ name, linked name ≠ none ↔ ∃ module, contract.imports.get? name = some module ∧
        Registration.offered registrations module ≠ []) ∧
      (∀ name id, linked name = some id → ∃ module classes,
        contract.imports.get? name = some module ∧
        inside.heap.lookup id = .interpreted none classes ∧
        ∀ cls, classes.get? cls = ((Registration.offered registrations module).filter fun c =>
          T.className c.cls = cls).getLast?.map .cls) ∧
      ∀ name other id, linked name = some id → linked other = some id → name = other := by
  obtain ⟨inside, enters⟩ :=
    exists_enters_of_reads (Registry.ofRegistrations registrations) entry reads room sink
  have lists := Registry.ofRegistrations_lists registrations
  refine ⟨inside, (Registry.ofRegistrations registrations).linked contract, enters, enters.fields,
    fun name => ?_, fun name id found => ?_, fun name other id => Registry.linked_inj⟩
  · rw [Registry.linked_ne_none_iff]
    refine exists_congr fun module => and_congr_right fun _ => ?_
    rcases lists.space? module with ⟨absent, missing⟩ | ⟨given, _, made, _⟩
    · simp [absent, missing]
    · simp [given, made]
  · obtain ⟨module, imported, made⟩ := enters.tame.linked found
    rcases lists.space? module with ⟨_, missing⟩ | ⟨_, classes, madeToo, offers⟩
    · cases made.symm.trans missing
    · have space := Option.some.inj (made.symm.trans madeToo)
      exact ⟨module, classes, imported, space, offers⟩

/-- Windows are registered twice, and one module is given no classes. -/
def twice : List (Registration Grey.toolkit) :=
  [.one "grey" ⟨0, .window⟩, .several "bare" [], .several "grey" [⟨1, .label⟩, ⟨2, .window⟩]]

/-- Aliases that are also fields and parameters, two for one module, and two for modules without
classes. -/
def crowded : Contract :=
  let imports := [("ui", "grey"), ("also", "grey"), ("hidden", "grey"), ("lost", "nowhere"),
    ("void", "bare")]
  let fields := ["count", "hidden", "ui"].map fun name => (name, ⟨.exposed, "Unknown", none⟩)
  { Contract.named "App" with imports := .ofList imports, fields := .ofList fields }.addMethod
    ⟨"main", .exposed, ["hidden", "x", "x"], "Void", Token.scan "print(x);"⟩

theorem run_opening_crowded :
    ∃ (method : Method) (statements : List Statement),
    (Program.empty.addContract crowded).entry {} = .ok (crowded, method) ∧
    method.compile .strict = .ok statements ∧ 0 < ({} : Config).maxCallDepth ∧
    ∃ inside fields first second classes,
      Enters {} (.ofRegistrations twice) (Program.empty.addContract crowded) .unlimited crowded
        method statements inside ∧
      inside.heap.lookup 0 = .interpreted (some crowded) fields ∧
      fields.get? "hidden" = some .null ∧ fields.get? "x" = some .null ∧
      fields.get? "count" = some .null ∧ fields.get? "lost" = none ∧ fields.get? "void" = none ∧
      fields.get? "ui" = some (.object first) ∧ fields.get? "also" = some (.object second) ∧
      first ≠ second ∧ inside.heap.lookup first = .interpreted none classes ∧
      classes.get? "GRC" = some (.cls ⟨2, .window⟩) := by
  have entry : (Program.empty.addContract crowded).entry {} = .ok (crowded, ⟨"main", .exposed,
      ["hidden", "x", "x"], "Void", Token.scan "print(x);"⟩) := by decide +kernel
  have reads : Method.compile ⟨"main", .exposed, ["hidden", "x", "x"], "Void",
      Token.scan "print(x);"⟩ .strict = .ok [.print (.name "x")] := by decide +kernel
  obtain ⟨inside, linked, enters, ⟨fields, found, holds⟩, links, spaces, distinct⟩ :=
    run_opening twice entry reads (by decide) .unlimited
  have given (name : String) (imported : crowded.imports.get? name = some "grey") :
      ∃ id, linked name = some id :=
    Option.ne_none_iff_exists'.mp ((links name).mpr ⟨"grey", imported, by decide⟩)
  have missing (name : String) (bare : (crowded.imports.get? name).all (fun module =>
      (Registration.offered twice module).isEmpty) = true) : linked name = none := by
    refine Classical.byContradiction fun found => ?_
    obtain ⟨module, imported, given⟩ := (links name).mp found
    simp [imported, given] at bare
  have ui : crowded.imports.get? "ui" = some "grey" := by decide +kernel
  obtain ⟨first, linkedFirst⟩ := given "ui" ui
  obtain ⟨second, linkedSecond⟩ := given "also" (by decide +kernel)
  have count := missing "count" (by decide +kernel)
  have lost := missing "lost" (by decide +kernel)
  have void := missing "void" (by decide +kernel)
  obtain ⟨module, classes, imported, space, offers⟩ := spaces "ui" first linkedFirst
  cases ui.symm.trans imported
  refine ⟨_, _, entry, reads, by decide, inside, fields, first, second, classes, enters, found, ?_,
    ?_, ?_, ?_, ?_, ?_, ?_, ?_, space, offers "GRC"⟩
  · simp [holds, Contract.opening]
  · simp [holds, Contract.opening]
  · have declared : "count" ∈ crowded.fields.keys := by decide +kernel
    simp [holds, Contract.opening, count, declared]
  · have undeclared : "lost" ∉ crowded.fields.keys := by decide +kernel
    simp [holds, Contract.opening, lost, undeclared]
  · have undeclared : "void" ∉ crowded.fields.keys := by decide +kernel
    simp [holds, Contract.opening, void, undeclared]
  · simp [holds, Contract.opening, linkedFirst]
  · simp [holds, Contract.opening, linkedSecond]
  · rintro rfl
    exact absurd (distinct "ui" "also" first linkedFirst linkedSecond) (by decide)

end Machine

end ContractScript
