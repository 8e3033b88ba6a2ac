import ContractScript.Program.Canonical
import ContractScript.Proofs.Program.Reading
import ContractScript.Proofs.Table

/-!
Programs spelled out as tokens. Programs that come from tokens are well-formed, and a well-formed
program is read back from each of its spellings, whatever the order of contracts in it and of
members in a contract.
-/

namespace ContractScript

open Grammar Token

structure Method.WellFormed (m : Method) : Prop where
  params : ∀ param ∈ m.params, param ≠ "," ∧ param ≠ ")"
  body : Balanced 0 m.body

structure Contract.WellFormed (c : Contract) : Prop where
  fields : ∀ name decl, c.fields.get? name = some decl → decl.value = none
  methods : ∀ name m, c.methods.get? name = some m → m.name = name ∧ m.WellFormed

/-- Contracts and methods are filed under their names, and fields have no values. -/
def Program.WellFormed (p : Program) : Prop :=
  ∀ name c, p.contracts.get? name = some c → c.name = name ∧ c.WellFormed

namespace Declaration

def WellFormed : Declaration → Prop
  | link .. => True
  | field _ decl => decl.value = none
  | method m => m.WellFormed

def paramTokens (params : List String) : List Token :=
  [comma].intercalate (params.map fun param => [⟨param⟩])

/-- The full form of a declaration, with no option left out. -/
def tokens : Declaration → List Token
  | link localName module => linkTokens ⟨module⟩ ⟨localName⟩
  | field name decl =>
    [decl.access.token, ⟨"var"⟩, ⟨name⟩, colon, ⟨decl.type⟩, semicolon]
  | method m =>
    [m.access.token, ⟨"func"⟩, ⟨m.name⟩, parenOpen] ++ paramTokens m.params ++
      [parenClose, arrow, ⟨m.returnType⟩, braceOpen] ++ m.body ++ [braceClose]

def link? : Declaration → Option (String × String)
  | link localName module => some (localName, module)
  | _ => none

def field? : Declaration → Option (String × FieldDecl)
  | field name decl => some (name, decl)
  | _ => none

def method? : Declaration → Option (String × Method)
  | method m => some (m.name, m)
  | _ => none

end Declaration

/-- Everything that a contract declares, in the order of its tables. -/
def Contract.declarations (c : Contract) : List Declaration :=
  c.imports.entries.map (fun entry => .link entry.1 entry.2) ++
    c.fields.entries.map (fun entry => .field entry.1 entry.2) ++
      c.methods.entries.map fun entry => .method entry.2

/-- A spelling of a contract, its members in any order. -/
def Contract.Renders (c : Contract) (tokens : List Token) : Prop :=
  ∃ declared : List Declaration, declared.Perm c.declarations ∧
    tokens = ⟨"contract"⟩ :: ⟨c.name⟩ :: braceOpen ::
      (declared.flatMap Declaration.tokens ++ [braceClose])

/-- A spelling of a program, its contracts in any order. -/
def Program.Renders (p : Program) (tokens : List Token) : Prop :=
  ∃ (contracts : List Contract) (parts : List (List Token)),
    contracts.Perm (p.contracts.entries.map (·.2)) ∧
      List.Forall₂ Contract.Renders contracts parts ∧ tokens = parts.flatten

namespace Declaration

theorem mem_paramTokens {params : List String} {t : Token} (member : t ∈ paramTokens params) :
    t = comma ∨ t.text ∈ params := by
  induction params with
  | nil => cases member
  | cons param rest ih =>
    cases rest with
    | nil =>
      obtain rfl : t = ⟨param⟩ := by simpa [paramTokens] using member
      exact .inr List.mem_cons_self
    | cons next rest =>
      have split : t = ⟨param⟩ ∨ t = comma ∨ t ∈ paramTokens (next :: rest) := by
        simpa [paramTokens] using member
      rcases split with rfl | rfl | later
      · exact .inr List.mem_cons_self
      · exact .inl rfl
      · exact (ih later).imp_right (List.mem_cons_of_mem _)

theorem parameterNames_paramTokens {params : List String} (plain : "," ∉ params) :
    parameterNames (paramTokens params) = params := by
  by_cases none : params = []
  · subst none
    rfl
  · have groups : (paramTokens params).splitOn comma = params.map fun param => [⟨param⟩] := by
      refine List.splitOn_intercalate comma ?_ (by simpa using none)
      intro group member inside
      obtain ⟨param, among, rfl⟩ := List.mem_map.mp member
      obtain rfl : param = "," := by simpa [comma, eq_comm] using inside
      exact plain among
    simp [parameterNames, groups, List.filterMap_map, Function.comp_def]

theorem WellFormed.member {d : Declaration} (wellFormed : d.WellFormed) (rest : List Token) :
    Member (d.tokens ++ rest) (some d) rest := by
  cases d with
  | link localName module => exact .link ⟨module⟩ ⟨localName⟩ rest
  | field name decl =>
    obtain ⟨access, type, value⟩ := decl
    obtain rfl : value = none := wellFormed
    exact .field access ⟨name⟩ (.given ⟨type⟩ _) (.given rest)
  | method m =>
    obtain ⟨name, access, params, type, body⟩ := m
    have noComma : "," ∉ params := fun member => (wellFormed.params _ member).1 rfl
    have open_ : parenClose ∉ paramTokens params := by
      intro member
      rcases mem_paramTokens member with same | among
      · exact absurd same (by decide)
      · exact (wellFormed.params _ among).2 rfl
    have spelled : Member _ _ rest :=
      .method access ⟨name⟩ open_ (.given ⟨type⟩ _) wellFormed.body
    rw [parameterNames_paramTokens noComma] at spelled
    simpa [tokens] using spelled

theorem members_of_wellFormed {declared : List Declaration}
    (wellFormed : ∀ d ∈ declared, d.WellFormed) (rest : List Token) :
    Members (declared.flatMap tokens ++ braceClose :: rest) declared rest := by
  induction declared with
  | nil => exact .close rest
  | cons d declared ih =>
    have more := ih fun other member => wellFormed other (List.mem_cons_of_mem _ member)
    rw [List.flatMap_cons, List.append_assoc]
    exact .next ((wellFormed d List.mem_cons_self).member _) more

end Declaration

namespace Contract

open Declaration

theorem ofDeclarations_eq (name : String) (declared : List Declaration) :
    ofDeclarations name declared = ⟨name, .ofList (declared.filterMap field?),
      .ofList (declared.filterMap method?), .ofList (declared.filterMap link?)⟩ := by
  suffices grown : ∀ c : Contract, declared.foldl declare c =
      ⟨c.name, c.fields.insertAll (declared.filterMap field?),
        c.methods.insertAll (declared.filterMap method?),
        c.imports.insertAll (declared.filterMap link?)⟩ from grown (.named name)
  induction declared with
  | nil => exact fun c => rfl
  | cons d declared ih =>
    intro c
    rw [List.foldl_cons, ih]
    cases d <;> rfl

/-- Tables do not show in which order declarations were made, as long as no two have the same
key. -/
theorem ofDeclarations_perm {c : Contract} (wellFormed : c.WellFormed)
    {declared : List Declaration} (arranged : declared.Perm c.declarations) :
    ofDeclarations c.name declared = c := by
  have links : c.declarations.filterMap link? = c.imports.entries := by
    simp [declarations, List.filterMap_append, List.filterMap_map, Function.comp_def, link?]
  have fields : c.declarations.filterMap field? = c.fields.entries := by
    simp [declarations, List.filterMap_append, List.filterMap_map, Function.comp_def, field?]
  have methods : c.declarations.filterMap method? = c.methods.entries := by
    have named := c.methods.map_named fun name m found => (wellFormed.methods name m found).1
    simpa [declarations, List.filterMap_append, List.filterMap_map, Function.comp_def, method?]
      using named
  rw [ofDeclarations_eq, Table.ofList_perm (fields ▸ arranged.filterMap field?),
    Table.ofList_perm (methods ▸ arranged.filterMap method?),
    Table.ofList_perm (links ▸ arranged.filterMap link?)]

theorem declarations_wellFormed {c : Contract} (wellFormed : c.WellFormed) :
    ∀ d ∈ c.declarations, d.WellFormed := by
  intro d member
  simp only [declarations, List.mem_append, List.mem_map] at member
  rcases member with (⟨entry, _, rfl⟩ | ⟨entry, held, rfl⟩) | ⟨entry, held, rfl⟩
  · trivial
  · exact wellFormed.fields _ _ ((Table.mem_entries_iff ..).mp held)
  · exact (wellFormed.methods _ _ ((Table.mem_entries_iff ..).mp held)).2

theorem mem_of_method {name key : String} {declared : List Declaration} {m : Method}
    (found : (ofDeclarations name declared).methods.get? key = some m) :
    .method m ∈ declared ∧ m.name = key := by
  rw [ofDeclarations_eq] at found
  obtain ⟨d, member, same⟩ := List.mem_filterMap.mp (Table.mem_of_get?_ofList found)
  cases d with
  | method =>
    cases same
    exact ⟨member, rfl⟩
  | _ => cases same

theorem ofDeclarations_wellFormed {declared : List Declaration}
    (wellFormed : ∀ d ∈ declared, d.WellFormed) (name : String) :
    (ofDeclarations name declared).WellFormed := by
  constructor
  · intro field decl found
    rw [ofDeclarations_eq] at found
    obtain ⟨d, member, same⟩ := List.mem_filterMap.mp (Table.mem_of_get?_ofList found)
    cases d with
    | field =>
      cases same
      exact wellFormed _ member
    | _ => cases same
  · intro key m found
    obtain ⟨member, named⟩ := mem_of_method found
    exact ⟨named, wellFormed _ member⟩

end Contract

namespace Grammar

theorem mem_laterNames {fresh : Bool} {group : List Token} {name : String}
    (member : name ∈ laterNames fresh group) : ∃ t ∈ group, t ≠ comma ∧ t.text = name := by
  induction group generalizing fresh with
  | nil =>
    rw [laterNames_nil] at member
    cases member
  | cons t group ih =>
    by_cases separates : t = comma
    · subst separates
      rw [laterNames_comma] at member
      obtain ⟨named, among, found⟩ := ih member
      exact ⟨named, List.mem_cons_of_mem _ among, found⟩
    · rw [laterNames_cons fresh separates] at member
      rcases List.mem_append.mp member with first | later
      · have same : name = t.text := by cases fresh <;> simp_all
        exact ⟨t, List.mem_cons_self, separates, same.symm⟩
      · obtain ⟨named, among, found⟩ := ih later
        exact ⟨named, List.mem_cons_of_mem _ among, found⟩

theorem Member.wellFormed {tokens rest : List Token} {d : Declaration}
    (member : Member tokens (some d) rest) : d.WellFormed := by
  cases member with
  | link module localName => trivial
  | field access name typed ended => rfl
  | method access name open_ typed balanced =>
    refine ⟨fun param among => ?_, balanced⟩
    have later : param ∈ laterNames true _ := among
    obtain ⟨t, inGroup, notComma, rfl⟩ := mem_laterNames later
    constructor
    · exact fun same => notComma (text_eq_iff.mp same)
    · intro same
      obtain rfl := text_eq_iff.mp same
      exact open_ inGroup

theorem Members.wellFormed {tokens rest : List Token} {declared : List Declaration}
    (members : Members tokens declared rest) : ∀ d ∈ declared, d.WellFormed := by
  induction members with
  | close rest =>
    intro d member
    cases member
  | next member more ih =>
    intro d among
    rcases List.mem_append.mp among with here | later
    · obtain rfl := Option.mem_toList.mp here
      exact member.wellFormed
    · exact ih d later

theorem Contracts.wellFormed {tokens : List Token} {contracts : List Contract}
    (read : Contracts tokens contracts) : ∀ c ∈ contracts, c.WellFormed := by
  induction read with
  | done =>
    intro c member
    cases member
  | contract name members more ih =>
    intro c among
    rcases List.mem_cons.mp among with rfl | later
    · exact Contract.ofDeclarations_wellFormed members.wellFormed name.text
    · exact ih c later
  | link module localName more ih => exact ih
  | skip notContract notLink more ih => exact ih

theorem contracts_of_renders {contracts : List Contract} {parts : List (List Token)}
    (wellFormed : ∀ c ∈ contracts, c.WellFormed)
    (renders : List.Forall₂ Contract.Renders contracts parts) :
    Contracts parts.flatten contracts := by
  induction renders with
  | nil => exact .done
  | @cons c part contracts parts spelled renders ih =>
    obtain ⟨declared, arranged, rfl⟩ := spelled
    have here := wellFormed c List.mem_cons_self
    have proper : ∀ d ∈ declared, d.WellFormed := fun d member =>
      Contract.declarations_wellFormed here d (arranged.subset member)
    have more := ih fun other member => wellFormed other (List.mem_cons_of_mem _ member)
    have read := Contracts.contract ⟨c.name⟩
      (Declaration.members_of_wellFormed proper parts.flatten) more
    rw [Contract.ofDeclarations_perm here arranged] at read
    simpa using read

end Grammar

namespace Program

theorem ofContracts_eq (contracts : List Contract) :
    ofContracts contracts = ⟨.ofList (contracts.map fun c => (c.name, c))⟩ := by
  suffices grown : ∀ p : Program, contracts.foldl addContract p =
      ⟨p.contracts.insertAll (contracts.map fun c => (c.name, c))⟩ from grown .empty
  induction contracts with
  | nil => exact fun p => rfl
  | cons c contracts ih =>
    intro p
    rw [List.foldl_cons, ih]
    rfl

theorem ofContracts_perm {p : Program} (wellFormed : p.WellFormed) {contracts : List Contract}
    (arranged : contracts.Perm (p.contracts.entries.map (·.2))) : ofContracts contracts = p := by
  let filed : Contract → String × Contract := fun c => (c.name, c)
  have pairs : (p.contracts.entries.map (·.2)).map filed = p.contracts.entries := by
    rw [List.map_map]
    exact p.contracts.map_named fun name c found => (wellFormed name c found).1
  rw [ofContracts_eq, Table.ofList_perm (pairs ▸ arranged.map filed)]

theorem mem_of_contract {contracts : List Contract} {key : String} {c : Contract}
    (found : (ofContracts contracts).contracts.get? key = some c) :
    c ∈ contracts ∧ c.name = key := by
  rw [ofContracts_eq] at found
  obtain ⟨c, member, same⟩ := List.mem_map.mp (Table.mem_of_get?_ofList found)
  cases same
  exact ⟨member, rfl⟩

theorem ofContracts_wellFormed {contracts : List Contract}
    (wellFormed : ∀ c ∈ contracts, c.WellFormed) : (ofContracts contracts).WellFormed := by
  intro name c found
  obtain ⟨member, named⟩ := mem_of_contract found
  exact ⟨named, wellFormed c member⟩

theorem exists_renders (p : Program) : ∃ tokens, p.Renders tokens := by
  let spelled : Contract → List Token := fun c =>
    ⟨"contract"⟩ :: ⟨c.name⟩ :: braceOpen ::
      (c.declarations.flatMap Declaration.tokens ++ [braceClose])
  let contracts := p.contracts.entries.map (·.2)
  refine ⟨(contracts.map spelled).flatten, contracts, contracts.map spelled, .refl _, ?_, rfl⟩
  rw [List.forall₂_map_right_iff, List.forall₂_same]
  exact fun c _ => ⟨c.declarations, .refl _, rfl⟩

theorem ofTokens_of_renders {p : Program} (wellFormed : p.WellFormed) {tokens : List Token}
    (renders : p.Renders tokens) : ofTokens tokens = .ok p := by
  obtain ⟨contracts, parts, arranged, spelled, rfl⟩ := renders
  have proper : ∀ c ∈ contracts, c.WellFormed := by
    intro c member
    obtain ⟨⟨name, _⟩, held, rfl⟩ := List.mem_map.mp (arranged.subset member)
    exact (wellFormed name _ ((Table.mem_entries_iff ..).mp held)).2
  rw [ofTokens_eq_ok_iff_accepts, ← ofContracts_perm wellFormed arranged]
  exact Reader.accepts_of_contracts (contracts_of_renders proper spelled)

theorem wellFormed_of_ofTokens {source : List Token} {p : Program}
    (read : ofTokens source = .ok p) : p.WellFormed := by
  obtain ⟨contracts, derived, rfl⟩ :=
    Reader.contracts_of_accepts ((ofTokens_eq_ok_iff_accepts source p).mp read)
  exact ofContracts_wellFormed derived.wellFormed

/-- Well-formed programs are those that tokens are read as, and each spelling of one is read as that
program. So a program that was read can be spelled out and read again without a change. -/
theorem spelling_faithful (p : Program) :
    (p.WellFormed ↔ ∃ source, ofTokens source = .ok p) ∧
    ∀ tokens, p.Renders tokens →
      (p.WellFormed → ofTokens tokens = .ok p) ∧
      ∀ source, ofTokens source = .ok p →
        ofTokens tokens = ofTokens source ∧
          (ofTokens tokens).map fingerprint = .ok p.fingerprint := by
  constructor
  · constructor
    · intro wellFormed
      obtain ⟨tokens, renders⟩ := p.exists_renders
      exact ⟨tokens, ofTokens_of_renders wellFormed renders⟩
    · rintro ⟨source, read⟩
      exact wellFormed_of_ofTokens read
  · intro tokens renders
    refine ⟨fun wellFormed => ofTokens_of_renders wellFormed renders, fun source read => ?_⟩
    have again := ofTokens_of_renders (wellFormed_of_ofTokens read) renders
    rw [again, read]
    exact ⟨rfl, rfl⟩

/-- A contract with reserved words for names, and braces in a body. -/
def reserved : Contract :=
  (((Contract.named "import").addImport "aka" "\x7d").addField "var"
    ⟨.internal, "func", none⟩).addMethod
      ⟨"contract", .exposed, ["(", ":", ""], ";", Token.scan "if \x7b \x7d"⟩

/-- A spelling of it with the members in the opposite order. -/
def reservedTokens : List Token :=
  ⟨"contract"⟩ :: ⟨"import"⟩ :: braceOpen ::
    (reserved.declarations.reverse.flatMap Declaration.tokens ++ [braceClose])

theorem spelling_faithful_reserved :
    ofTokens reservedTokens = .ok (empty.addContract reserved) ∧
    (empty.addContract reserved).WellFormed ∧
    (empty.addContract reserved).Renders reservedTokens ∧
    (ofTokens reservedTokens).map fingerprint = .ok (empty.addContract reserved).fingerprint := by
  have read : ofTokens reservedTokens = .ok (empty.addContract reserved) := by decide +kernel
  have renders : (empty.addContract reserved).Renders reservedTokens := by
    refine ⟨[reserved], [reservedTokens], .refl _, .cons ?_ .nil, by simp⟩
    exact ⟨reserved.declarations.reverse, List.reverse_perm _, rfl⟩
  obtain ⟨image, spelled⟩ := spelling_faithful (empty.addContract reserved)
  have wellFormed := image.mpr ⟨reservedTokens, read⟩
  have again := (spelled reservedTokens renders).1 wellFormed
  exact ⟨again, wellFormed, renders, ((spelled reservedTokens renders).2 reservedTokens read).2⟩

end Program

end ContractScript
