import ContractScript.Program

/-!
The grammar of programs as a relation. A rule relates the tokens at a place to what they declare and
to the tokens that follow. Rules that may be left out are taken wherever they can be, and a rule
that passes over tokens applies only where no other rule does, so that tokens have one reading.
-/

namespace ContractScript

namespace Token

def braceOpen : Token := ⟨"\x7b"⟩

def braceClose : Token := ⟨"\x7d"⟩

def parenOpen : Token := ⟨"("⟩

def parenClose : Token := ⟨")"⟩

def comma : Token := ⟨","⟩

def colon : Token := ⟨":"⟩

def semicolon : Token := ⟨";"⟩

theorem text_eq_iff {t : Token} {text : String} : t.text = text ↔ t = ⟨text⟩ := by
  cases t
  simp

theorem text_ne {t : Token} {text : String} (differ : t ≠ ⟨text⟩) : t.text ≠ text :=
  fun same => differ (text_eq_iff.mp same)

end Token

def Access.token (access : Access) : Token := ⟨access.keyword⟩

theorem Access.ofKeyword?_eq_some_iff {t : Token} {access : Access} :
    Access.ofKeyword? t.text = some access ↔ t = access.token := by
  rw [← Token.text_eq_iff]
  constructor
  · intro found
    have matched := List.find?_some found
    exact (of_decide_eq_true matched).symm
  · intro same
    cases access <;> rw [same] <;> rfl

theorem Access.ofKeyword?_eq_none_iff {t : Token} :
    Access.ofKeyword? t.text = none ↔ ∀ access : Access, t ≠ access.token := by
  rw [Option.eq_none_iff_forall_ne_some]
  exact forall_congr' fun access => not_congr Access.ofKeyword?_eq_some_iff

/-- What a member of a contract declares. -/
inductive Declaration where
  | link (localName module : String)
  | field (name : String) (decl : FieldDecl)
  | method (method : Method)

/-- A contract with one declaration more. An earlier declaration of the same kind and name gives
way. -/
def Contract.declare (c : Contract) : Declaration → Contract
  | .link localName module => c.addImport localName module
  | .field name decl => c.addField name decl
  | .method method => c.addMethod method

def Contract.ofDeclarations (name : String) (declared : List Declaration) : Contract :=
  declared.foldl Contract.declare (.named name)

def Program.ofContracts (contracts : List Contract) : Program :=
  contracts.foldl Program.addContract .empty

namespace Grammar

open Token

/-- Behind `depth` open braces, the tokens close every brace that is open and open no other, and
never close more than are open. -/
structure Balanced (depth : Nat) (tokens : List Token) : Prop where
  within : ∀ front, front <+: tokens → front.count braceClose ≤ depth + front.count braceOpen
  total : tokens.count braceClose = depth + tokens.count braceOpen

/-- The first tokens of the groups that commas separate. Groups without a token count for
nothing. -/
def parameterNames (group : List Token) : List String :=
  ((group.splitOn comma).filterMap List.head?).map Token.text

/-- `import MODULE aka ALIAS ;` -/
def linkTokens (module localName : Token) : List Token :=
  [⟨"import"⟩, module, ⟨"aka"⟩, localName, semicolon]

/-- A type behind its mark, or else the type that stands for a missing one. -/
inductive Annotation (mark : Token) (missing : String) :
    List Token → String → List Token → Prop
  | given (type : Token) (rest : List Token) :
      Annotation mark missing (mark :: type :: rest) type.text rest
  | absent {rest} (other : rest.head? ≠ some mark) : Annotation mark missing rest missing rest

inductive Terminator : List Token → List Token → Prop
  | given (rest : List Token) : Terminator (semicolon :: rest) rest
  | absent {rest} (other : rest.head? ≠ some semicolon) : Terminator rest rest

/-- One member of a contract, or tokens that declare nothing there. -/
inductive Member : List Token → Option Declaration → List Token → Prop
  | link (module localName : Token) (rest : List Token) :
      Member (linkTokens module localName ++ rest) (some (.link localName.text module.text)) rest
  | field (access : Access) (name : Token) {tokens type after rest}
      (typed : Annotation colon FieldDecl.unknownType tokens type after)
      (ended : Terminator after rest) :
      Member (access.token :: ⟨"var"⟩ :: name :: tokens)
        (some (.field name.text ⟨access, type, none⟩)) rest
  | method (access : Access) (name : Token) {params tokens type body rest}
      (open_ : parenClose ∉ params)
      (typed : Annotation arrow Method.voidType tokens type
        (braceOpen :: (body ++ braceClose :: rest)))
      (balanced : Balanced 0 body) :
      Member (access.token :: ⟨"func"⟩ :: name :: parenOpen :: (params ++ parenClose :: tokens))
        (some (.method ⟨name.text, access, parameterNames params, type, body⟩)) rest
  | skipModified (access : Access) {t : Token} (rest : List Token) (notField : t ≠ ⟨"var"⟩)
      (notMethod : t ≠ ⟨"func"⟩) : Member (access.token :: t :: rest) none rest
  | skip {t : Token} (rest : List Token) (notClose : t ≠ braceClose) (notLink : t ≠ ⟨"import"⟩)
      (notAccess : ∀ access : Access, t ≠ access.token) : Member (t :: rest) none rest

/-- The members of a contract and its closing brace. -/
inductive Members : List Token → List Declaration → List Token → Prop
  | close (rest : List Token) : Members (braceClose :: rest) [] rest
  | next {tokens declaration after declared rest} (member : Member tokens declaration after)
      (more : Members after declared rest) : Members tokens (declaration.toList ++ declared) rest

inductive Contracts : List Token → List Contract → Prop
  | done : Contracts [] []
  | contract (name : Token) {tokens declared rest contracts}
      (members : Members tokens declared rest) (more : Contracts rest contracts) :
      Contracts (⟨"contract"⟩ :: name :: braceOpen :: tokens)
        (.ofDeclarations name.text declared :: contracts)
  | link (module localName : Token) {rest contracts} (more : Contracts rest contracts) :
      Contracts (linkTokens module localName ++ rest) contracts
  | skip {t : Token} {rest contracts} (notContract : t ≠ ⟨"contract"⟩) (notLink : t ≠ ⟨"import"⟩)
      (more : Contracts rest contracts) : Contracts (t :: rest) contracts

/-- The tokens are a program of the grammar, and it is this one. -/
def Derives (tokens : List Token) (p : Program) : Prop :=
  ∃ contracts, Contracts tokens contracts ∧ p = .ofContracts contracts

theorem Terminator.length_le {tokens rest : List Token} (ended : Terminator tokens rest) :
    rest.length ≤ tokens.length := by
  cases ended with
  | given rest => simp
  | absent other => exact Nat.le_refl _

theorem Annotation.length_le {mark : Token} {missing type : String} {tokens rest : List Token}
    (typed : Annotation mark missing tokens type rest) : rest.length ≤ tokens.length := by
  cases typed with
  | given type rest => simp only [List.length_cons]; omega
  | absent other => exact Nat.le_refl _

theorem Member.shorter {tokens rest : List Token} {declaration : Option Declaration}
    (member : Member tokens declaration rest) : rest.length < tokens.length := by
  cases member with
  | link module localName rest => simp [linkTokens]; omega
  | field access name typed ended =>
    have first := typed.length_le
    have last := ended.length_le
    simp only [List.length_cons]
    omega
  | method access name open_ typed balanced =>
    have tail := typed.length_le
    simp only [List.length_cons, List.length_append] at tail ⊢
    omega
  | skipModified access rest notField notMethod => simp only [List.length_cons]; omega
  | skip rest notClose notLink notAccess => simp

theorem Members.shorter {tokens rest : List Token} {declared : List Declaration}
    (members : Members tokens declared rest) : rest.length < tokens.length := by
  induction members with
  | close rest => simp
  | next member more ih => exact Nat.lt_trans ih member.shorter

namespace Balanced

variable {depth : Nat} {t : Token} {tokens : List Token}

theorem nil_iff : Balanced depth [] ↔ depth = 0 := by
  constructor
  · intro balanced
    have total := balanced.total
    simp only [List.count_nil] at total
    omega
  · rintro rfl
    refine ⟨fun front part => ?_, rfl⟩
    rw [List.prefix_nil.mp part]
    exact Nat.le_refl _

/-- Counting from the second token on, when the first one changes the depth. -/
theorem cons_iff {depth' : Nat} (shift : ∀ front : List Token,
      depth + (t :: front).count braceOpen + front.count braceClose =
        depth' + front.count braceOpen + (t :: front).count braceClose) :
    Balanced depth (t :: tokens) ↔ Balanced depth' tokens := by
  constructor
  · rintro ⟨within, total⟩
    refine ⟨fun front part => ?_, ?_⟩
    · have counted := within (t :: front) (List.cons_prefix_cons.mpr ⟨rfl, part⟩)
      have := shift front
      omega
    · have := shift tokens
      omega
  · rintro ⟨within, total⟩
    refine ⟨fun front part => ?_, ?_⟩
    · cases front with
      | nil => simp
      | cons head front =>
        obtain ⟨same, inner⟩ := List.cons_prefix_cons.mp part
        subst same
        have counted := within front inner
        have := shift front
        omega
    · have := shift tokens
      omega

theorem open_iff : Balanced depth (braceOpen :: tokens) ↔ Balanced (depth + 1) tokens := by
  refine cons_iff fun front => ?_
  have other : braceOpen ≠ braceClose := by decide
  rw [List.count_cons_self, List.count_cons_of_ne other]
  omega

theorem close_iff : Balanced (depth + 1) (braceClose :: tokens) ↔ Balanced depth tokens := by
  refine cons_iff fun front => ?_
  have other : braceClose ≠ braceOpen := by decide
  rw [List.count_cons_self, List.count_cons_of_ne other]
  omega

theorem not_close : ¬Balanced 0 (braceClose :: tokens) := by
  intro balanced
  have counted := balanced.within [braceClose] (List.cons_prefix_cons.mpr ⟨rfl, List.nil_prefix⟩)
  exact absurd counted (by decide)

theorem other_iff (notOpen : t ≠ braceOpen) (notClose : t ≠ braceClose) :
    Balanced depth (t :: tokens) ↔ Balanced depth tokens := by
  refine cons_iff fun front => ?_
  rw [List.count_cons_of_ne notOpen, List.count_cons_of_ne notClose]

end Balanced

/-- The names that the rest of a parameter list adds, at the start of a group or inside one. -/
def laterNames (fresh : Bool) (group : List Token) : List String :=
  let groups := group.splitOn comma
  ((if fresh then groups else groups.tail).filterMap List.head?).map Token.text

theorem laterNames_nil (fresh : Bool) : laterNames fresh [] = [] := by
  cases fresh <;> rfl

theorem laterNames_comma (fresh : Bool) (group : List Token) :
    laterNames fresh (comma :: group) = laterNames true group := by
  have split : (comma :: group).splitOn comma = [] :: group.splitOn comma := by
    simp [List.splitOn_cons_eq_if_modifyHead]
  cases fresh <;> (simp only [laterNames, split]; rfl)

theorem laterNames_cons (fresh : Bool) {t : Token} (other : t ≠ comma) (group : List Token) :
    laterNames fresh (t :: group) =
      (if fresh then [t.text] else []) ++ laterNames false group := by
  obtain ⟨first, groups, split⟩ := List.exists_cons_of_ne_nil (List.splitOn_ne_nil comma group)
  have longer : (t :: group).splitOn comma = (t :: first) :: groups := by
    simp [List.splitOn_cons_eq_if_modifyHead, other, split]
  cases fresh <;> simp [laterNames, longer, split]

end Grammar

end ContractScript
