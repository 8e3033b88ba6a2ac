import ContractScript.Proofs.Program.Joining
import Mathlib.Logic.Equiv.Basic

/-!
Reading under a change of texts. But for its reserved words the grammar never looks at the text of a
token, so a change that keeps them, and keeps different texts different, goes through reading as it
is. Main statement: what is read is the same program with the texts changed, and what is refused is
refused at the same token for the same reason.
-/

namespace ContractScript

open Token (arrow)

/-- The words that the grammar asks for, and the types that it puts where none is given. -/
def reservedWords : List String :=
  ["contract", "import", "aka", "public", "private", "var", "func", "\x7b", "\x7d", "(", ")", ":",
    ";", ",", "->", FieldDecl.unknownType, Method.voidType]

/-- A change of texts that keeps reserved words and makes no two texts one. -/
structure Renaming where
  apply : String → String
  injective : Function.Injective apply
  fixes : ∀ word ∈ reservedWords, apply word = word

theorem Renaming.apply_eq_iff (f : Renaming) {word : String} (reserved : word ∈ reservedWords)
    {text : String} : f.apply text = word ↔ text = word := by
  constructor
  · intro same
    exact f.injective (same.trans (f.fixes word reserved).symm)
  · rintro rfl
    exact f.fixes text reserved

def Token.rename (f : Renaming) (t : Token) : Token := ⟨f.apply t.text⟩

theorem Token.rename_eq_iff (f : Renaming) {word : String} (reserved : word ∈ reservedWords)
    {t : Token} : t.rename f = ⟨word⟩ ↔ t = ⟨word⟩ := by
  rw [← text_eq_iff, ← text_eq_iff]
  exact f.apply_eq_iff reserved

theorem Access.ofKeyword?_rename (f : Renaming) (t : Token) :
    ofKeyword? (t.rename f).text = ofKeyword? t.text := by
  refine Option.ext fun access => ?_
  have reserved : access.keyword ∈ reservedWords := by cases access <;> decide
  rw [ofKeyword?_eq_some_iff, ofKeyword?_eq_some_iff]
  exact Token.rename_eq_iff f reserved

def FieldDecl.rename (f : Renaming) (d : FieldDecl) : FieldDecl :=
  { d with type := f.apply d.type }

def Method.rename (f : Renaming) (m : Method) : Method :=
  ⟨f.apply m.name, m.access, m.params.map f.apply, f.apply m.returnType, m.body.map (.rename f)⟩

def Contract.rename (f : Renaming) (c : Contract) : Contract :=
  ⟨f.apply c.name, c.fields.rename f.apply (.rename f), c.methods.rename f.apply (.rename f),
    c.imports.rename f.apply f.apply⟩

namespace Program

def rename (f : Renaming) (p : Program) : Program :=
  ⟨p.contracts.rename f.apply (.rename f)⟩

def Signature.rename (f : Renaming) (s : Signature) : Signature :=
  ⟨f.apply s.name, s.access, s.params.map f.apply, f.apply s.returnType⟩

def Place.rename (f : Renaming) : Place → Place
  | top => top
  | importModule inside => importModule (inside.map (.rename f))
  | importAka inside module => importAka (inside.map (.rename f)) (f.apply module)
  | importAlias inside module => importAlias (inside.map (.rename f)) (f.apply module)
  | importEnd inside module localName =>
    importEnd (inside.map (.rename f)) (f.apply module) (f.apply localName)
  | contractName => contractName
  | contractOpen name => contractOpen (f.apply name)
  | member c => member (c.rename f)
  | memberKind c access => memberKind (c.rename f) access
  | fieldName c access => fieldName (c.rename f) access
  | fieldColon c access name => fieldColon (c.rename f) access (f.apply name)
  | fieldType c access name => fieldType (c.rename f) access (f.apply name)
  | fieldEnd c => fieldEnd (c.rename f)
  | methodName c access => methodName (c.rename f) access
  | paramsOpen c access name => paramsOpen (c.rename f) access (f.apply name)
  | params c access name reversed fresh =>
    params (c.rename f) access (f.apply name) (reversed.map f.apply) fresh
  | returnArrow c s => returnArrow (c.rename f) (s.rename f)
  | returnType c s => returnType (c.rename f) (s.rename f)
  | bodyOpen c s => bodyOpen (c.rename f) (s.rename f)
  | body c s depth reversed => body (c.rename f) (s.rename f) depth (reversed.map (.rename f))

def Reader.rename (f : Renaming) (r : Reader) : Reader :=
  ⟨r.program.rename f, r.place.rename f⟩

end Program

variable {f : Renaming}

namespace Contract

theorem rename_addImport (c : Contract) (localName module : String) :
    (c.addImport localName module).rename f =
      (c.rename f).addImport (f.apply localName) (f.apply module) := by
  simp only [rename, addImport, Table.rename_insert f.injective]

theorem rename_addField (c : Contract) (name : String) (decl : FieldDecl) :
    (c.addField name decl).rename f = (c.rename f).addField (f.apply name) (decl.rename f) := by
  simp only [rename, addField, Table.rename_insert f.injective]

/-- The type that stands where none is given stays. -/
theorem rename_addUntyped (c : Contract) (access : Access) (name : String) :
    (c.addField name ⟨access, FieldDecl.unknownType, none⟩).rename f =
      (c.rename f).addField (f.apply name) ⟨access, FieldDecl.unknownType, none⟩ := by
  rw [rename_addField, FieldDecl.rename, f.fixes FieldDecl.unknownType (by decide)]

theorem rename_addMethod (c : Contract) (m : Method) :
    (c.addMethod m).rename f = (c.rename f).addMethod (m.rename f) := by
  simp only [rename, addMethod, Table.rename_insert f.injective]
  rfl

end Contract

namespace Program

/-- The return type that stands where none is given stays. -/
theorem Signature.rename_untyped (name : String) (access : Access) (params : List String) :
    Signature.rename f ⟨name, access, params, Method.voidType⟩ =
      ⟨f.apply name, access, params.map f.apply, Method.voidType⟩ := by
  rw [Signature.rename, f.fixes Method.voidType (by decide)]

theorem Signature.rename_toMethod (s : Signature) (body : List Token) :
    (s.toMethod body).rename f = (s.rename f).toMethod (body.map (.rename f)) := rfl

theorem rename_addContract (p : Program) (c : Contract) :
    (p.addContract c).rename f = (p.rename f).addContract (c.rename f) := by
  simp only [rename, addContract, Table.rename_insert f.injective]
  rfl

namespace Reader

/-- What depends on a reserved word alone. -/
theorem branch_rename {word : String} (reserved : word ∈ reservedWords) (t : Token)
    {yes no yes' no' : Except String Reader} (taken : yes' = yes.map (rename f))
    (other : no' = no.map (rename f)) :
    (if (t.rename f).text = word then yes' else no') =
      (if t.text = word then yes else no).map (rename f) := by
  simp only [Token.rename, f.apply_eq_iff reserved, taken, other]
  split <;> rfl

theorem want_rename {text : String} (reserved : text ∈ reservedWords) (t : Token)
    {next next' : Reader} (renamed : next' = next.rename f) :
    want text (t.rename f) next' = (want text t next).map (rename f) :=
  branch_rename reserved t (congrArg Except.ok renamed) rfl

theorem afterImport_rename (r : Reader) (module localName : String) (inside : Option Contract) :
    (r.rename f).afterImport (f.apply module) (f.apply localName)
        (inside.map (Contract.rename f)) =
      (r.afterImport module localName inside).rename f := by
  cases inside with
  | none => rfl
  | some c => simp only [afterImport, rename, Option.map_some, Place.rename,
      Contract.rename_addImport]

theorem stepMember_rename (r : Reader) (c : Contract) (t : Token) :
    (r.rename f).stepMember (c.rename f) (t.rename f) = (r.stepMember c t).rename f := by
  simp only [stepMember, Access.ofKeyword?_rename]
  simp (disch := decide) only [Token.rename, f.apply_eq_iff]
  split
  · simp only [rename, rename_addContract]
    rfl
  · split
    · rfl
    · cases Access.ofKeyword? t.text <;> rfl

/-- A step looks at reserved words only. -/
theorem step_rename (r : Reader) (t : Token) :
    (r.rename f).step (t.rename f) = (r.step t).map (rename f) := by
  obtain ⟨program, place⟩ := r
  cases place with
  | importModule | importAlias | contractName | fieldName | methodName | returnType => rfl
  | importAka | contractOpen | paramsOpen | bodyOpen => exact want_rename (by decide) t rfl
  | importEnd inside module localName =>
    exact want_rename (by decide) t (afterImport_rename ..)
  | top | memberKind =>
    refine branch_rename (by decide) t rfl ?_
    exact branch_rename (by decide) t rfl rfl
  | member c => exact congrArg Except.ok (stepMember_rename ⟨program, .member c⟩ c t)
  | fieldColon c access name =>
    have added := Contract.rename_addUntyped (f := f) c access name
    have passed := stepMember_rename (f := f) ⟨program, .fieldColon c access name⟩
      (c.addField name ⟨access, FieldDecl.unknownType, none⟩) t
    rw [added] at passed
    refine branch_rename (by decide) t rfl ?_
    refine branch_rename (by decide) t ?_ (congrArg Except.ok passed)
    exact congrArg (fun c => Except.ok (Reader.mk (program.rename f) (.member c))) added.symm
  | fieldType c access name =>
    have added := Contract.rename_addField (f := f) c name ⟨access, t.text, none⟩
    exact congrArg (fun c => Except.ok (Reader.mk (program.rename f) (.fieldEnd c))) added.symm
  | fieldEnd c =>
    have passed := stepMember_rename (f := f) ⟨program, .fieldEnd c⟩ c t
    exact branch_rename (by decide) t rfl (congrArg Except.ok passed)
  | params c access name reversed fresh =>
    have signature := Signature.rename_untyped (f := f) name access reversed.reverse
    rw [List.map_reverse] at signature
    refine branch_rename (by decide) t ?_ ?_
    · exact congrArg (fun s => Except.ok (Reader.mk (program.rename f) (.returnArrow _ s)))
        signature.symm
    · refine branch_rename (by decide) t rfl ?_
      cases fresh <;> rfl
  | returnArrow c s =>
    -- the arrow is compared as a token and not by its text
    have same : t.rename f = arrow ↔ t = arrow := Token.rename_eq_iff f (by decide)
    by_cases marked : t = arrow
    · simp only [step, rename, Place.rename, if_pos marked, if_pos (same.mpr marked)]
      rfl
    · simp only [step, rename, Place.rename, if_neg marked, if_neg (mt same.mp marked)]
      exact want_rename (by decide) t rfl
  | body c s depth reversed =>
    refine branch_rename (by decide) t rfl (branch_rename (by decide) t ?_ rfl)
    cases depth with
    | zero =>
      have added := Contract.rename_addMethod (f := f) c (s.toMethod reversed.reverse)
      rw [Signature.rename_toMethod, List.map_reverse] at added
      exact congrArg (fun c => Except.ok (Reader.mk (program.rename f) (.member c))) added.symm
    | succ depth => rfl

theorem start_rename : start.rename f = start := rfl

theorem missing_rename (place : Place) : (place.rename f).missing = place.missing := by
  cases place <;> rfl

theorem step_rename_of_eq_ok {r next : Reader} {t : Token} (stepped : r.step t = .ok next) :
    (r.rename f).step (t.rename f) = .ok (next.rename f) := by
  rw [step_rename, stepped]
  rfl

theorem accepts_rename {r : Reader} {tokens : List Token} {p : Program}
    (accepted : r.Accepts tokens p) :
    (r.rename f).Accepts (tokens.map (.rename f)) (p.rename f) := by
  induction tokens generalizing r with
  | nil =>
    obtain ⟨ended, rfl⟩ := accepted
    exact ⟨(missing_rename r.place).trans ended, rfl⟩
  | cons t rest ih =>
    obtain ⟨next, stepped, later⟩ := accepted
    exact ⟨next.rename f, step_rename_of_eq_ok stepped, ih later⟩

theorem reaches_rename {r after : Reader} {front : List Token} (reaches : r.Reaches front after) :
    (r.rename f).Reaches (front.map (.rename f)) (after.rename f) := by
  induction front generalizing r with
  | nil =>
    obtain rfl : r = after := reaches
    rfl
  | cons t front ih =>
    obtain ⟨next, stepped, more⟩ := reaches
    exact ⟨next.rename f, step_rename_of_eq_ok stepped, ih more⟩

theorem refuses_rename {r : Reader} {tokens : List Token} {wanted : String}
    (refuses : r.Refuses tokens wanted) : (r.rename f).Refuses (tokens.map (.rename f)) wanted := by
  cases tokens with
  | nil => exact (missing_rename r.place).trans refuses
  | cons t rest =>
    have stuck : r.step t = .error wanted := refuses
    change (r.rename f).step (t.rename f) = .error wanted
    rw [step_rename, stuck]
    rfl

end Reader

/-- A change of texts goes through reading. The end of the tokens has no text of its own to change,
so an error there says the same as before. -/
theorem ofTokens_rename (f : Renaming) (tokens : List Token) :
    (∀ p, ofTokens tokens = .ok p → ofTokens (tokens.map (.rename f)) = .ok (p.rename f)) ∧
    ∀ e, ofTokens tokens = .error e → ∃ index wanted,
      e = .unexpected index wanted ((tokens[index]?.map Token.text).getD Reader.endOfTokens) ∧
      ofTokens (tokens.map (.rename f)) = .error (.unexpected index wanted
        ((tokens[index]?.map fun t => f.apply t.text).getD Reader.endOfTokens)) := by
  constructor
  · intro p read
    have accepted := Reader.accepts_rename (f := f) ((Reader.readFrom_eq_ok_iff ..).mp read)
    rw [Reader.start_rename] at accepted
    exact (Reader.readFrom_eq_ok_iff ..).mpr accepted
  · intro e failed
    obtain ⟨front, back, after, wanted, rfl, reaches, refuses⟩ :=
      Reader.exists_refuses_of_readFrom failed
    have stopped := ofTokens_of_refuses reaches refuses
    have reachesToo := Reader.reaches_rename (f := f) reaches
    rw [Reader.start_rename] at reachesToo
    have stoppedToo := ofTokens_of_refuses reachesToo (Reader.refuses_rename (f := f) refuses)
    have next : (front ++ back)[front.length]? = back.head? := by
      rw [List.getElem?_append_right (Nat.le_refl _), Nat.sub_self, List.head?_eq_getElem?]
    have seen : Reader.found (back.map (.rename f)) =
        ((back.head?.map fun t => f.apply t.text).getD Reader.endOfTokens) := by
      cases back <;> rfl
    refine ⟨front.length, wanted, ?_, ?_⟩
    · rw [next]
      exact Except.error.inj (failed.symm.trans stopped)
    · rw [next, ← seen, List.map_append, stoppedToo, List.length_map]

/-- A name and a literal with a brace in it change places. -/
def bracedName : Renaming where
  apply := Equiv.swap "grey" "\"\x7d\""
  injective := Equiv.injective _
  fixes := by decide +kernel

def greySource : String :=
  "contract grey \x7b public func main() \x7b print(grey); \x7d \x7d"

def greyProgram : Program :=
  Program.empty.addContract ((Contract.named "grey").addMethod
    ⟨"main", .exposed, [], Method.voidType, Token.scan "print(grey);"⟩)

theorem ofTokens_rename_bracedName :
    ofTokens (Token.scan greySource) = .ok greyProgram ∧
    ofTokens ((Token.scan greySource).map (.rename bracedName)) =
      .ok (greyProgram.rename bracedName) ∧
    (greyProgram.rename bracedName).contracts.keys = ["\"\x7d\""] ∧
    ofTokens unnamedImport = .error (.unexpected 5 "aka" "grey") ∧
    ofTokens (unnamedImport.map (.rename bracedName)) =
      .error (.unexpected 5 "aka" "\"\x7d\"") := by
  have read : ofTokens (Token.scan greySource) = .ok greyProgram := by decide +kernel
  have failed : ofTokens unnamedImport = .error (.unexpected 5 "aka" "grey") := by decide +kernel
  have found : bracedName.apply "grey" = "\"\x7d\"" := by decide +kernel
  have next : unnamedImport[5]? = some ⟨"grey"⟩ := by decide +kernel
  obtain ⟨reads, _⟩ := ofTokens_rename bracedName (Token.scan greySource)
  obtain ⟨_, fails⟩ := ofTokens_rename bracedName unnamedImport
  refine ⟨read, reads _ read, by decide +kernel, failed, ?_⟩
  obtain ⟨index, wanted, same, failedToo⟩ := fails _ failed
  cases same
  rw [failedToo, next, ← found]
  rfl

end Program

end ContractScript
