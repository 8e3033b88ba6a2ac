import ContractScript.Program.Reader
import ContractScript.Proofs.Program.Grammar

/-!
The reader against the grammar. For each place of the reader there is one equivalence: what it takes
from there is what the grammar derives from there. Chained over a member, over the members of a
contract and over contracts, they make the reader accept exactly the derivable tokens.
-/

namespace ContractScript.Program

namespace Reader

open Grammar Token

/-- From `r` the tokens are read to their end, and the program is `p` there. -/
def Accepts : Reader → List Token → Program → Prop
  | r, [], p => r.place.missing = none ∧ r.program = p
  | r, t :: rest, p => ∃ next, r.step t = .ok next ∧ next.Accepts rest p

theorem readFrom_eq_ok_iff (r : Reader) (index : Nat) (tokens : List Token) (p : Program) :
    r.readFrom index tokens = .ok p ↔ r.Accepts tokens p := by
  induction tokens generalizing r index with
  | nil =>
    simp only [readFrom, Accepts]
    cases r.place.missing <;> simp
  | cons t rest ih =>
    simp only [readFrom, Accepts]
    cases r.step t with
    | ok next => simpa using ih next (index + 1)
    | error wanted => simp

variable {program p : Program} {c : Contract} {access : Access} {tokens : List Token}

theorem accepts_cons_of_step {r next : Reader} {t : Token} (stepped : r.step t = .ok next) :
    r.Accepts (t :: tokens) p ↔ next.Accepts tokens p := by
  simp [Accepts, stepped]

theorem not_accepts_nil {r : Reader} {wanted : String} (missing : r.place.missing = some wanted) :
    ¬r.Accepts [] p := by
  simp [Accepts, missing]

/-- A place that takes any token. -/
theorem accepts_any {r : Reader} {wanted : String} {next : Token → Reader}
    (missing : r.place.missing = some wanted) (takes : ∀ t, r.step t = .ok (next t)) :
    r.Accepts tokens p ↔ ∃ t rest, tokens = t :: rest ∧ (next t).Accepts rest p := by
  constructor
  · intro accepted
    cases tokens with
    | nil => exact absurd accepted (not_accepts_nil missing)
    | cons t rest => exact ⟨t, rest, rfl, (accepts_cons_of_step (takes t)).mp accepted⟩
  · rintro ⟨t, rest, rfl, accepted⟩
    exact (accepts_cons_of_step (takes t)).mpr accepted

/-- A place that takes one particular token. -/
theorem accepts_wanted {r next : Reader} {wanted text : String}
    (missing : r.place.missing = some wanted) (takes : ∀ t, r.step t = want text t next) :
    r.Accepts tokens p ↔ ∃ rest, tokens = ⟨text⟩ :: rest ∧ next.Accepts rest p := by
  have stepped : r.step ⟨text⟩ = .ok next := by simp [takes, want]
  constructor
  · intro accepted
    cases tokens with
    | nil => exact absurd accepted (not_accepts_nil missing)
    | cons t rest =>
      by_cases same : t = ⟨text⟩
      · subst same
        exact ⟨rest, rfl, (accepts_cons_of_step stepped).mp accepted⟩
      · have refused : r.step t = .error text := by simp [takes, want, text_eq_iff, same]
        simp [Accepts, refused] at accepted
  · rintro ⟨rest, rfl, accepted⟩
    exact (accepts_cons_of_step stepped).mpr accepted

theorem accepts_link (inside : Option Contract) :
    Accepts ⟨program, .importModule inside⟩ tokens p ↔
      ∃ module localName rest, ⟨"import"⟩ :: tokens = linkTokens module localName ++ rest ∧
        (afterImport ⟨program, .top⟩ module.text localName.text inside).Accepts rest p := by
  have back : ∀ module localName place, afterImport ⟨program, place⟩ module localName inside =
      afterImport ⟨program, .top⟩ module localName inside := by
    intro module localName place
    cases inside <;> rfl
  rw [accepts_any rfl fun _ => rfl]
  constructor
  · rintro ⟨module, _, rfl, atAka⟩
    obtain ⟨_, rfl, atAlias⟩ := (accepts_wanted rfl fun _ => rfl).mp atAka
    obtain ⟨localName, _, rfl, atEnd⟩ := (accepts_any rfl fun _ => rfl).mp atAlias
    obtain ⟨rest, rfl, accepted⟩ := (accepts_wanted rfl fun _ => rfl).mp atEnd
    exact ⟨module, localName, rest, rfl, by rwa [back] at accepted⟩
  · rintro ⟨module, localName, rest, same, accepted⟩
    obtain rfl := (List.cons.inj same).2
    refine ⟨module, _, rfl, (accepts_wanted rfl fun _ => rfl).mpr ⟨_, rfl, ?_⟩⟩
    refine (accepts_any rfl fun _ => rfl).mpr ⟨localName, _, rfl, ?_⟩
    refine (accepts_wanted rfl fun _ => rfl).mpr ⟨_, rfl, ?_⟩
    rwa [back]

/-- Places that treat every token alike but a mark, which does not come next. -/
theorem accepts_alike {r r' : Reader} {wanted wanted' : String} {mark : Token}
    (missing : r.place.missing = some wanted) (missing' : r'.place.missing = some wanted')
    (alike : ∀ t, t ≠ mark → r.step t = r'.step t) (other : tokens.head? ≠ some mark) :
    r.Accepts tokens p ↔ r'.Accepts tokens p := by
  cases tokens with
  | nil => exact iff_of_false (not_accepts_nil missing) (not_accepts_nil missing')
  | cons t rest =>
    have differs : t ≠ mark := by
      rintro rfl
      exact other rfl
    simp only [Accepts, alike t differs]

theorem accepts_fieldEnd :
    Accepts ⟨program, .fieldEnd c⟩ tokens p ↔
      ∃ rest, Terminator tokens rest ∧ Accepts ⟨program, .member c⟩ rest p := by
  have passed : tokens.head? ≠ some semicolon →
      (Accepts ⟨program, .fieldEnd c⟩ tokens p ↔
        Accepts ⟨program, .member c⟩ tokens p) := by
    apply accepts_alike rfl rfl
    intro t differs
    simp only [step, if_neg (text_ne differs)]
    rfl
  constructor
  · intro accepted
    by_cases ended : tokens.head? = some semicolon
    · obtain ⟨rest, rfl⟩ := List.head?_eq_some_iff.mp ended
      exact ⟨rest, .given rest, (accepts_cons_of_step rfl).mp accepted⟩
    · exact ⟨tokens, .absent ended, (passed ended).mp accepted⟩
  · rintro ⟨rest, ended, accepted⟩
    cases ended with
    | given rest => exact (accepts_cons_of_step rfl).mpr accepted
    | absent other => exact (passed other).mpr accepted

/-- A place where a mark may stand, with a type behind it. -/
theorem accepts_annotation {r typed : Reader} {next : String → Reader} {mark : Token}
    {missing wanted : String} (taken : r.step mark = .ok typed)
    (lacks : typed.place.missing = some wanted) (takes : ∀ t, typed.step t = .ok (next t.text))
    (passed : tokens.head? ≠ some mark →
      (r.Accepts tokens p ↔ (next missing).Accepts tokens p)) :
    r.Accepts tokens p ↔
      ∃ type rest, Annotation mark missing tokens type rest ∧ (next type).Accepts rest p := by
  constructor
  · intro accepted
    by_cases marked : tokens.head? = some mark
    · obtain ⟨tail, rfl⟩ := List.head?_eq_some_iff.mp marked
      have inside := (accepts_cons_of_step taken).mp accepted
      obtain ⟨type, rest, rfl, after⟩ := (accepts_any lacks takes).mp inside
      exact ⟨type.text, rest, .given type rest, after⟩
    · exact ⟨missing, tokens, .absent marked, (passed marked).mp accepted⟩
  · rintro ⟨type, rest, annotated, accepted⟩
    cases annotated with
    | given type rest =>
      refine (accepts_cons_of_step taken).mpr ?_
      exact (accepts_any lacks takes).mpr ⟨type, rest, rfl, accepted⟩
    | absent other => exact (passed other).mpr accepted

theorem accepts_fieldColon {name : String} :
    Accepts ⟨program, .fieldColon c access name⟩ tokens p ↔
      ∃ type after, Annotation colon FieldDecl.unknownType tokens type after ∧
        Accepts ⟨program, .fieldEnd (c.addField name ⟨access, type, none⟩)⟩ after p := by
  apply accepts_annotation rfl rfl fun _ => rfl
  apply accepts_alike rfl rfl
  intro t differs
  simp only [step, if_neg (text_ne differs)]
  split <;> rfl

theorem accepts_returnArrow {s : Signature} :
    Accepts ⟨program, .returnArrow c s⟩ tokens p ↔
      ∃ type after, Annotation arrow s.returnType tokens type after ∧
        Accepts ⟨program, .bodyOpen c { s with returnType := type }⟩ after p := by
  apply accepts_annotation rfl rfl fun _ => rfl
  apply accepts_alike rfl rfl
  intro t differs
  simp only [step, if_neg differs]

/-- The first place where an element occurs. -/
theorem exists_append_cons_iff {α : Type} {stop a : α} {as : List α}
    {P : List α → List α → Prop} :
    (∃ front rest, a :: as = front ++ stop :: rest ∧ P front rest) ↔
      (a = stop ∧ P [] as) ∨ ∃ front rest, as = front ++ stop :: rest ∧ P (a :: front) rest := by
  constructor
  · rintro ⟨front, rest, same, holds⟩
    cases front with
    | nil =>
      obtain ⟨rfl, rfl⟩ := List.cons.inj same
      exact .inl ⟨rfl, holds⟩
    | cons head front =>
      obtain ⟨rfl, rfl⟩ := List.cons.inj same
      exact .inr ⟨front, rest, rfl, holds⟩
  · rintro (⟨rfl, holds⟩ | ⟨front, rest, rfl, holds⟩)
    · exact ⟨[], as, rfl, holds⟩
    · exact ⟨a :: front, rest, rfl, holds⟩

theorem accepts_params {name : String} {reversed : List String} {fresh : Bool} :
    Accepts ⟨program, .params c access name reversed fresh⟩ tokens p ↔
      ∃ group rest, tokens = group ++ parenClose :: rest ∧ parenClose ∉ group ∧
        Accepts ⟨program, .returnArrow c ⟨name, access, reversed.reverse ++ laterNames fresh group,
          Method.voidType⟩⟩ rest p := by
  induction tokens generalizing reversed fresh with
  | nil =>
    refine iff_of_false (not_accepts_nil rfl) ?_
    rintro ⟨group, rest, same, _⟩
    simp at same
  | cons t tail ih =>
    rw [exists_append_cons_iff]
    by_cases closes : t = parenClose
    · subst closes
      rw [accepts_cons_of_step rfl]
      simp [laterNames_nil]
    · have notClose : t.text ≠ ")" := text_ne closes
      by_cases separates : t = comma
      · subst separates
        rw [accepts_cons_of_step rfl, ih]
        simp [laterNames_comma, closes, Ne.symm closes]
      · have notComma : t.text ≠ "," := text_ne separates
        cases fresh with
        | true =>
          have stepped : step ⟨program, .params c access name reversed true⟩ t =
              .ok ⟨program, .params c access name (t.text :: reversed) false⟩ := by
            simp [step, notClose, notComma]
          rw [accepts_cons_of_step stepped, ih]
          simp [laterNames_cons true separates, closes, Ne.symm closes]
        | false =>
          have stepped : step ⟨program, .params c access name reversed false⟩ t =
              .ok ⟨program, .params c access name reversed false⟩ := by
            simp [step, notClose, notComma]
          rw [accepts_cons_of_step stepped, ih]
          simp [laterNames_cons false separates, closes, Ne.symm closes]

theorem accepts_body {s : Signature} {depth : Nat} {reversed : List Token} :
    Accepts ⟨program, .body c s depth reversed⟩ tokens p ↔
      ∃ body rest, tokens = body ++ braceClose :: rest ∧ Balanced depth body ∧
        Accepts ⟨program, .member (c.addMethod (s.toMethod (reversed.reverse ++ body)))⟩ rest
          p := by
  induction tokens generalizing depth reversed with
  | nil =>
    refine iff_of_false (not_accepts_nil rfl) ?_
    rintro ⟨group, rest, same, _⟩
    simp at same
  | cons t tail ih =>
    rw [exists_append_cons_iff]
    by_cases closes : t = braceClose
    · subst closes
      cases depth with
      | zero =>
        rw [accepts_cons_of_step rfl]
        simp [Balanced.nil_iff, Balanced.not_close]
      | succ depth =>
        rw [accepts_cons_of_step rfl, ih]
        simp [Balanced.nil_iff, Balanced.close_iff]
    · have notClose : t.text ≠ "\x7d" := text_ne closes
      by_cases opens : t = braceOpen
      · subst opens
        rw [accepts_cons_of_step rfl, ih]
        simp [closes, Balanced.open_iff]
      · have notOpen : t.text ≠ "\x7b" := text_ne opens
        have stepped : step ⟨program, .body c s depth reversed⟩ t =
            .ok ⟨program, .body c s depth (t :: reversed)⟩ := by
          simp [step, notClose, notOpen]
        rw [accepts_cons_of_step stepped, ih]
        simp [closes, Balanced.other_iff opens closes]

theorem accepts_fieldName :
    Accepts ⟨program, .fieldName c access⟩ tokens p ↔
      ∃ name type after rest behind, tokens = name :: after ∧
        Annotation colon FieldDecl.unknownType after type rest ∧ Terminator rest behind ∧
          Accepts ⟨program, .member (c.addField name.text ⟨access, type, none⟩)⟩ behind p := by
  rw [accepts_any rfl fun _ => rfl]
  constructor
  · rintro ⟨name, after, rfl, atColon⟩
    obtain ⟨type, rest, typed, atEnd⟩ := accepts_fieldColon.mp atColon
    obtain ⟨behind, ended, accepted⟩ := accepts_fieldEnd.mp atEnd
    exact ⟨name, type, after, rest, behind, rfl, typed, ended, accepted⟩
  · rintro ⟨name, type, after, rest, behind, rfl, typed, ended, accepted⟩
    refine ⟨name, after, rfl, accepts_fieldColon.mpr ⟨type, rest, typed, ?_⟩⟩
    exact accepts_fieldEnd.mpr ⟨behind, ended, accepted⟩

theorem accepts_methodName :
    Accepts ⟨program, .methodName c access⟩ tokens p ↔
      ∃ name params after type body rest,
        tokens = name :: parenOpen :: (params ++ parenClose :: after) ∧ parenClose ∉ params ∧
          Annotation arrow Method.voidType after type
            (braceOpen :: (body ++ braceClose :: rest)) ∧
          Balanced 0 body ∧
          Accepts ⟨program, .member (c.addMethod
            ⟨name.text, access, parameterNames params, type, body⟩)⟩ rest p := by
  rw [accepts_any rfl fun _ => rfl]
  constructor
  · rintro ⟨name, _, rfl, atParen⟩
    obtain ⟨_, rfl, atParams⟩ := (accepts_wanted rfl fun _ => rfl).mp atParen
    obtain ⟨params, after, rfl, open_, atArrow⟩ := accepts_params.mp atParams
    obtain ⟨type, _, typed, atBrace⟩ := accepts_returnArrow.mp atArrow
    obtain ⟨_, rfl, atBody⟩ := (accepts_wanted rfl fun _ => rfl).mp atBrace
    obtain ⟨body, rest, rfl, balanced, accepted⟩ := accepts_body.mp atBody
    exact ⟨name, params, after, type, body, rest, rfl, open_, typed, balanced, accepted⟩
  · rintro ⟨name, params, after, type, body, rest, rfl, open_, typed, balanced, accepted⟩
    refine ⟨name, _, rfl, (accepts_wanted rfl fun _ => rfl).mpr ⟨_, rfl, ?_⟩⟩
    refine accepts_params.mpr ⟨params, after, rfl, open_, ?_⟩
    refine accepts_returnArrow.mpr ⟨type, _, typed, ?_⟩
    refine (accepts_wanted rfl fun _ => rfl).mpr ⟨_, rfl, ?_⟩
    exact accepts_body.mpr ⟨body, rest, rfl, balanced, accepted⟩

theorem step_access (access : Access) :
    step ⟨program, .member c⟩ access.token = .ok ⟨program, .memberKind c access⟩ := by
  cases access <;> rfl

theorem step_skip {t : Token} (notClose : t ≠ braceClose) (notLink : t ≠ ⟨"import"⟩)
    (notAccess : ∀ access : Access, t ≠ access.token) :
    step ⟨program, .member c⟩ t = .ok ⟨program, .member c⟩ := by
  have passed := Access.ofKeyword?_eq_none_iff.mpr notAccess
  simp only [step, stepMember, if_neg (text_ne notClose), if_neg (text_ne notLink), passed]

theorem step_skipModified {t : Token} (notField : t ≠ ⟨"var"⟩) (notMethod : t ≠ ⟨"func"⟩) :
    step ⟨program, .memberKind c access⟩ t = .ok ⟨program, .member c⟩ := by
  simp only [step, if_neg (text_ne notField), if_neg (text_ne notMethod)]

theorem step_skipTop {t : Token} (notContract : t ≠ ⟨"contract"⟩) (notLink : t ≠ ⟨"import"⟩) :
    step ⟨program, .top⟩ t = .ok ⟨program, .top⟩ := by
  simp only [step, if_neg (text_ne notContract), if_neg (text_ne notLink)]

theorem accepts_of_member {declaration : Option Declaration} {rest : List Token}
    (member : Member tokens declaration rest)
    (accepted : Accepts ⟨program, .member (declaration.elim c c.declare)⟩ rest p) :
    Accepts ⟨program, .member c⟩ tokens p := by
  cases member with
  | link module localName =>
    refine (accepts_cons_of_step rfl).mpr ?_
    exact (accepts_link (some c)).mpr ⟨module, localName, rest, rfl, accepted⟩
  | field access name typed ended =>
    refine (accepts_cons_of_step (step_access access)).mpr ((accepts_cons_of_step rfl).mpr ?_)
    exact accepts_fieldName.mpr ⟨name, _, _, _, rest, rfl, typed, ended, accepted⟩
  | method access name open_ typed balanced =>
    refine (accepts_cons_of_step (step_access access)).mpr ((accepts_cons_of_step rfl).mpr ?_)
    exact accepts_methodName.mpr ⟨name, _, _, _, _, rest, rfl, open_, typed, balanced, accepted⟩
  | skipModified access rest notField notMethod =>
    refine (accepts_cons_of_step (step_access access)).mpr ?_
    exact (accepts_cons_of_step (step_skipModified notField notMethod)).mpr accepted
  | skip rest notClose notLink notAccess =>
    exact (accepts_cons_of_step (step_skip notClose notLink notAccess)).mpr accepted

theorem modified_of_accepts {tail : List Token}
    (accepted : Accepts ⟨program, .memberKind c access⟩ tail p) :
    ∃ declaration rest, Member (access.token :: tail) declaration rest ∧
      Accepts ⟨program, .member (declaration.elim c c.declare)⟩ rest p := by
  cases tail with
  | nil => exact absurd accepted (not_accepts_nil rfl)
  | cons kind tail =>
    by_cases isField : kind = ⟨"var"⟩
    · subst isField
      have atName := (accepts_cons_of_step rfl).mp accepted
      obtain ⟨name, type, after, rest, behind, rfl, typed, ended, done⟩ :=
        accepts_fieldName.mp atName
      exact ⟨_, behind, .field access name typed ended, done⟩
    · by_cases isMethod : kind = ⟨"func"⟩
      · subst isMethod
        have atName := (accepts_cons_of_step rfl).mp accepted
        obtain ⟨name, params, after, type, body, rest, rfl, open_, typed, balanced, done⟩ :=
          accepts_methodName.mp atName
        exact ⟨_, rest, .method access name open_ typed balanced, done⟩
      · have done := (accepts_cons_of_step (step_skipModified isField isMethod)).mp accepted
        exact ⟨none, tail, .skipModified access tail isField isMethod, done⟩

theorem member_of_accepts {t : Token} {tail : List Token} (notClose : t ≠ braceClose)
    (accepted : Accepts ⟨program, .member c⟩ (t :: tail) p) :
    ∃ declaration rest, Member (t :: tail) declaration rest ∧
      Accepts ⟨program, .member (declaration.elim c c.declare)⟩ rest p := by
  by_cases links : t = ⟨"import"⟩
  · subst links
    have inside := (accepts_cons_of_step rfl).mp accepted
    obtain ⟨module, localName, rest, same, done⟩ := (accepts_link (some c)).mp inside
    rw [same]
    exact ⟨_, rest, .link module localName rest, done⟩
  · by_cases modifies : ∃ access : Access, t = access.token
    · obtain ⟨access, rfl⟩ := modifies
      exact modified_of_accepts ((accepts_cons_of_step (step_access access)).mp accepted)
    · have notAccess : ∀ access : Access, t ≠ access.token := by
        intro access same
        exact modifies ⟨access, same⟩
      have done := (accepts_cons_of_step (step_skip notClose links notAccess)).mp accepted
      exact ⟨none, tail, .skip tail notClose links notAccess, done⟩

theorem accepts_of_members {declared : List Declaration} {rest : List Token}
    (members : Members tokens declared rest)
    (accepted : Accepts ⟨program.addContract (declared.foldl Contract.declare c), .top⟩ rest p) :
    Accepts ⟨program, .member c⟩ tokens p := by
  induction members generalizing c with
  | close rest => exact (accepts_cons_of_step rfl).mpr accepted
  | @next _ declaration _ declared _ member more ih =>
    refine accepts_of_member member (ih ?_)
    cases declaration <;> exact accepted

theorem members_of_accepts (accepted : Accepts ⟨program, .member c⟩ tokens p) :
    ∃ declared rest, Members tokens declared rest ∧
      Accepts ⟨program.addContract (declared.foldl Contract.declare c), .top⟩ rest p := by
  -- on the number of tokens: each member takes some of them
  induction length : tokens.length using Nat.strongRecOn generalizing tokens c with
  | ind size ih =>
    cases tokens with
    | nil => exact absurd accepted (not_accepts_nil rfl)
    | cons t tail =>
      by_cases closes : t = braceClose
      · subst closes
        exact ⟨[], tail, .close tail, (accepts_cons_of_step rfl).mp accepted⟩
      · obtain ⟨declaration, after, member, acceptedAfter⟩ := member_of_accepts closes accepted
        have fewer : after.length < size := length ▸ member.shorter
        obtain ⟨declared, rest, more, done⟩ := ih after.length fewer acceptedAfter rfl
        refine ⟨_, rest, .next member more, ?_⟩
        cases declaration <;> exact done

theorem accepts_of_contracts {contracts : List Contract} (read : Contracts tokens contracts) :
    Accepts ⟨program, .top⟩ tokens (contracts.foldl addContract program) := by
  induction read generalizing program with
  | done => exact ⟨rfl, rfl⟩
  | contract name members more ih =>
    refine (accepts_cons_of_step rfl).mpr ?_
    refine (accepts_any rfl fun _ => rfl).mpr ⟨name, _, rfl, ?_⟩
    refine (accepts_wanted rfl fun _ => rfl).mpr ⟨_, rfl, ?_⟩
    exact accepts_of_members members ih
  | link module localName more ih =>
    refine (accepts_cons_of_step rfl).mpr ?_
    exact (accepts_link none).mpr ⟨module, localName, _, rfl, ih⟩
  | skip notContract notLink more ih =>
    exact (accepts_cons_of_step (step_skipTop notContract notLink)).mpr ih

theorem contracts_of_accepts (accepted : Accepts ⟨program, .top⟩ tokens p) :
    ∃ contracts, Contracts tokens contracts ∧ p = contracts.foldl addContract program := by
  induction length : tokens.length using Nat.strongRecOn generalizing tokens program with
  | ind size ih =>
    cases tokens with
    | nil => exact ⟨[], .done, accepted.2.symm⟩
    | cons t tail =>
      by_cases starts : t = ⟨"contract"⟩
      · subst starts
        have atName := (accepts_cons_of_step rfl).mp accepted
        obtain ⟨name, _, rfl, atBrace⟩ := (accepts_any rfl fun _ => rfl).mp atName
        obtain ⟨inner, rfl, inside⟩ := (accepts_wanted rfl fun _ => rfl).mp atBrace
        obtain ⟨declared, rest, members, after⟩ := members_of_accepts inside
        have fewer : rest.length < size := by
          have shorter := members.shorter
          simp only [List.length_cons] at length
          omega
        obtain ⟨contracts, read, same⟩ := ih rest.length fewer after rfl
        exact ⟨_, .contract name members read, same⟩
      · by_cases links : t = ⟨"import"⟩
        · subst links
          have inside := (accepts_cons_of_step rfl).mp accepted
          obtain ⟨module, localName, rest, same, after⟩ := (accepts_link none).mp inside
          have fewer : rest.length < size := by
            rw [← length, same]
            simp [linkTokens]
            omega
          obtain ⟨contracts, read, eq⟩ := ih rest.length fewer after rfl
          rw [same]
          exact ⟨contracts, .link module localName read, eq⟩
        · have after := (accepts_cons_of_step (step_skipTop starts links)).mp accepted
          have fewer : tail.length < size := length ▸ Nat.lt_succ_self _
          obtain ⟨contracts, read, eq⟩ := ih tail.length fewer after rfl
          exact ⟨contracts, .skip starts links read, eq⟩

end Reader

theorem ofTokens_eq_ok_iff_accepts (tokens : List Token) (p : Program) :
    ofTokens tokens = .ok p ↔ Reader.start.Accepts tokens p :=
  Reader.readFrom_eq_ok_iff ..

theorem derives_iff_accepts (tokens : List Token) (p : Program) :
    Grammar.Derives tokens p ↔ Reader.start.Accepts tokens p := by
  constructor
  · rintro ⟨contracts, read, rfl⟩
    exact Reader.accepts_of_contracts read
  · intro accepted
    exact Reader.contracts_of_accepts accepted

theorem derives_unique {tokens : List Token} {p q : Program} (first : Grammar.Derives tokens p)
    (second : Grammar.Derives tokens q) : p = q := by
  rw [derives_iff_accepts, ← ofTokens_eq_ok_iff_accepts] at first second
  exact Except.ok.inj (first.symm.trans second)

end ContractScript.Program
