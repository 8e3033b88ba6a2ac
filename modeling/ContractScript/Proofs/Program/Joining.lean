import ContractScript.Program.Canonical
import ContractScript.Proofs.Program.Refusal
import ContractScript.Proofs.Table
import ContractScript.Proofs.Token.Layout
import Mathlib.Algebra.Group.Nat.Even

/-!
Texts put one behind the other. After a text whose literals are closed scanning starts anew, and
after a text that makes a program reading does, but for the contracts that are known and the place
of the tokens.
-/

namespace ContractScript

open Text (isBlank)

namespace Token

variable {w : Char} {rest : List Char}

theorem scanFrom_append_blank (blank : isBlank w = true) (pending : Pending) (cs : List Char)
    (closed : Even (pending.isQuoted.toNat + cs.count '"')) :
    scanFrom pending (cs ++ w :: rest) = scanFrom pending cs ++ scanFrom (.run []) rest := by
  have notArrow : ∀ {c : Char} {tail : List Char},
      (∀ more, c = '-' → tail = '>' :: more → False) → c = '-' →
        (tail ++ w :: rest).head? ≠ some '>' := by
    intro c tail apart minus next
    cases tail with
    | nil =>
      have greater : w = '>' := Option.some.inj next
      rw [greater] at blank
      exact absurd blank (by decide)
    | cons other tail => exact apart tail minus (by rw [Option.some.inj next])
  rw [Nat.even_iff] at closed
  fun_induction scanFrom pending cs with
  | case1 acc => exact scanFrom_blank blank
  | case2 acc tail ih =>
    rw [List.cons_append, List.cons_append, scanFrom, ih (by simpa [Pending.isQuoted] using closed),
      List.append_assoc, List.cons_append]
  | case3 acc c tail apart white ih =>
    have notQuote : c ≠ '"' := by
      rintro rfl
      exact absurd white (by decide)
    rw [List.cons_append, scanFrom_blank white,
      ih (by simpa [Pending.isQuoted, notQuote] using closed), List.append_assoc]
  | case4 acc c tail apart solid symbol ih =>
    have notQuote : c ≠ '"' := by
      rintro rfl
      exact absurd symbol (by decide)
    rw [List.cons_append, scanFrom_symbol symbol (notArrow apart),
      ih (by simpa [Pending.isQuoted, notQuote] using closed), List.append_assoc, List.cons_append]
  | case5 acc tail apart solid notSymbol ih =>
    rw [List.cons_append, scanFrom_quote, ih, List.append_assoc]
    simp [Pending.isQuoted] at closed ⊢
    omega
  | case6 acc c tail apart solid notSymbol notQuote ih =>
    have plain : isRunChar c = true := by simp [isRunChar, solid, notSymbol, notQuote]
    rw [List.cons_append, scanFrom_runChar plain,
      ih (by simpa [Pending.isQuoted, notQuote] using closed)]
  | case7 acc => simp [Pending.isQuoted] at closed
  | case8 acc tail ih =>
    rw [List.cons_append, scanFrom, if_pos rfl, ih, List.cons_append]
    simp [Pending.isQuoted] at closed ⊢
    omega
  | case9 acc c tail notQuote ih =>
    rw [List.cons_append, scanFrom, if_neg notQuote,
      ih (by simpa [Pending.isQuoted, notQuote] using closed)]

end Token

namespace Program

/-- The contracts of both programs; under a key that both have, that of the second. -/
def override (p q : Program) : Program := ⟨p.contracts.override q.contracts⟩

namespace Reader

/-- The reader that knows the contracts of `p` from tokens in front of its own. -/
def behind (p : Program) (r : Reader) : Reader := ⟨p.override r.program, r.place⟩

theorem stepMember_behind (p : Program) (r : Reader) (c : Contract) (t : Token) :
    (r.behind p).stepMember c t = (r.stepMember c t).behind p := by
  unfold stepMember
  split
  · simp only [behind, override, addContract, Table.override_insert]
  · split
    · rfl
    · cases Access.ofKeyword? t.text <;> rfl

theorem afterImport_behind (p : Program) (r : Reader) (module localName : String)
    (inside : Option Contract) :
    (r.behind p).afterImport module localName inside =
      (r.afterImport module localName inside).behind p := by
  cases inside <;> rfl

theorem map_want (f : Reader → Reader) (text : String) (t : Token) (next : Reader) :
    (want text t next).map f = want text t (f next) := by
  unfold want
  split <;> rfl

/-- No step looks at the contracts that are known. -/
theorem step_behind (p : Program) (r : Reader) (t : Token) :
    (r.behind p).step t = (r.step t).map (behind p) := by
  obtain ⟨program, place⟩ := r
  cases place with
  | importModule | importAlias | contractName | fieldName | fieldType | methodName | returnType =>
    rfl
  | importAka | contractOpen | paramsOpen | bodyOpen => simp only [step, behind, map_want]
  | importEnd inside module localName =>
    have returned := afterImport_behind p ⟨program, .importEnd inside module localName⟩
    simp only [step, map_want, ← returned]
    rfl
  | top | memberKind =>
    simp only [step, behind]
    split
    · rfl
    · split <;> rfl
  | member c => exact congrArg Except.ok (stepMember_behind p ⟨program, .member c⟩ c t)
  | fieldColon c access name =>
    have passed := stepMember_behind p ⟨program, .fieldColon c access name⟩
    simp only [step, behind]
    split
    · rfl
    · split
      · rfl
      · exact congrArg Except.ok (passed _ t)
  | fieldEnd c =>
    have passed := stepMember_behind p ⟨program, .fieldEnd c⟩
    simp only [step, behind]
    split
    · rfl
    · exact congrArg Except.ok (passed c t)
  | params =>
    simp only [step, behind]
    split
    · rfl
    · split
      · rfl
      · split <;> rfl
  | returnArrow =>
    simp only [step, behind]
    split
    · rfl
    · rw [map_want]
      rfl
  | body c s depth reversed =>
    simp only [step, behind]
    split
    · rfl
    · split
      · cases depth <;> rfl
      · rfl

/-- What comes of tokens that stand behind `count` others, which make the program `p`. -/
def joined (p : Program) (count : Nat) : Except Error Program → Except Error Program
  | .ok q => .ok (p.override q)
  | .error (.unexpected index wanted found) => .error (.unexpected (index + count) wanted found)
  | .error e => .error e

theorem readFrom_behind (p : Program) (count : Nat) (r : Reader) (index : Nat)
    (tokens : List Token) :
    (r.behind p).readFrom (index + count) tokens = joined p count (r.readFrom index tokens) := by
  induction tokens generalizing r index with
  | nil =>
    simp only [readFrom, behind]
    cases r.place.missing <;> rfl
  | cons t rest ih =>
    simp only [readFrom, step_behind]
    cases r.step t with
    | error wanted => rfl
    | ok next =>
      have counted : index + count + 1 = index + 1 + count := by omega
      simp only [Except.map, counted]
      exact ih next (index + 1)

/-- Tokens that make a program leave the reader where it began, with that program. -/
theorem reaches_of_accepts {r : Reader} {tokens : List Token} {p : Program}
    (accepted : r.Accepts tokens p) : r.Reaches tokens ⟨p, .top⟩ := by
  induction tokens generalizing r with
  | nil =>
    obtain ⟨program, place⟩ := r
    obtain ⟨ended, rfl⟩ := accepted
    cases place with
    | top => rfl
    | _ => cases ended
  | cons t rest ih =>
    obtain ⟨next, stepped, later⟩ := accepted
    exact ⟨next, stepped, ih later⟩

end Reader

theorem ofTokens_append {front : List Token} {p : Program} (read : ofTokens front = .ok p)
    (rest : List Token) :
    ofTokens (front ++ rest) = Reader.joined p front.length (ofTokens rest) := by
  have accepted := (Reader.readFrom_eq_ok_iff ..).mp read
  have reaches := Reader.reaches_of_accepts accepted
  rw [ofTokens, Reader.readFrom_append reaches]
  exact Reader.readFrom_behind p front.length Reader.start 0 rest

theorem override_comm {p q : Program}
    (apart : ∀ name ∈ p.contracts.keys, name ∉ q.contracts.keys) :
    p.override q = q.override p :=
  congrArg Program.mk (Table.override_comm apart)

/-- Two texts with a blank between them. -/
def join (a : String) (w : Char) (b : String) : String := a ++ String.singleton w ++ b

theorem scan_join {a : String} (closed : Even (a.toList.count '"')) {w : Char}
    (blank : isBlank w = true) (b : String) :
    Token.scan (join a w b) = Token.scan a ++ Token.scan b := by
  have text : (join a w b).toList = a.toList ++ w :: b.toList := by
    simp [join]
  rw [Token.scan, text]
  exact Token.scanFrom_append_blank blank (.run []) a.toList
    (by simpa [Token.Pending.isQuoted] using closed)

/-- A text with an even number of quotes that makes a program, and behind it a blank and any text.
The tokens are those of the one and of the other. The program has the contracts of both, the later
ones over the earlier; an error of the second text is the error of both together, further back by
the tokens of the first. So texts with different contracts may change places. -/
theorem ofSource_join {a : String} (closed : Even (a.toList.count '"')) {p : Program}
    (read : ofSource a = .ok p) {w : Char} (blank : isBlank w = true) (b : String) :
    Token.scan (join a w b) = Token.scan a ++ Token.scan b ∧
    (∀ q, ofSource b = .ok q → ∃ r, ofSource (join a w b) = .ok r ∧
      ∀ name, r.contracts.get? name = (q.contracts.get? name).or (p.contracts.get? name)) ∧
    (∀ e, ofSource b = .error e → ∃ index wanted found, e = .unexpected index wanted found ∧
      ofSource (join a w b) =
        .error (.unexpected (index + (Token.scan a).length) wanted found)) ∧
    ∀ q, Even (b.toList.count '"') → ofSource b = .ok q →
      (∀ name ∈ p.contracts.keys, name ∉ q.contracts.keys) →
      ∀ v, isBlank v = true → ∃ r, ofSource (join a w b) = .ok r ∧
        ofSource (join b v a) = .ok r ∧
        (ofSource (join a w b)).map fingerprint = (ofSource (join b v a)).map fingerprint := by
  have behind : ofSource (join a w b) =
      Reader.joined p (Token.scan a).length (ofSource b) := by
    rw [ofSource, scan_join closed blank]
    exact ofTokens_append read _
  refine ⟨scan_join closed blank b, ?_, ?_, ?_⟩
  · intro q readToo
    rw [readToo] at behind
    exact ⟨p.override q, behind, Table.get?_override _ _⟩
  · intro e failed
    obtain ⟨index, wanted, found, rfl⟩ := ofTokens_error failed
    rw [failed] at behind
    exact ⟨index, wanted, found, rfl, behind⟩
  · intro q closedToo readToo apart v blankToo
    have turned : ofSource (join b v a) = .ok (q.override p) := by
      rw [ofSource, scan_join closedToo blankToo, ofTokens_append readToo]
      exact congrArg (Reader.joined q _) read
    rw [readToo] at behind
    rw [← override_comm apart] at turned
    exact ⟨p.override q, behind, turned, by rw [behind, turned]; rfl⟩

/-- A contract with a brace in a literal. -/
def quotingSource : String :=
  "contract A \x7b public func main() \x7b print(\"\x7d\"); \x7d \x7d"

def quoting : Contract :=
  (Contract.named "A").addMethod ⟨"main", .exposed, [], "Void", Token.scan "print(\"\x7d\");"⟩

def sizedSource : String := "contract B \x7b private var size \x7d"

def sized : Contract :=
  (Contract.named "B").addField "size" ⟨.internal, FieldDecl.unknownType, none⟩

def unclosedSource : String := "contract C \x7b"

theorem ofSource_join_quoting :
    ofSource quotingSource = .ok (Program.empty.addContract quoting) ∧
    (∃ r, ofSource (join quotingSource '\u2003' sizedSource) = .ok r ∧
      ofSource (join sizedSource '\n' quotingSource) = .ok r ∧
      r.contracts.get? "B" = some sized) ∧
    ofSource (join quotingSource '\n' unclosedSource) =
      .error (.unexpected 19 "\x7d" Reader.endOfTokens) := by
  have closed : Even (quotingSource.toList.count '"') := by decide +kernel
  have closedToo : Even (sizedSource.toList.count '"') := by decide +kernel
  have read : ofSource quotingSource = .ok (Program.empty.addContract quoting) := by
    decide +kernel
  have readToo : ofSource sizedSource = .ok (Program.empty.addContract sized) := by
    decide +kernel
  have failed : ofSource unclosedSource = .error (.unexpected 3 "\x7d" Reader.endOfTokens) := by
    decide +kernel
  have apart : ∀ name ∈ (Program.empty.addContract quoting).contracts.keys,
      name ∉ (Program.empty.addContract sized).contracts.keys := by
    decide +kernel
  have tokens : (Token.scan quotingSource).length = 16 := by decide +kernel
  have blank : isBlank '\u2003' = true := by decide
  have lineFeed : isBlank '\n' = true := by decide
  obtain ⟨_, later, _, either⟩ := ofSource_join closed read blank sizedSource
  obtain ⟨_, _, fails, _⟩ := ofSource_join closed read lineFeed unclosedSource
  obtain ⟨r, forth, back, _⟩ := either _ closedToo readToo apart '\n' lineFeed
  obtain ⟨r', forth', found⟩ := later _ readToo
  obtain rfl : r = r' := Except.ok.inj (forth.symm.trans forth')
  refine ⟨read, ⟨r, forth, back, ?_⟩, ?_⟩
  · rw [found "B"]
    decide +kernel
  · obtain ⟨index, wanted, found, same, behind⟩ := fails _ failed
    cases same
    rw [behind, tokens]

end Program

end ContractScript
