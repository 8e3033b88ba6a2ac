import ContractScript.Proofs.Program.Reading
import Mathlib.Data.List.Basic

/-!
Where reading stops. From every place of the reader some tokens lead to a program, and a refusal
depends on no token after the refused one. Main statement: the index of an error is the first place
at which the tokens are no longer the beginning of a program.
-/

namespace ContractScript.Program

namespace Reader

open Grammar Token

/-- Reading the tokens leads from the first reader to the second. -/
def Reaches : Reader → List Token → Reader → Prop
  | r, [], after => r = after
  | r, t :: rest, after => ∃ next, r.step t = .ok next ∧ next.Reaches rest after

/-- What comes next is not taken, and this is wanted instead. -/
def Refuses (r : Reader) : List Token → String → Prop
  | [], wanted => r.place.missing = some wanted
  | t :: _, wanted => r.step t = .error wanted

/-- What an error says of the tokens that it refuses. -/
def found (tokens : List Token) : String :=
  (tokens.head?.map Token.text).getD endOfTokens

theorem readFrom_append {r after : Reader} {front : List Token} (reaches : r.Reaches front after)
    (index : Nat) (rest : List Token) :
    r.readFrom index (front ++ rest) = after.readFrom (index + front.length) rest := by
  induction front generalizing r index with
  | nil =>
    obtain rfl : r = after := reaches
    rfl
  | cons t front ih =>
    obtain ⟨next, stepped, more⟩ := reaches
    have counted : index + (t :: front).length = index + 1 + front.length := by
      simp only [List.length_cons]
      omega
    simp only [List.cons_append, readFrom, stepped, counted]
    exact ih more (index + 1)

theorem readFrom_of_refuses {r : Reader} {tokens : List Token} {wanted : String}
    (refuses : r.Refuses tokens wanted) (index : Nat) :
    r.readFrom index tokens = .error (.unexpected index wanted (found tokens)) := by
  cases tokens with
  | nil =>
    have missing : r.place.missing = some wanted := refuses
    simp only [readFrom, missing]
    rfl
  | cons t rest =>
    have stuck : r.step t = .error wanted := refuses
    simp only [readFrom, stuck]
    rfl

/-- Reading fails only by a refusal after tokens that were taken. -/
theorem exists_refuses_of_readFrom {r : Reader} {index : Nat} {tokens : List Token} {e : Error}
    (failed : r.readFrom index tokens = .error e) :
    ∃ front rest after wanted, tokens = front ++ rest ∧ r.Reaches front after ∧
      after.Refuses rest wanted := by
  induction tokens generalizing r index with
  | nil =>
    cases missing : r.place.missing with
    | none => simp [readFrom, missing] at failed
    | some wanted => exact ⟨[], [], r, wanted, rfl, rfl, missing⟩
  | cons t tail ih =>
    cases stepped : r.step t with
    | error wanted => exact ⟨[], t :: tail, r, wanted, rfl, rfl, stepped⟩
    | ok next =>
      simp only [readFrom, stepped] at failed
      obtain ⟨front, rest, after, wanted, rfl, reaches, refuses⟩ := ih failed
      exact ⟨t :: front, rest, after, wanted, rfl, ⟨next, stepped, reaches⟩, refuses⟩

/-- Some tokens lead from `r` to the end of a program. -/
def Completable (r : Reader) : Prop :=
  ∃ tokens p, r.Accepts tokens p

theorem completable_of_step {r next : Reader} {t : Token} (stepped : r.step t = .ok next)
    (completable : next.Completable) : r.Completable := by
  obtain ⟨tokens, p, accepted⟩ := completable
  exact ⟨t :: tokens, p, next, stepped, accepted⟩

section

variable (program : Program) (c : Contract) (access : Access) (name : String) (s : Signature)

theorem completable_top : Completable ⟨program, .top⟩ :=
  ⟨[], program, rfl, rfl⟩

theorem completable_member : Completable ⟨program, .member c⟩ := by
  apply completable_of_step (t := braceClose) rfl
  exact completable_top _

theorem completable_afterImport (r : Reader) (module localName : String)
    (inside : Option Contract) : (r.afterImport module localName inside).Completable := by
  cases inside with
  | none => exact completable_top _
  | some c => exact completable_member _ _

theorem completable_importEnd (inside : Option Contract) (module localName : String) :
    Completable ⟨program, .importEnd inside module localName⟩ := by
  apply completable_of_step (t := semicolon) rfl
  exact completable_afterImport _ _ _ _

theorem completable_importAka (inside : Option Contract) (module : String) :
    Completable ⟨program, .importAka inside module⟩ := by
  apply completable_of_step (t := ⟨"aka"⟩) rfl
  apply completable_of_step (t := default) rfl
  exact completable_importEnd _ _ _ _

theorem completable_body (depth : Nat) (reversed : List Token) :
    Completable ⟨program, .body c s depth reversed⟩ := by
  induction depth generalizing reversed with
  | zero =>
    apply completable_of_step (t := braceClose) rfl
    exact completable_member _ _
  | succ depth ih =>
    apply completable_of_step (t := braceClose) rfl
    exact ih _

theorem completable_bodyOpen : Completable ⟨program, .bodyOpen c s⟩ := by
  apply completable_of_step (t := braceOpen) rfl
  exact completable_body _ _ _ _ _

theorem completable_returnArrow : Completable ⟨program, .returnArrow c s⟩ := by
  apply completable_of_step (t := braceOpen) rfl
  exact completable_body _ _ _ _ _

theorem completable_params (reversed : List String) (fresh : Bool) :
    Completable ⟨program, .params c access name reversed fresh⟩ := by
  apply completable_of_step (t := parenClose) rfl
  exact completable_returnArrow _ _ _

theorem completable_paramsOpen : Completable ⟨program, .paramsOpen c access name⟩ := by
  apply completable_of_step (t := parenOpen) rfl
  exact completable_params _ _ _ _ _ _

end

/-- From every place there is a shortest way out: what is wanted there, then closing braces. -/
theorem completable (r : Reader) : r.Completable := by
  obtain ⟨program, place⟩ := r
  cases place with
  | top => exact completable_top _
  | importModule inside =>
    apply completable_of_step (t := default) rfl
    exact completable_importAka _ _ _
  | importAka inside module => exact completable_importAka _ _ _
  | importAlias inside module =>
    apply completable_of_step (t := default) rfl
    exact completable_importEnd _ _ _ _
  | importEnd inside module localName => exact completable_importEnd _ _ _ _
  | contractName =>
    apply completable_of_step (t := default) rfl
    apply completable_of_step (t := braceOpen) rfl
    exact completable_member _ _
  | contractOpen name =>
    apply completable_of_step (t := braceOpen) rfl
    exact completable_member _ _
  | member c => exact completable_member _ _
  | memberKind c access =>
    apply completable_of_step (t := default) rfl
    exact completable_member _ _
  | fieldName c access =>
    apply completable_of_step (t := default) rfl
    apply completable_of_step (t := semicolon) rfl
    exact completable_member _ _
  | fieldColon c access name =>
    apply completable_of_step (t := semicolon) rfl
    exact completable_member _ _
  | fieldType c access name =>
    apply completable_of_step (t := default) rfl
    apply completable_of_step (t := semicolon) rfl
    exact completable_member _ _
  | fieldEnd c =>
    apply completable_of_step (t := semicolon) rfl
    exact completable_member _ _
  | methodName c access =>
    apply completable_of_step (t := default) rfl
    exact completable_paramsOpen _ _ _ _
  | paramsOpen c access name => exact completable_paramsOpen _ _ _ _
  | params c access name reversed fresh => exact completable_params _ _ _ _ _ _
  | returnArrow c s => exact completable_returnArrow _ _ _
  | returnType c s =>
    apply completable_of_step (t := default) rfl
    exact completable_bodyOpen _ _ _
  | bodyOpen c s => exact completable_bodyOpen _ _ _
  | body c s depth reversed => exact completable_body _ _ _ _ _

end Reader

/-- Tokens that other tokens make a program of. -/
def Viable (front : List Token) : Prop :=
  ∃ suffix p, ofTokens (front ++ suffix) = .ok p

theorem viable_of_reaches {front : List Token} {after : Reader}
    (reaches : Reader.start.Reaches front after) : Viable front := by
  obtain ⟨suffix, p, accepted⟩ := after.completable
  refine ⟨suffix, p, ?_⟩
  rw [ofTokens, Reader.readFrom_append reaches, Reader.readFrom_eq_ok_iff]
  exact accepted

theorem ofTokens_of_refuses {front : List Token} {after : Reader} {wanted : String}
    (reaches : Reader.start.Reaches front after) {rest : List Token}
    (refuses : after.Refuses rest wanted) :
    ofTokens (front ++ rest) =
      .error (.unexpected front.length wanted (Reader.found rest)) := by
  rw [ofTokens, Reader.readFrom_append reaches, Reader.readFrom_of_refuses refuses,
    Nat.zero_add]

theorem ofTokens_error {tokens : List Token} {e : Error} (failed : ofTokens tokens = .error e) :
    ∃ index wanted found, e = .unexpected index wanted found := by
  obtain ⟨front, rest, after, wanted, rfl, reaches, refuses⟩ :=
    Reader.exists_refuses_of_readFrom failed
  rw [ofTokens_of_refuses reaches refuses] at failed
  exact ⟨_, _, _, (Except.error.inj failed).symm⟩

/-- Tokens that are no program fail at one index. What stands before it can be completed, nothing
beyond it can, and the refused token fails in the same way whatever follows. -/
theorem refusal_earliest {tokens : List Token} {e : Error} (failed : ofTokens tokens = .error e) :
    ∃ index wanted,
      e = .unexpected index wanted ((tokens[index]?.map Token.text).getD Reader.endOfTokens) ∧
      index ≤ tokens.length ∧
      Viable (tokens.take index) ∧
      (index < tokens.length →
        ∀ rest, ofTokens (tokens.take (index + 1) ++ rest) = .error e) ∧
      ∀ longer, index < longer → longer ≤ tokens.length → ¬Viable (tokens.take longer) := by
  obtain ⟨front, back, after, wanted, rfl, reaches, refuses⟩ :=
    Reader.exists_refuses_of_readFrom failed
  have stopped := ofTokens_of_refuses reaches refuses
  have seen : Reader.found back =
      ((front ++ back)[front.length]?.map Token.text).getD Reader.endOfTokens := by
    rw [List.getElem?_append_right (Nat.le_refl _), Nat.sub_self, ← List.head?_eq_getElem?]
    rfl
  obtain rfl : .unexpected front.length wanted (Reader.found back) = e :=
    Except.error.inj (stopped.symm.trans failed)
  -- the refused token is the last one that is looked at, so any tokens may follow it
  have same : front.length < (front ++ back).length → ∀ rest,
      ofTokens ((front ++ back).take (front.length + 1) ++ rest) =
        .error (.unexpected front.length wanted (Reader.found back)) := by
    intro within rest
    cases back with
    | nil => simp at within
    | cons t back =>
      rw [List.take_length_add_append, List.append_assoc]
      have refusesToo : after.Refuses (t :: rest) wanted := refuses
      exact ofTokens_of_refuses reaches refusesToo
  refine ⟨front.length, wanted, by rw [seen], by simp, ?_, same, ?_⟩
  · rw [List.take_left]
    exact viable_of_reaches reaches
  · rintro longer beyond bound ⟨suffix, p, read⟩
    have split := List.take_append_drop (front.length + 1) ((front ++ back).take longer)
    rw [List.take_take, Nat.min_eq_left beyond] at split
    rw [← split, List.append_assoc, same (by omega)] at read
    cases read

/-- An import without its keyword for the alias, in a contract that is closed all the same. -/
def unnamedImport : List Token := Token.scan "contract App \x7b import grey grey; \x7d"

theorem refusal_earliest_unnamedImport :
    ofTokens unnamedImport = .error (.unexpected 5 "aka" "grey") ∧
    Viable (unnamedImport.take 5) ∧
    (∀ rest, ofTokens (unnamedImport.take 6 ++ rest) = .error (.unexpected 5 "aka" "grey")) ∧
    ¬Viable (unnamedImport.take 7) := by
  have failed : ofTokens unnamedImport = .error (.unexpected 5 "aka" "grey") := by decide +kernel
  have size : unnamedImport.length = 8 := by decide +kernel
  obtain ⟨index, wanted, same, _, viable, fails, beyond⟩ := refusal_earliest failed
  cases same
  exact ⟨failed, viable, fails (by rw [size]; decide),
    beyond 7 (by decide) (by rw [size]; decide)⟩

end ContractScript.Program
