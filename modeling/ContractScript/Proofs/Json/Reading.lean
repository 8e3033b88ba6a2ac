import ContractScript.Json.Reader
import ContractScript.Json.Writer

/-!
Reading what was written. Escapes are undone one character at a time; items and members are read one
after the other, with a bound that is as long as their text. Main statement: a value without numbers
is read back from its compact text.
-/

namespace ContractScript.Json

variable {rest : List Char}

theorem unit?_hexDigit :
    ∀ n < 0x20, unit? '0' '0' (hexDigit (n / 16)) (hexDigit n) = some n := by
  decide

theorem quoted?_control {c : Char} (control : c.toNat < 0x20) :
    quoted? none
        ('\\' :: 'u' :: '0' :: '0' :: hexDigit (c.toNat / 16) :: hexDigit c.toNat :: rest) =
      (quoted? none rest).map (push c) := by
  have notHigh : isHigh c.toNat = false := by
    simp only [isHigh, decide_eq_false_iff_not]
    omega
  have notLow : isLow c.toNat = false := by
    simp only [isLow, decide_eq_false_iff_not]
    omega
  simp [quoted?, unit?_hexDigit _ control, notHigh, ofUnit?, notLow, Char.ofNat_toNat]

theorem quoted?_plain {c : Char} (notQuote : c ≠ '"') (notBackslash : c ≠ '\\')
    (notControl : ¬c.toNat < 0x20) :
    quoted? none (c :: rest) = (quoted? none rest).map (push c) := by
  rw [quoted?]
  · simp [notBackslash, notControl]
  · exact fun _ _ _ _ _ same _ => notBackslash same
  · exact fun _ _ same _ => notBackslash same
  · exact notQuote

/-- However a character is written between quotes, it is read back. -/
theorem quoted?_escape (c : Char) :
    quoted? none (escape c ++ rest) = (quoted? none rest).map (push c) := by
  unfold escape
  split
  · next same => subst same; rfl
  split
  · next same => subst same; rfl
  split
  · next same => subst same; rfl
  split
  · next same => subst same; rfl
  split
  · next same => subst same; rfl
  split
  · next same => subst same; rfl
  split
  · next same => subst same; rfl
  split
  · next control => exact quoted?_control control
  · next notQuote notBackslash _ _ _ _ _ notControl =>
    exact quoted?_plain notQuote notBackslash notControl

theorem quoted?_flatMap_escape (contents : List Char) :
    quoted? none (contents.flatMap escape ++ '"' :: rest) = some (contents, rest) := by
  induction contents with
  | nil => rfl
  | cons c contents ih =>
    rw [List.flatMap_cons, List.append_assoc, quoted?_escape, ih]
    rfl

/-- Values without numbers, in which no object repeats a name. -/
inductive Textual : Json → Prop
  | null : Textual null
  | bool (value : Bool) : Textual (bool value)
  | string (contents : String) : Textual (string contents)
  | array {items : List Json} (each : ∀ item ∈ items, Textual item) : Textual (array items)
  | object {members : List (String × Json)} (named : (members.map Prod.fst).Nodup)
      (each : ∀ member ∈ members, Textual member.2) : Textual (object members)

theorem skipSpace_cons {c : Char} {cs : List Char} (solid : isSpace c = false) :
    skipSpace (c :: cs) = c :: cs := by
  simp [skipSpace, solid]

/-- A value is written without leading space, and not as an array ends. -/
theorem Textual.exists_head {j : Json} (textual : j.Textual) :
    ∃ c cs, compactChars j = c :: cs ∧ isSpace c = false ∧ c ≠ ']' := by
  cases textual with
  | null => exact ⟨'n', _, rfl, rfl, by decide⟩
  | bool value => cases value <;> exact ⟨_, _, rfl, rfl, by decide⟩
  | string contents => exact ⟨'"', _, rfl, rfl, by decide⟩
  | array each => exact ⟨'[', _, by rw [compactChars]; rfl, rfl, by decide⟩
  | object named each => exact ⟨'\x7b', _, by rw [compactChars]; rfl, rfl, by decide⟩

theorem exists_head_compactItems {items : List Json} (each : ∀ item ∈ items, item.Textual)
    (nonempty : items ≠ []) :
    ∃ c cs, compactItems items = c :: cs ∧ isSpace c = false ∧ c ≠ ']' := by
  obtain ⟨item, items, rfl⟩ := List.exists_cons_of_ne_nil nonempty
  obtain ⟨c, cs, written, solid, notEnd⟩ := (each item List.mem_cons_self).exists_head
  cases items with
  | nil => exact ⟨c, cs, by rw [compactItems, written], solid, notEnd⟩
  | cons next items =>
    exact ⟨c, _, by rw [compactItems, written, List.cons_append], solid, notEnd⟩

theorem exists_quote_compactMembers {members : List (String × Json)} (nonempty : members ≠ []) :
    ∃ cs, compactMembers members = '"' :: cs := by
  obtain ⟨⟨name, value⟩, members, rfl⟩ := List.exists_cons_of_ne_nil nonempty
  cases members <;> exact ⟨_, by rw [compactMembers, quote]; rfl⟩

/-- The value is read from its compact text, whatever follows, under a bound of its length. -/
def ReadsBack (j : Json) : Prop :=
  ∀ bound rest, (compactChars j).length ≤ bound →
    value? bound (compactChars j ++ rest) = some (j, rest)

theorem items?_compactItems {items : List Json} (each : ∀ item ∈ items, item.ReadsBack)
    (nonempty : items ≠ []) {bound : Nat} (enough : (compactItems items).length < bound) :
    items? bound (compactItems items ++ ']' :: rest) = some (items, rest) := by
  induction items generalizing bound with
  | nil => exact absurd rfl nonempty
  | cons item items ih =>
    obtain ⟨bound, rfl⟩ : ∃ fewer, bound = fewer + 1 := ⟨bound - 1, by omega⟩
    obtain ⟨here, later⟩ := List.forall_mem_cons.mp each
    cases items with
    | nil =>
      simp only [compactItems] at enough ⊢
      rw [items?, here bound (']' :: rest) (by omega)]
      rfl
    | cons next items =>
      simp only [compactItems, List.length_append, List.length_cons] at enough
      have short : (compactItems (next :: items)).length < bound := by omega
      have others := ih later (by simp) short
      have split : compactItems (item :: next :: items) ++ ']' :: rest =
          compactChars item ++ ',' :: (compactItems (next :: items) ++ ']' :: rest) := by
        simp [compactItems]
      rw [split, items?, here bound _ (by omega)]
      simp only [skipSpace_cons (show isSpace ',' = false from rfl), others, Option.map_some]

theorem quote_append (contents tail : List Char) :
    quote contents ++ tail = '"' :: (contents.flatMap escape ++ '"' :: tail) := by
  simp [quote]

section

variable (name : String) {value : Json} {bound : Nat}

theorem members?_last
    (read : value? bound (compactChars value ++ '\x7d' :: rest) = some (value, '\x7d' :: rest)) :
    members? (bound + 1) (quote name.toList ++ ':' :: (compactChars value ++ '\x7d' :: rest)) =
      some ([(name, value)], rest) := by
  rw [quote_append, members?, skipSpace_cons rfl]
  simp only [quoted?_flatMap_escape, skipSpace_cons (show isSpace ':' = false from rfl), read,
    skipSpace_cons (show isSpace '\x7d' = false from rfl), String.ofList_toList]

theorem members?_next
    (read : value? bound (compactChars value ++ ',' :: rest) = some (value, ',' :: rest)) :
    members? (bound + 1) (quote name.toList ++ ':' :: (compactChars value ++ ',' :: rest)) =
      (members? bound rest).map fun read => (consMember name value read.1, read.2) := by
  rw [quote_append, members?, skipSpace_cons rfl]
  simp only [quoted?_flatMap_escape, skipSpace_cons (show isSpace ':' = false from rfl), read,
    skipSpace_cons (show isSpace ',' = false from rfl), String.ofList_toList]

end

theorem members?_compactMembers {members : List (String × Json)}
    (each : ∀ member ∈ members, member.2.ReadsBack) (named : (members.map Prod.fst).Nodup)
    (nonempty : members ≠ []) {bound : Nat} (enough : (compactMembers members).length < bound) :
    members? bound (compactMembers members ++ '\x7d' :: rest) = some (members, rest) := by
  induction members generalizing bound with
  | nil => exact absurd rfl nonempty
  | cons member members ih =>
    obtain ⟨name, value⟩ := member
    obtain ⟨bound, rfl⟩ : ∃ fewer, bound = fewer + 1 := ⟨bound - 1, by omega⟩
    obtain ⟨here, later⟩ := List.forall_mem_cons.mp each
    obtain ⟨fresh, named⟩ := List.nodup_cons.mp named
    replace here : value.ReadsBack := here
    cases members with
    | nil =>
      simp only [compactMembers, List.length_append, List.length_cons] at enough
      have split : compactMembers [(name, value)] ++ '\x7d' :: rest =
          quote name.toList ++ ':' :: (compactChars value ++ '\x7d' :: rest) := by
        simp [compactMembers]
      rw [split, members?_last name (here bound _ (by omega))]
    | cons next members =>
      simp only [compactMembers, List.length_append, List.length_cons] at enough
      have short : (compactMembers (next :: members)).length < bound := by omega
      have others := ih later named (by simp) short
      have split : compactMembers ((name, value) :: next :: members) ++ '\x7d' :: rest =
          quote name.toList ++ ':' :: (compactChars value ++
            ',' :: (compactMembers (next :: members) ++ '\x7d' :: rest)) := by
        simp [compactMembers]
      have new : (next :: members).lookup name = none := by
        rw [List.lookup_eq_none_iff]
        intro other member
        have differ : name ≠ other.1 := by
          rintro rfl
          exact fresh (List.mem_map.mpr ⟨other, member, rfl⟩)
        simpa using differ
      rw [split, members?_next name (here bound _ (by omega))]
      simp only [others, Option.map_some, consMember, new, Option.isSome_none]
      rfl

/-- No value is read under the bound zero, but none is written in no characters either. -/
theorem readsBack_of_succ {j : Json} (textual : j.Textual)
    (reads : ∀ bound rest, (compactChars j).length ≤ bound + 1 →
      value? (bound + 1) (compactChars j ++ rest) = some (j, rest)) : j.ReadsBack := by
  intro bound rest enough
  obtain ⟨c, cs, written, _⟩ := textual.exists_head
  cases bound with
  | zero => simp [written] at enough
  | succ bound => exact reads bound rest enough

theorem Textual.readsBack {j : Json} (textual : j.Textual) : j.ReadsBack := by
  -- The brackets of an array or an object leave room in the bound for what stands between them.
  induction textual with
  | null => exact readsBack_of_succ .null fun _ _ _ => rfl
  | bool value =>
    refine readsBack_of_succ (.bool value) fun _ _ _ => ?_
    cases value <;> rfl
  | string contents =>
    refine readsBack_of_succ (.string contents) fun bound rest _ => ?_
    rw [compactChars, quote_append, value?, skipSpace_cons rfl]
    simp [quoted?_flatMap_escape]
  | @array items each ih =>
    refine readsBack_of_succ (.array each) fun bound rest enough => ?_
    have opened : compactChars (.array items) ++ rest =
        '[' :: (compactItems items ++ ']' :: rest) := by
      simp [compactChars]
    rw [opened, value?, skipSpace_cons rfl]
    by_cases none : items = []
    · subst none
      rfl
    · obtain ⟨c, cs, written, solid, notEnd⟩ := exists_head_compactItems each none
      have short : (compactItems items).length < bound := by
        simp only [compactChars, List.length_append, List.length_cons] at enough
        simp only [List.length_nil] at enough
        omega
      have read := @items?_compactItems rest items ih none bound short
      rw [written, List.cons_append] at read ⊢
      simp only [skipSpace_cons solid]
      split
      · next same => exact absurd (List.cons.inj same).1 notEnd
      · simp only [read, Option.map_some]
  | @object members named each ih =>
    refine readsBack_of_succ (.object named each) fun bound rest enough => ?_
    have opened : compactChars (.object members) ++ rest =
        '\x7b' :: (compactMembers members ++ '\x7d' :: rest) := by
      simp [compactChars]
    rw [opened, value?, skipSpace_cons rfl]
    by_cases none : members = []
    · subst none
      rfl
    · have short : (compactMembers members).length < bound := by
        simp only [compactChars, List.length_append, List.length_cons] at enough
        simp only [List.length_nil] at enough
        omega
      have read := @members?_compactMembers rest members ih named none bound short
      obtain ⟨cs, written⟩ := exists_quote_compactMembers none
      rw [written, List.cons_append] at read ⊢
      simp only [skipSpace_cons (show isSpace '"' = false from rfl)]
      split
      · next same => exact absurd (List.cons.inj same).1 (by decide)
      · simp only [read, Option.map_some]

/-- A value without numbers is what its compact text spells. -/
theorem ofText?_compact {j : Json} (textual : j.Textual) : ofText? j.compact = some j := by
  have read := textual.readsBack (2 * (compactChars j).length + 1) [] (by omega)
  rw [List.append_nil] at read
  simp only [ofText?, compact, String.toList_ofList, read]
  rfl

end ContractScript.Json
