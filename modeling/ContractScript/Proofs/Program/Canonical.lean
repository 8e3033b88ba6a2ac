import ContractScript.Program.Canonical
import ContractScript.Proofs.Json.Reading
import ContractScript.Proofs.Table

/-!
The canonical form of programs. Each part of a program is read back from its record, and the record
from its text, so that no two programs share a text. Main statement: a program is what its canonical
form describes, and different programs have one fingerprint only where two messages have one digest.
-/

namespace ContractScript

theorem mapM_map_eq_some {α β : Type} {read : β → Option α} {write : α → β}
    (back : ∀ x, read (write x) = some x) (xs : List α) : (xs.map write).mapM read = some xs := by
  have inverse : read ∘ write = fun x => pure (id x) := funext back
  rw [List.mapM_map, inverse, List.mapM_pure, List.map_id]
  rfl

namespace Json

theorem list?_array {α : Type} (read : Json → Option α) (write : α → Json)
    (back : ∀ x, read (write x) = some x) (xs : List α) :
    (array (xs.map write)).list? read = some xs :=
  mapM_map_eq_some back xs

/-- A record that is written with all its fields gives each of them. -/
theorem fields?_object (names : List String) {members : List (String × Json)}
    (keyed : members.map Prod.fst = names) (named : names.Nodup) (least : Nat) :
    (object members).fields? names least = some (members.map fun member => some member.2) := by
  subst keyed
  have found : ∀ member ∈ members, members.lookup member.1 = some member.2 :=
    fun _ inRecord => lookup_eq_some_of_nodup named inRecord
  simp only [fields?, List.map_map, Option.some.injEq]
  exact List.map_congr_left found

theorem textual_object (names : List String) {members : List (String × Json)}
    (keyed : members.map Prod.fst = names) (named : names.Nodup)
    (each : ∀ value ∈ members.map Prod.snd, value.Textual) : (object members).Textual :=
  .object (keyed ▸ named) fun _ inRecord => each _ (List.mem_map_of_mem inRecord)

theorem textual_array {α : Type} (write : α → Json) (each : ∀ x, (write x).Textual)
    (xs : List α) : (array (xs.map write)).Textual := by
  refine .array fun item member => ?_
  obtain ⟨x, _, rfl⟩ := List.mem_map.mp member
  exact each x

end Json

namespace Table

variable {α : Type}

theorem textual_toJson {write : α → Json} (each : ∀ value, (write value).Textual)
    (table : Table α) : (table.toJson write).Textual := by
  refine .object ?_ fun member inTable => ?_
  · simpa only [List.map_map, Function.comp_def] using table.increasing.keys_nodup
  · obtain ⟨entry, _, rfl⟩ := List.mem_map.mp inTable
    exact each entry.2

theorem ofJson?_toJson {read : Json → Option α} {write : α → Json}
    (back : ∀ value, read (write value) = some value) (table : Table α) :
    ofJson? read (table.toJson write) = some table := by
  have entries : (table.entries.map fun entry => (entry.1, write entry.2)).mapM
      (fun member => (read member.2).map fun value => (member.1, value)) =
        some table.entries := by
    apply mapM_map_eq_some
    intro entry
    simp [back]
  have whole : ofList table.entries = table := ofList_perm (.refl _)
  simp [ofJson?, toJson, Json.object?, entries, whole]

end Table

theorem Access.ofJson?_toJson (a : Access) : ofJson? a.toJson = some a := by
  cases a <;> decide

namespace FieldDecl

theorem textual_toJson (d : FieldDecl) : d.toJson.Textual := by
  apply Json.textual_object ["access", "type", "value"] rfl (by decide)
  obtain ⟨access, type, value⟩ := d
  cases value with
  | none => simpa using ⟨.string _, .string _, .null⟩
  | some value => simpa using ⟨.string _, .string _, .string value⟩

theorem ofJson?_toJson (d : FieldDecl) : ofJson? d.toJson = some d := by
  have fields : d.toJson.fields? ["access", "type", "value"] 3 = _ :=
    Json.fields?_object ["access", "type", "value"] rfl (by decide) 3
  rw [ofJson?, fields]
  obtain ⟨access, type, value⟩ := d
  cases value <;> simp [Access.ofJson?_toJson, Json.string?, valueOfJson?]

end FieldDecl

namespace Method

theorem textual_toJson (m : Method) : m.toJson.Textual := by
  apply Json.textual_object ["name", "access", "params", "return_type", "body"] rfl (by decide)
  have params := Json.textual_array .string .string m.params
  have body := Json.textual_array Token.toJson (fun t => .string t.text) m.body
  simpa using ⟨.string _, .string _, params, .string _, body⟩

theorem ofJson?_toJson (m : Method) : ofJson? m.toJson = some m := by
  have fields : m.toJson.fields? ["name", "access", "params", "return_type", "body"] 5 = _ :=
    Json.fields?_object ["name", "access", "params", "return_type", "body"] rfl (by decide) 5
  have params := Json.list?_array Json.string? .string (fun _ => rfl) m.params
  have body := Json.list?_array Token.ofJson? Token.toJson (fun _ => rfl) m.body
  rw [ofJson?, fields]
  simp [Access.ofJson?_toJson, Json.string?, params, body]

end Method

namespace Contract

theorem textual_toJson (c : Contract) : c.toJson.Textual := by
  apply Json.textual_object ["name", "vars", "methods", "imports"] rfl (by decide)
  have fields := Table.textual_toJson FieldDecl.textual_toJson c.fields
  have methods := Table.textual_toJson Method.textual_toJson c.methods
  have imports := Table.textual_toJson .string c.imports
  simpa using ⟨.string _, fields, methods, imports⟩

theorem ofJson?_toJson (c : Contract) : ofJson? c.toJson = some c := by
  have fields : c.toJson.fields? ["name", "vars", "methods", "imports"] 4 = _ :=
    Json.fields?_object ["name", "vars", "methods", "imports"] rfl (by decide) 4
  have text : ∀ contents, (Json.string contents).string? = some contents := fun _ => rfl
  rw [ofJson?, fields]
  simp [Table.ofJson?_toJson, text, FieldDecl.ofJson?_toJson, Method.ofJson?_toJson]

end Contract

namespace Digest

/-- Two messages with one digest. -/
def Collide (a b : List UInt8) : Prop := a ≠ b ∧ ofBytes a = ofBytes b

theorem digitChar_inj :
    ∀ m < 16, ∀ n < 16, Nat.digitChar m = Nat.digitChar n → m = n := by
  decide

/-- Two digits tell the value of a byte. -/
theorem byte_inj {a b : UInt8}
    (high : Nat.digitChar (a.toNat / 16) = Nat.digitChar (b.toNat / 16))
    (low : Nat.digitChar (a.toNat % 16) = Nat.digitChar (b.toNat % 16)) : a = b := by
  have aBound := a.toNat_lt
  have bBound := b.toNat_lt
  have highs := digitChar_inj _ (by omega) _ (by omega) high
  have lows := digitChar_inj _ (by omega) _ (by omega) low
  apply UInt8.toNat_inj.mp
  omega

theorem hex_inj {a b : List UInt8} : hex a = hex b ↔ a = b := by
  refine ⟨fun same => ?_, congrArg hex⟩
  replace same := String.ofList_inj.mp same
  induction a generalizing b with
  | nil =>
    cases b with
    | nil => rfl
    | cons => cases same
  | cons byte rest ih =>
    cases b with
    | nil => cases same
    | cons other others =>
      obtain ⟨high, digits⟩ := List.cons.inj same
      obtain ⟨low, later⟩ := List.cons.inj digits
      rw [byte_inj high low, ih later]

end Digest

namespace Program

theorem textual_toJson (p : Program) : p.toJson.Textual := by
  apply Json.textual_object ["contracts"] rfl (by decide)
  simpa using Table.textual_toJson Contract.textual_toJson p.contracts

theorem ofJson?_toJson (p : Program) : ofJson? p.toJson = some p := by
  have fields : p.toJson.fields? ["contracts"] 1 = _ :=
    Json.fields?_object ["contracts"] rfl (by decide) 1
  rw [ofJson?, fields]
  simp [Table.ofJson?_toJson, Contract.ofJson?_toJson]

theorem ofText?_canonical (p : Program) : ofText? p.canonical = some p := by
  rw [ofText?, canonical, Json.ofText?_compact p.textual_toJson, Option.bind_some,
    ofJson?_toJson]

theorem canonical_inj {p q : Program} : p.canonical = q.canonical ↔ p = q := by
  refine ⟨fun same => ?_, congrArg canonical⟩
  have read := p.ofText?_canonical
  rw [same, ofText?_canonical] at read
  exact (Option.some.inj read).symm

/-- The message whose digest is a program's fingerprint. -/
def canonicalBytes (p : Program) : List UInt8 := p.canonical.toUTF8.data.toList

theorem canonicalBytes_inj {p q : Program} : p.canonicalBytes = q.canonicalBytes ↔ p = q := by
  refine ⟨fun same => canonical_inj.mp ?_, congrArg canonicalBytes⟩
  have bytes : p.canonical.toUTF8 = q.canonical.toUTF8 := ByteArray.ext (Array.toList_inj.mp same)
  exact String.toByteArray_inj.mp bytes

/-- A program is what its canonical form describes. So programs with one canonical form are equal,
and programs with one fingerprint are equal or make their digest collide. -/
theorem canonical_faithful (p q : Program) :
    ofText? p.canonical = some p ∧
    (p.canonical = q.canonical ↔ p = q) ∧
    (p.fingerprint = q.fingerprint ↔
      p = q ∨ Digest.Collide p.canonicalBytes q.canonicalBytes) := by
  refine ⟨p.ofText?_canonical, canonical_inj, ?_⟩
  have digests : p.fingerprint = q.fingerprint ↔
      Digest.ofBytes p.canonicalBytes = Digest.ofBytes q.canonicalBytes := Digest.hex_inj
  rw [digests]
  constructor
  · intro same
    by_cases equal : p = q
    · exact .inl equal
    · exact .inr ⟨fun bytes => equal (canonicalBytes_inj.mp bytes), same⟩
  · rintro (rfl | ⟨_, same⟩)
    · rfl
    · exact same

end Program

end ContractScript
