import ContractScript.Proofs.Program.Spelling
import Mathlib.Data.List.Pairwise
import Mathlib.Tactic.Choose

/-!
Where the bodies of methods come from. Every method of a program that was read stands at a place of
its own among the tokens, its body between two braces. Main statement: these places can be told for
all methods at once, no two of them overlap, and the braces in each body match.
-/

namespace ContractScript

open Grammar Token

/-- The braces around a body, by their indices among the tokens. -/
structure Span where
  opening : Nat
  closing : Nat

namespace Span

structure Encloses (span : Span) (tokens body : List Token) : Prop where
  ordered : span.opening < span.closing
  opens : tokens[span.opening]? = some braceOpen
  closes : tokens[span.closing]? = some braceClose
  between : (tokens.take span.closing).drop (span.opening + 1) = body

/-- No token is inside both spans, their braces counted in. -/
def Apart (a b : Span) : Prop :=
  a.closing < b.opening ∨ b.closing < a.opening

end Span

/-- The method that a program has under the key of a contract and the key of a method. -/
def Program.method? (p : Program) (key : String × String) : Option Method :=
  (p.contracts.get? key.1).bind fun c => c.methods.get? key.2

/-- A declaration of a method: the contract it is in, and the tokens behind its closing brace. -/
structure Site where
  contract : String
  method : Method
  after : List Token

namespace Site

/-- The tokens from the opening brace of the body on. -/
def block (s : Site) : List Token :=
  braceOpen :: (s.method.body ++ braceClose :: s.after)

def Precedes (s t : Site) : Prop := t.block <:+ s.after

/-- The braces of a site that is among the last of `size` tokens. -/
def span (s : Site) (size : Nat) : Span :=
  ⟨size - s.block.length, size - s.after.length - 1⟩

variable {s t : Site} {tokens : List Token}

theorem after_suffix (s : Site) : s.after <:+ s.block :=
  ⟨braceOpen :: (s.method.body ++ [braceClose]), by simp [block]⟩

theorem span_encloses (within : s.block <:+ tokens) :
    (s.span tokens.length).Encloses tokens s.method.body := by
  obtain ⟨front, rfl⟩ := within
  have opening : (s.span (front ++ s.block).length).opening = front.length := by
    simp [span]
  have closing : (s.span (front ++ s.block).length).closing =
      front.length + (s.method.body.length + 1) := by
    simp only [span, block, List.length_append, List.length_cons]
    omega
  constructor
  · omega
  · rw [opening]
    simp [block]
  · rw [closing]
    simp [block]
  · rw [opening, closing, List.take_length_add_append, List.drop_length_add_append]
    simp [block]

theorem closing_lt_opening (precedes : s.Precedes t) (within : s.block <:+ tokens) :
    (s.span tokens.length).closing < (t.span tokens.length).opening := by
  have inner := precedes.length_le
  have outer := within.length_le
  simp only [span, block, List.length_cons, List.length_append] at inner outer ⊢
  omega

end Site

namespace Grammar

theorem Terminator.suffix {tokens rest : List Token} (ended : Terminator tokens rest) :
    rest <:+ tokens := by
  cases ended with
  | given => exact List.suffix_cons _ _
  | absent other => exact List.suffix_rfl

theorem Annotation.suffix {mark : Token} {missing type : String} {tokens rest : List Token}
    (typed : Annotation mark missing tokens type rest) : rest <:+ tokens := by
  cases typed with
  | given type rest => exact ⟨[mark, type], rfl⟩
  | absent other => exact List.suffix_rfl

/-- The declaration of a method ends with its body, and what follows is the rest. -/
theorem Member.block_suffix {tokens rest : List Token} {m : Method}
    (member : Member tokens (some (.method m)) rest) (contract : String) :
    (Site.mk contract m rest).block <:+ tokens := by
  cases member with
  | @method access name params tokens type body rest open_ typed balanced =>
    have behind : tokens <:+ access.token :: ⟨"func"⟩ :: name :: parenOpen ::
        (params ++ parenClose :: tokens) :=
      ⟨access.token :: ⟨"func"⟩ :: name :: parenOpen :: (params ++ [parenClose]), by simp⟩
    exact typed.suffix.trans behind

theorem Member.suffix {tokens rest : List Token} {declaration : Option Declaration}
    (member : Member tokens declaration rest) : rest <:+ tokens := by
  cases member with
  | link module localName => exact List.suffix_append _ _
  | field access name typed ended =>
    exact (ended.suffix.trans typed.suffix).trans ⟨[access.token, ⟨"var"⟩, name], rfl⟩
  | method access name open_ typed balanced =>
    have member := Member.method access name open_ typed balanced
    exact (Site.after_suffix _).trans (member.block_suffix "")
  | skipModified access => exact ⟨[_, _], rfl⟩
  | skip => exact List.suffix_cons _ _

theorem Members.suffix {tokens rest : List Token} {declared : List Declaration}
    (members : Members tokens declared rest) : rest <:+ tokens := by
  induction members with
  | close rest => exact List.suffix_cons _ _
  | next member more ih => exact ih.trans member.suffix

/-- Sites that follow one another from the first of the tokens on, and end before the rest. -/
structure Chart (tokens rest : List Token) (sites : List Site) : Prop where
  ordered : sites.Pairwise Site.Precedes
  within : ∀ s ∈ sites, s.block <:+ tokens
  ended : ∀ s ∈ sites, rest <:+ s.after

theorem Chart.append {tokens middle rest : List Token} {front back : List Site}
    (first : Chart tokens middle front) (second : Chart middle rest back)
    (inner : middle <:+ tokens) (last : rest <:+ middle) : Chart tokens rest (front ++ back) := by
  constructor
  · refine List.pairwise_append.mpr ⟨first.ordered, second.ordered, fun s inFront t inBack => ?_⟩
    exact (second.within t inBack).trans (first.ended s inFront)
  · intro s member
    rcases List.mem_append.mp member with inFront | inBack
    · exact first.within s inFront
    · exact (second.within s inBack).trans inner
  · intro s member
    rcases List.mem_append.mp member with inFront | inBack
    · exact last.trans (first.ended s inFront)
    · exact second.ended s inBack

theorem Chart.nil (tokens rest : List Token) : Chart tokens rest [] :=
  ⟨.nil, nofun, nofun⟩

theorem Chart.behind {tokens longer rest : List Token} {sites : List Site}
    (chart : Chart tokens rest sites) (inner : tokens <:+ longer) : Chart longer rest sites :=
  ⟨chart.ordered, fun s member => (chart.within s member).trans inner, chart.ended⟩

theorem Chart.comparable {tokens rest : List Token} {sites : List Site}
    (chart : Chart tokens rest sites) {s t : Site} (member : s ∈ sites) (memberToo : t ∈ sites)
    (differ : s ≠ t) : s.Precedes t ∨ t.Precedes s := by
  have symmetric : Std.Symm fun s t : Site => s.Precedes t ∨ t.Precedes s :=
    ⟨fun _ _ => Or.symm⟩
  have either : sites.Pairwise fun s t => s.Precedes t ∨ t.Precedes s :=
    chart.ordered.imp Or.inl
  exact either.forall member memberToo differ

theorem Member.exists_chart {tokens rest : List Token} {declaration : Option Declaration}
    (member : Member tokens declaration rest) (contract : String) :
    ∃ sites, Chart tokens rest sites ∧
      ∀ m, declaration = some (.method m) → ⟨contract, m, rest⟩ ∈ sites := by
  by_cases declares : ∃ m, declaration = some (.method m)
  · obtain ⟨m, rfl⟩ := declares
    refine ⟨[⟨contract, m, rest⟩], ⟨List.pairwise_singleton .., ?_, ?_⟩, ?_⟩
    · rintro s single
      obtain rfl := List.mem_singleton.mp single
      exact member.block_suffix contract
    · rintro s single
      obtain rfl := List.mem_singleton.mp single
      exact List.suffix_rfl
    · rintro m' same
      cases same
      exact List.mem_singleton_self _
  · exact ⟨[], .nil _ _, fun m same => absurd ⟨m, same⟩ declares⟩

theorem Members.exists_chart {tokens rest : List Token} {declared : List Declaration}
    (members : Members tokens declared rest) (contract : String) :
    ∃ sites, Chart tokens rest sites ∧
      ∀ m, .method m ∈ declared → ∃ after, ⟨contract, m, after⟩ ∈ sites := by
  induction members with
  | close rest => exact ⟨[], .nil _ _, nofun⟩
  | next member more ih =>
    obtain ⟨front, first, here⟩ := member.exists_chart contract
    obtain ⟨back, second, later⟩ := ih
    refine ⟨front ++ back, first.append second member.suffix more.suffix, fun m among => ?_⟩
    rcases List.mem_append.mp among with declares | declares
    · exact ⟨_, List.mem_append_left _ (here m (Option.mem_toList.mp declares))⟩
    · obtain ⟨after, found⟩ := later m declares
      exact ⟨after, List.mem_append_right _ found⟩

theorem Contracts.exists_chart {tokens : List Token} {contracts : List Contract}
    (read : Contracts tokens contracts) :
    ∃ sites, Chart tokens [] sites ∧ ∀ c ∈ contracts, ∀ key m, c.methods.get? key = some m →
      ∃ after, ⟨c.name, m, after⟩ ∈ sites := by
  induction read with
  | done => exact ⟨[], .nil _ _, nofun⟩
  | @contract name tokens declared rest contracts members more ih =>
    obtain ⟨front, first, here⟩ := members.exists_chart name.text
    obtain ⟨back, second, later⟩ := ih
    have chart := first.append second members.suffix List.nil_suffix
    have inner : tokens <:+ ⟨"contract"⟩ :: name :: braceOpen :: tokens :=
      ⟨[⟨"contract"⟩, name, braceOpen], rfl⟩
    refine ⟨front ++ back, chart.behind inner, fun c among key m found => ?_⟩
    rcases List.mem_cons.mp among with rfl | among
    · obtain ⟨after, site⟩ := here m (Contract.mem_of_method found).1
      have named : (Contract.ofDeclarations name.text declared).name = name.text := by
        rw [Contract.ofDeclarations_eq]
      refine ⟨after, List.mem_append_left _ ?_⟩
      rw [named]
      exact site
    · obtain ⟨after, site⟩ := later c among key m found
      exact ⟨after, List.mem_append_right _ site⟩
  | link module localName more ih =>
    obtain ⟨sites, chart, placed⟩ := ih
    exact ⟨sites, chart.behind (List.suffix_append _ _), placed⟩
  | skip notContract notLink more ih =>
    obtain ⟨sites, chart, placed⟩ := ih
    exact ⟨sites, chart.behind (List.suffix_cons _ _), placed⟩

end Grammar

namespace Program

theorem method?_eq_some_iff {p : Program} {key : String × String} {m : Method} :
    p.method? key = some m ↔
      ∃ c, p.contracts.get? key.1 = some c ∧ c.methods.get? key.2 = some m :=
  Option.bind_eq_some_iff

theorem wellFormed_of_method? {tokens : List Token} {p : Program} (read : ofTokens tokens = .ok p)
    {key : String × String} {m : Method} (found : p.method? key = some m) :
    m.name = key.2 ∧ m.WellFormed := by
  obtain ⟨c, filed, held⟩ := method?_eq_some_iff.mp found
  exact (wellFormed_of_ofTokens read key.1 c filed).2.methods key.2 m held

/-- One site for each method, with the name of its contract. -/
theorem exists_sites {tokens : List Token} {p : Program} (read : ofTokens tokens = .ok p) :
    ∃ sites, Chart tokens [] sites ∧ ∃ site : String × String → Site,
      ∀ key m, p.method? key = some m →
        site key ∈ sites ∧ (site key).contract = key.1 ∧ (site key).method = m := by
  obtain ⟨contracts, derived, rfl⟩ :=
    Reader.contracts_of_accepts ((ofTokens_eq_ok_iff_accepts tokens p).mp read)
  obtain ⟨sites, chart, placed⟩ := derived.exists_chart
  have chosen : ∀ key, ∃ s : Site, ∀ m, (ofContracts contracts).method? key = some m →
      s ∈ sites ∧ s.contract = key.1 ∧ s.method = m := by
    intro key
    cases found : (ofContracts contracts).method? key with
    | none => exact ⟨⟨"", default, []⟩, nofun⟩
    | some m =>
      obtain ⟨c, filed, held⟩ := method?_eq_some_iff.mp found
      obtain ⟨among, named⟩ := mem_of_contract filed
      obtain ⟨after, member⟩ := placed c among key.2 m held
      refine ⟨⟨c.name, m, after⟩, fun m' same => ?_⟩
      obtain rfl := Option.some.inj same
      exact ⟨member, named, rfl⟩
  choose site located using chosen
  exact ⟨sites, chart, site, located⟩

/-- The bodies of all methods of a program have places among the tokens that it was read from, each
between two braces. The places of different methods do not overlap, and in a body every brace has
its partner. -/
theorem bodies_enclosed {tokens : List Token} {p : Program} (read : ofTokens tokens = .ok p) :
    ∃ span : String × String → Span,
      (∀ key m, p.method? key = some m →
        (span key).Encloses tokens m.body ∧
        m.body.count braceOpen = m.body.count braceClose ∧
        ∀ front, front <+: m.body → front.count braceClose ≤ front.count braceOpen) ∧
      ∀ key other, (p.method? key).isSome → (p.method? other).isSome → key ≠ other →
        (span key).Apart (span other) := by
  obtain ⟨sites, chart, site, located⟩ := exists_sites read
  refine ⟨fun key => (site key).span tokens.length, ?_, ?_⟩
  · intro key m found
    obtain ⟨member, _, same⟩ := located key m found
    obtain ⟨within, total⟩ := (wellFormed_of_method? read found).2.body
    refine ⟨same ▸ Site.span_encloses (chart.within _ member), by omega, fun front part => ?_⟩
    have counted := within front part
    omega
  · intro key other holds holdsToo differ
    obtain ⟨m, found⟩ := Option.isSome_iff_exists.mp holds
    obtain ⟨m', foundToo⟩ := Option.isSome_iff_exists.mp holdsToo
    obtain ⟨member, contract, method⟩ := located key m found
    obtain ⟨memberToo, contractToo, methodToo⟩ := located other m' foundToo
    -- a site tells its key
    have apart : site key ≠ site other := by
      intro same
      apply differ
      have names : m.name = m'.name := by rw [← method, ← methodToo, same]
      rw [(wellFormed_of_method? read found).1, (wellFormed_of_method? read foundToo).1] at names
      exact Prod.ext (by rw [← contract, ← contractToo, same]) names
    rcases chart.comparable member memberToo apart with first | last
    · exact .inl (Site.closing_lt_opening first (chart.within _ member))
    · exact .inr (Site.closing_lt_opening last (chart.within _ memberToo))

/-- Two contracts of one name. In the second, a method is named by a brace and declared twice, and a
brace stands among its parameters. -/
def nested : List Token :=
  ["contract", "A", "\x7b",
      "public", "func", "main", "(", ")", "\x7b", "a", "\x7d",
    "\x7d",
    "contract", "A", "\x7b",
      "public", "func", "main", "(", ")", "\x7b", "b", "\x7d",
      "public", "func", "\x7b", "(", "\x7d", ")", "\x7b", "c", "\x7d",
      "private", "func", "\x7b", "(", ")", "\x7b", "\x7b", "d", "\x7d", "\x7d",
    "\x7d"].map Token.mk

def braced : Contract :=
  ((Contract.named "A").addMethod ⟨"main", .exposed, [], Method.voidType, [⟨"b"⟩]⟩).addMethod
    ⟨"\x7b", .internal, [], Method.voidType, [braceOpen, ⟨"d"⟩, braceClose]⟩

theorem bodies_enclosed_nested : ofTokens nested = .ok (empty.addContract braced) ∧
    ∃ span : String × String → Span,
      (span ("A", "main")).Encloses nested [⟨"b"⟩] ∧
      (span ("A", "\x7b")).Encloses nested [braceOpen, ⟨"d"⟩, braceClose] ∧
      (span ("A", "main")).Apart (span ("A", "\x7b")) := by
  have read : ofTokens nested = .ok (empty.addContract braced) := by decide +kernel
  obtain ⟨span, encloses, apart⟩ := bodies_enclosed read
  have main := (encloses ("A", "main") ⟨"main", .exposed, [], Method.voidType, [⟨"b"⟩]⟩ rfl).1
  have brace := (encloses ("A", "\x7b") ⟨"\x7b", .internal, [], Method.voidType,
    [braceOpen, ⟨"d"⟩, braceClose]⟩ rfl).1
  exact ⟨read, span, main, brace, apart _ _ rfl rfl (by decide)⟩

end Program

end ContractScript
