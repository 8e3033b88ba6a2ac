import ContractScript.Program.Canonical
import ContractScript.Program.Reader
import ContractScript.Proofs.Token.Layout

/-!
Tokens written out as a text, with blanks between them. Such a text scans as the tokens if they are
such as scanning gives. So the blanks of a text may be changed, and more of them put in, without any
effect on the program.
-/

namespace ContractScript

open Text (isBlank)

/-- The tokens that scanning gives. -/
inductive Token.Lexical : Token → Prop
  | symbol {c : Char} (isSymbol : isSymbolChar c = true) : Lexical (.ofChar c)
  | arrow : Lexical .arrow
  | literal {contents : List Char} (inside : '"' ∉ contents) : Lexical (.literal contents)
  | run {cs : List Char} (nonempty : cs ≠ []) (plain : ∀ c ∈ cs, isRunChar c = true) :
      Lexical ⟨String.ofList cs⟩

/-- Tokens in a row, each with the blanks behind it. All but the last have some. -/
structure Spacing where
  leading : List Char
  pieces : List (Token × List Char)
  leading_blank : ∀ c ∈ leading, isBlank c = true
  gaps_blank : ∀ piece ∈ pieces, ∀ c ∈ piece.2, isBlank c = true
  apart : ∀ piece ∈ pieces.dropLast, piece.2 ≠ []

namespace Spacing

def tokens (s : Spacing) : List Token :=
  s.pieces.map (·.1)

def text (s : Spacing) : String :=
  .ofList (s.leading ++ s.pieces.flatMap fun piece => piece.1.text.toList ++ piece.2)

/-- The same blank behind every token. -/
def uniform (w : Char) (blank : isBlank w = true) (tokens : List Token) : Spacing where
  leading := []
  pieces := tokens.map fun t => (t, [w])
  leading_blank := by simp
  gaps_blank := by simp [blank]
  apart := by simp [← List.map_dropLast]

end Spacing

namespace Token

/-- The lexeme that a token of a text is written as; its literals are closed. -/
theorem Lexical.exists_lexeme {t : Token} (lexical : t.Lexical) :
    ∃ l : Lexeme, l.Valid ∧ l.token = t ∧ l.chars = t.text.toList ∧
      ∀ contents, l ≠ .unclosed contents := by
  cases lexical with
  | @symbol c isSymbol =>
    exact ⟨.symbol c, isSymbol, rfl, by simp [Lexeme.chars, ofChar], by simp⟩
  | arrow => exact ⟨.arrow, trivial, rfl, rfl, by simp⟩
  | @literal contents inside =>
    exact ⟨.literal contents, inside, rfl, by simp [Lexeme.chars, Token.literal], by simp⟩
  | @run cs nonempty plain =>
    exact ⟨.run cs, ⟨nonempty, plain⟩, rfl, by simp [Lexeme.chars], by simp⟩

theorem lexical_of_valid {l : Lexeme} (valid : l.Valid) : l.token.Lexical := by
  cases l with
  | symbol c => exact .symbol valid
  | arrow => exact .arrow
  | literal contents | unclosed contents => exact .literal valid
  | run cs => exact .run valid.1 valid.2

theorem lexical_of_mem_scan {source : String} {t : Token} (member : t ∈ scan source) :
    t.Lexical := by
  obtain ⟨layout, valid, text⟩ := Layout.exists_text_eq source.toList
  rw [scan, ← text, Layout.scanFrom_text valid] at member
  obtain ⟨piece, among, rfl⟩ := List.mem_map.mp member
  exact lexical_of_valid (valid.lexemes piece among)

/-- In front of a blank, or at the end, a token is scanned by itself. -/
theorem scanFrom_lexical {t : Token} (lexical : t.Lexical) {rest : List Char}
    (ends : ∀ c ∈ rest.head?, isBlank c = true) :
    scanFrom (.run []) (t.text.toList ++ rest) = t :: scanFrom (.run []) rest := by
  obtain ⟨l, valid, rfl, chars, closed⟩ := lexical.exists_lexeme
  have endsBefore : l.EndsBefore rest := by
    cases rest with
    | nil => exact l.endsBefore_nil
    | cons c rest => exact (Lexeme.endsBefore_blank_iff (ends c rfl)).mpr closed
  rw [← chars]
  exact scanFrom_lexeme valid endsBefore

end Token

namespace Spacing

open Token (scanFrom scan)

theorem scanFrom_pieces {pieces : List (Token × List Char)}
    (lexical : ∀ piece ∈ pieces, piece.1.Lexical)
    (blank : ∀ piece ∈ pieces, ∀ c ∈ piece.2, isBlank c = true)
    (apart : ∀ piece ∈ pieces.dropLast, piece.2 ≠ []) :
    scanFrom (.run []) (pieces.flatMap fun piece => piece.1.text.toList ++ piece.2) =
      pieces.map (·.1) := by
  induction pieces with
  | nil => rfl
  | cons piece pieces ih =>
    obtain ⟨t, gap⟩ := piece
    obtain ⟨here, lexical⟩ := List.forall_mem_cons.mp lexical
    obtain ⟨gapBlank, blank⟩ := List.forall_mem_cons.mp blank
    -- only the last token can do without a gap, and nothing follows it
    have ends : ∀ c ∈ (gap ++ pieces.flatMap fun piece => piece.1.text.toList ++ piece.2).head?,
        isBlank c = true := by
      intro c first
      cases gap with
      | cons w gap =>
        obtain rfl : w = c := Option.some.inj first
        exact gapBlank w List.mem_cons_self
      | nil =>
        cases pieces with
        | nil => cases first
        | cons next pieces => exact absurd rfl (apart (t, []) List.mem_cons_self)
    have later : ∀ piece ∈ pieces.dropLast, piece.2 ≠ [] := by
      intro piece member
      cases pieces with
      | nil => cases member
      | cons next pieces => exact apart piece (List.mem_cons_of_mem _ member)
    rw [List.flatMap_cons, List.append_assoc, Token.scanFrom_lexical here ends,
      Token.scanFrom_blanks gapBlank, ih lexical blank later]
    rfl

theorem scan_text_iff (s : Spacing) : scan s.text = s.tokens ↔ ∀ t ∈ s.tokens, t.Lexical := by
  constructor
  · intro same t member
    rw [← same] at member
    exact Token.lexical_of_mem_scan member
  · intro lexical
    have each : ∀ piece ∈ s.pieces, piece.1.Lexical := by
      intro piece member
      exact lexical piece.1 (List.mem_map_of_mem member)
    rw [scan, text, String.toList_ofList, Token.scanFrom_blanks s.leading_blank,
      scanFrom_pieces each s.gaps_blank s.apart, tokens]

end Spacing

namespace Program

/-- Tokens with blanks between them scan as themselves exactly when each of them is such as scanning
gives. So a text whose tokens are written out again, whatever the blanks, is read as the same
program with the same fingerprint, or fails by the same error. -/
theorem ofSource_respaced (s : Spacing) :
    (Token.scan s.text = s.tokens ↔ ∀ t ∈ s.tokens, t.Lexical) ∧
    ∀ source, s.tokens = Token.scan source →
      Token.scan s.text = Token.scan source ∧ ofSource s.text = ofSource source ∧
        (ofSource s.text).map fingerprint = (ofSource source).map fingerprint := by
  refine ⟨s.scan_text_iff, fun source same => ?_⟩
  have scanned : Token.scan s.text = Token.scan source := by
    rw [← same]
    apply s.scan_text_iff.mpr
    intro t member
    rw [same] at member
    exact Token.lexical_of_mem_scan member
  have read : ofSource s.text = ofSource source := congrArg ofTokens scanned
  exact ⟨scanned, read, congrArg _ read⟩

/-- Lexemes that touch, a `-` and a `>` that must not, and a literal that is left open. -/
def crampedSource : String := "contract A\x7bpublic var x:\"\x7d\"\x7d- >->\"open"

def cramped : Contract := (Contract.named "A").addField "x" ⟨.exposed, "\"\x7d\"", none⟩

/-- Its tokens with a wide blank behind each of them. -/
def spreadOut : Spacing := .uniform '\u2003' (by decide) (Token.scan crampedSource)

theorem ofSource_respaced_cramped :
    spreadOut.tokens = Token.scan crampedSource ∧
    Token.scan spreadOut.text = ["contract", "A", "\x7b", "public", "var", "x", ":", "\"\x7d\"",
      "\x7d", "-", ">", "->", "\"open\""].map Token.mk ∧
    ofSource spreadOut.text = .ok (Program.empty.addContract cramped) := by
  have same : spreadOut.tokens = Token.scan crampedSource := by
    simp [spreadOut, Spacing.uniform, Spacing.tokens, Function.comp_def]
  obtain ⟨scanned, read, _⟩ := (ofSource_respaced spreadOut).2 crampedSource same
  refine ⟨same, ?_, ?_⟩
  · rw [scanned]
    decide +kernel
  · rw [read]
    decide +kernel

end Program

end ContractScript
