import ContractScript.Token.Scanner
import Mathlib.Data.List.Chain
import Mathlib.Data.List.TakeWhile

/-!
Scanning as a decomposition of the text. Blanks and lexemes take turns in it; a lexeme goes on as
far as it can, so some lexemes never touch. Main statement: the tokens of a text are those of the
lexemes that it decomposes into, and nothing but blanks between lexemes is left out.
-/

namespace ContractScript

open Text (isBlank)

def isRunChar (c : Char) : Bool :=
  !isBlank c && !isSymbolChar c && c != '"'

/-- The part of a text that makes one token. -/
inductive Lexeme where
  | symbol (c : Char)
  | arrow
  | literal (contents : List Char)
  /-- A literal that the text leaves open. -/
  | unclosed (contents : List Char)
  | run (cs : List Char)

namespace Lexeme

def chars : Lexeme → List Char
  | symbol c => [c]
  | arrow => ['-', '>']
  | literal contents => '"' :: contents ++ ['"']
  | unclosed contents => '"' :: contents
  | run cs => cs

/-- The token of the lexeme: its characters, and a closing quote where the text lacks it. -/
def token : Lexeme → Token
  | symbol c => Token.ofChar c
  | arrow => Token.arrow
  | literal contents | unclosed contents => Token.literal contents
  | run cs => ⟨String.ofList cs⟩

def Valid : Lexeme → Prop
  | symbol c => isSymbolChar c = true
  | arrow => True
  | literal contents | unclosed contents => '"' ∉ contents
  | run cs => cs ≠ [] ∧ ∀ c ∈ cs, isRunChar c = true

/-- Whether the second lexeme may stand behind the first without a blank between them. -/
def MayTouch : Lexeme → Lexeme → Prop
  | run _, run _ => False
  | symbol a, symbol b => ¬(a = '-' ∧ b = '>')
  | unclosed _, _ => False
  | _, _ => True

/-- The lexeme does not go on into the characters behind it. -/
def EndsBefore (rest : List Char) : Lexeme → Prop
  | symbol c => c = '-' → rest.head? ≠ some '>'
  | unclosed _ => rest = []
  | run _ => ∀ c ∈ rest.head?, isRunChar c = false
  | _ => True

end Lexeme

/-- A text in parts: blanks, then lexemes, each with the blanks behind it. -/
structure Layout where
  leading : List Char
  pieces : List (Lexeme × List Char)

namespace Layout

def text (l : Layout) : List Char :=
  l.leading ++ l.pieces.flatMap fun piece => piece.1.chars ++ piece.2

def tokens (l : Layout) : List Token :=
  l.pieces.map fun piece => piece.1.token

/-- Gaps hold blanks only, there is none behind an unclosed literal, and lexemes without a gap
between them are such as may touch. -/
structure Valid (l : Layout) : Prop where
  leading : ∀ c ∈ l.leading, isBlank c = true
  gaps : ∀ piece ∈ l.pieces, ∀ c ∈ piece.2, isBlank c = true
  lexemes : ∀ piece ∈ l.pieces, piece.1.Valid
  unclosed : ∀ contents gap, (.unclosed contents, gap) ∈ l.pieces → gap = []
  touching : l.pieces.IsChain fun a b => a.2 = [] → a.1.MayTouch b.1

end Layout

namespace Token

variable {acc rest : List Char} {c : Char}

theorem not_isBlank_of_isSymbolChar (symbol : isSymbolChar c = true) : isBlank c = false := by
  have all : symbolChars.all (fun c => !isBlank c) = true := by decide
  have member : c ∈ symbolChars := by simpa [isSymbolChar] using symbol
  simpa using List.all_eq_true.mp all c member

theorem scanFrom_cons (notArrow : c = '-' → rest.head? ≠ some '>') :
    scanFrom (.run acc) (c :: rest) =
      if isBlank c then ofRun acc ++ scanFrom (.run []) rest
      else if isSymbolChar c then ofRun acc ++ ofChar c :: scanFrom (.run []) rest
      else if c = '"' then ofRun acc ++ scanFrom (.quoted []) rest
      else scanFrom (.run (c :: acc)) rest := by
  rw [scanFrom]
  rintro tail rfl rfl
  exact notArrow rfl rfl

theorem scanFrom_blank (blank : isBlank c = true) :
    scanFrom (.run acc) (c :: rest) = ofRun acc ++ scanFrom (.run []) rest := by
  have notMinus : c ≠ '-' := by
    rintro rfl
    exact absurd blank (by decide)
  rw [scanFrom_cons fun same => absurd same notMinus, if_pos blank]

theorem scanFrom_symbol (symbol : isSymbolChar c = true)
    (notArrow : c = '-' → rest.head? ≠ some '>') :
    scanFrom (.run acc) (c :: rest) = ofRun acc ++ ofChar c :: scanFrom (.run []) rest := by
  rw [scanFrom_cons notArrow, not_isBlank_of_isSymbolChar symbol, if_pos symbol]
  rfl

theorem scanFrom_quote :
    scanFrom (.run acc) ('"' :: rest) = ofRun acc ++ scanFrom (.quoted []) rest := by
  rw [scanFrom_cons fun same => absurd same (by decide)]
  rfl

theorem scanFrom_runChar (plain : isRunChar c = true) :
    scanFrom (.run acc) (c :: rest) = scanFrom (.run (c :: acc)) rest := by
  simp only [isRunChar, Bool.and_eq_true, Bool.not_eq_true', bne_iff_ne] at plain
  obtain ⟨⟨noBlank, noSymbol⟩, noQuote⟩ := plain
  have notMinus : c ≠ '-' := by
    rintro rfl
    exact absurd noSymbol (by decide)
  rw [scanFrom_cons fun same => absurd same notMinus, noBlank, noSymbol, if_neg noQuote]
  rfl

theorem char_cases (c : Char) :
    isBlank c = true ∨ isSymbolChar c = true ∨ c = '"' ∨ isRunChar c = true := by
  by_cases quote : c = '"'
  · exact .inr (.inr (.inl quote))
  · cases blank : isBlank c with
    | true => exact .inl rfl
    | false =>
      cases symbol : isSymbolChar c with
      | true => exact .inr (.inl rfl)
      | false => exact .inr (.inr (.inr (by simp [isRunChar, blank, symbol, quote])))

/-- Whatever is no part of a run ends it. -/
theorem scanFrom_flush (stops : ∀ c ∈ rest.head?, isRunChar c = false) :
    scanFrom (.run acc) rest = ofRun acc ++ scanFrom (.run []) rest := by
  cases rest with
  | nil => simp [scanFrom, ofRun]
  | cons c rest =>
    rcases char_cases c with blank | symbol | rfl | plain
    · simp [scanFrom_blank blank, ofRun]
    · -- an arrow ends a run too, but with two characters
      by_cases arrow : c = '-' ∧ rest.head? = some '>'
      · obtain ⟨rfl, next⟩ := arrow
        obtain ⟨tail, rfl⟩ := List.head?_eq_some_iff.mp next
        simp [scanFrom, ofRun]
      · have notArrow : c = '-' → rest.head? ≠ some '>' := fun minus next => arrow ⟨minus, next⟩
        simp [scanFrom_symbol symbol notArrow, ofRun]
    · simp [scanFrom_quote, ofRun]
    · rw [stops c rfl] at plain
      cases plain

theorem scanFrom_blanks (blanks : ∀ c ∈ acc, isBlank c = true) :
    scanFrom (.run []) (acc ++ rest) = scanFrom (.run []) rest := by
  induction acc with
  | nil => rfl
  | cons c acc ih =>
    rw [List.cons_append, scanFrom_blank (blanks c List.mem_cons_self)]
    exact ih fun other member => blanks other (List.mem_cons_of_mem _ member)

theorem scanFrom_chars {cs : List Char} (plain : ∀ c ∈ cs, isRunChar c = true) :
    scanFrom (.run acc) (cs ++ rest) = scanFrom (.run (cs.reverse ++ acc)) rest := by
  induction cs generalizing acc with
  | nil => rfl
  | cons c cs ih =>
    rw [List.cons_append, scanFrom_runChar (plain c List.mem_cons_self),
      ih fun other member => plain other (List.mem_cons_of_mem _ member)]
    simp

theorem scanFrom_contents {contents : List Char} (inside : '"' ∉ contents) :
    scanFrom (.quoted acc) (contents ++ rest) =
      scanFrom (.quoted (contents.reverse ++ acc)) rest := by
  induction contents generalizing acc with
  | nil => rfl
  | cons c contents ih =>
    simp only [List.mem_cons, not_or] at inside
    obtain ⟨notQuote, later⟩ := inside
    rw [List.cons_append, scanFrom, if_neg (Ne.symm notQuote), ih later]
    simp

/-- A lexeme at the front of a text is scanned as its token, and scanning starts anew behind it. -/
theorem scanFrom_lexeme {l : Lexeme} (valid : l.Valid) (ends : l.EndsBefore rest) :
    scanFrom (.run []) (l.chars ++ rest) = l.token :: scanFrom (.run []) rest := by
  cases l with
  | symbol c => exact scanFrom_symbol valid ends
  | arrow => rfl
  | literal contents =>
    have body : (Lexeme.literal contents).chars ++ rest = '"' :: (contents ++ '"' :: rest) := by
      simp [Lexeme.chars]
    rw [body, scanFrom_quote, scanFrom_contents valid]
    simp [scanFrom, ofRun, Lexeme.token]
  | unclosed contents =>
    obtain rfl : rest = [] := ends
    have body : (Lexeme.unclosed contents).chars ++ [] = '"' :: (contents ++ []) := rfl
    rw [body, scanFrom_quote, scanFrom_contents valid]
    simp [scanFrom, ofRun, Lexeme.token]
  | run cs =>
    obtain ⟨nonempty, plain⟩ := valid
    rw [Lexeme.chars, scanFrom_chars plain, scanFrom_flush ends]
    simp [ofRun, nonempty, Lexeme.token]

end Token

namespace Lexeme

variable {rest : List Char}

theorem endsBefore_chars_iff {l next : Lexeme} (valid : next.Valid) :
    l.EndsBefore (next.chars ++ rest) ↔ l.MayTouch next := by
  cases next with
  | symbol c =>
    have noRun : isRunChar c = false := by
      have symbol : isSymbolChar c = true := valid
      simp [isRunChar, symbol]
    cases l <;> simp [EndsBefore, MayTouch, chars, noRun]
  | arrow =>
    have noRun : isRunChar '-' = false := by decide
    cases l <;> simp [EndsBefore, MayTouch, chars, noRun]
  | literal contents | unclosed contents =>
    have noRun : isRunChar '"' = false := by decide
    cases l <;> simp [EndsBefore, MayTouch, chars, noRun]
  | run cs =>
    obtain ⟨nonempty, plain⟩ := valid
    obtain ⟨c, cs, rfl⟩ := List.exists_cons_of_ne_nil nonempty
    have isRun : isRunChar c = true := plain c List.mem_cons_self
    have notGreater : c ≠ '>' := by
      rintro rfl
      exact absurd isRun (by decide)
    cases l <;> simp [EndsBefore, MayTouch, chars, isRun, notGreater]

theorem endsBefore_blank_iff {l : Lexeme} {c : Char} (blank : isBlank c = true) :
    l.EndsBefore (c :: rest) ↔ ∀ contents, l ≠ .unclosed contents := by
  have noRun : isRunChar c = false := by simp [isRunChar, blank]
  have notGreater : c ≠ '>' := by
    rintro rfl
    exact absurd blank (by decide)
  cases l <;> simp [EndsBefore, noRun, notGreater]

theorem endsBefore_nil (l : Lexeme) : l.EndsBefore [] := by
  cases l <;> simp [EndsBefore]

theorem chars_ne_nil {l : Lexeme} (valid : l.Valid) : l.chars ≠ [] := by
  cases l with
  | run cs => exact valid.1
  | _ => simp [chars]

/-- Where no blank stands, a lexeme starts. -/
theorem exists_of_not_isBlank {c : Char} (solid : isBlank c = false) (cs : List Char) :
    ∃ (l : Lexeme) (rest : List Char),
      l.Valid ∧ l.EndsBefore rest ∧ c :: cs = l.chars ++ rest := by
  rcases Token.char_cases c with blank | isSymbol | rfl | plain
  · rw [solid] at blank
    cases blank
  · by_cases isArrow : c = '-' ∧ cs.head? = some '>'
    · obtain ⟨rfl, next⟩ := isArrow
      obtain ⟨rest, rfl⟩ := List.head?_eq_some_iff.mp next
      exact ⟨arrow, rest, trivial, trivial, rfl⟩
    · exact ⟨symbol c, cs, isSymbol, fun minus next => isArrow ⟨minus, next⟩, rfl⟩
  · by_cases closed : '"' ∈ cs
    · obtain ⟨contents, rest, rfl, inside⟩ := List.eq_append_cons_of_mem closed
      exact ⟨literal contents, rest, inside, trivial, by simp [chars]⟩
    · exact ⟨unclosed cs, [], closed, rfl, by simp [chars]⟩
  · refine ⟨run (c :: cs.takeWhile isRunChar), cs.dropWhile isRunChar, ⟨by simp, ?_⟩, ?_, ?_⟩
    · intro other member
      rcases List.mem_cons.mp member with rfl | taken
      · exact plain
      · exact List.mem_takeWhile_imp taken
    · intro next first
      have stops := List.head?_dropWhile_not isRunChar cs
      rw [Option.mem_def.mp first] at stops
      exact stops
    · simp [chars]

end Lexeme

namespace Layout

/-- The layout with a lexeme in front of it; leading blanks become the gap behind the lexeme. -/
def push (l : Lexeme) (layout : Layout) : Layout :=
  ⟨[], (l, layout.leading) :: layout.pieces⟩

variable {layout : Layout} {l : Lexeme}

theorem text_push : (layout.push l).text = l.chars ++ layout.text := by
  simp [push, text]

theorem endsBefore_text_iff (valid : layout.Valid) :
    l.EndsBefore layout.text ↔
      (∀ contents, l = .unclosed contents → layout.leading = []) ∧
        ∀ next ∈ layout.pieces.head?, layout.leading = [] → l.MayTouch next.1 := by
  obtain ⟨leading, pieces⟩ := layout
  cases leading with
  | cons c cs =>
    have blank := valid.leading c List.mem_cons_self
    simp [text, Lexeme.endsBefore_blank_iff blank]
  | nil =>
    cases pieces with
    | nil => simp [text, Lexeme.endsBefore_nil]
    | cons next pieces =>
      have nextValid := valid.lexemes next List.mem_cons_self
      simp [text, Lexeme.endsBefore_chars_iff nextValid]

theorem valid_push_iff :
    (layout.push l).Valid ↔ layout.Valid ∧ l.Valid ∧ l.EndsBefore layout.text := by
  constructor
  · rintro ⟨_, gaps, lexemes, unclosed, touching⟩
    obtain ⟨leading, gaps⟩ := List.forall_mem_cons.mp gaps
    obtain ⟨here, lexemes⟩ := List.forall_mem_cons.mp lexemes
    obtain ⟨first, touching⟩ := List.isChain_cons.mp touching
    have valid : layout.Valid := by
      refine ⟨leading, gaps, lexemes, fun contents gap member => ?_, touching⟩
      exact unclosed contents gap (List.mem_cons_of_mem _ member)
    refine ⟨valid, here, (endsBefore_text_iff valid).mpr ⟨?_, first⟩⟩
    rintro contents rfl
    exact unclosed contents layout.leading List.mem_cons_self
  · rintro ⟨valid, here, ends⟩
    obtain ⟨alone, first⟩ := (endsBefore_text_iff valid).mp ends
    constructor
    · intro c member
      cases member
    · exact List.forall_mem_cons.mpr ⟨valid.leading, valid.gaps⟩
    · exact List.forall_mem_cons.mpr ⟨here, valid.lexemes⟩
    · intro contents gap member
      rcases List.mem_cons.mp member with same | later
      · obtain ⟨rfl, rfl⟩ := Prod.mk.inj same
        exact alone contents rfl
      · exact valid.unclosed contents gap later
    · exact List.isChain_cons.mpr ⟨first, valid.touching⟩

theorem scanFrom_text (valid : layout.Valid) :
    Token.scanFrom (.run []) layout.text = layout.tokens := by
  obtain ⟨leading, pieces⟩ := layout
  induction pieces generalizing leading with
  | nil =>
    have blanks : Token.scanFrom (.run []) (leading ++ []) = Token.scanFrom (.run []) [] :=
      Token.scanFrom_blanks valid.leading
    simpa [text, tokens, Token.scanFrom, Token.ofRun] using blanks
  | cons piece pieces ih =>
    obtain ⟨l, gap⟩ := piece
    have behind : (push l ⟨gap, pieces⟩).Valid :=
      ⟨by simp [push], valid.gaps, valid.lexemes, valid.unclosed, valid.touching⟩
    obtain ⟨tail, here, ends⟩ := valid_push_iff.mp behind
    have split : (⟨leading, (l, gap) :: pieces⟩ : Layout).text =
        leading ++ (l.chars ++ (⟨gap, pieces⟩ : Layout).text) := by
      simp [text]
    rw [split, Token.scanFrom_blanks valid.leading, Token.scanFrom_lexeme here ends, ih gap tail]
    rfl

theorem exists_text_eq (cs : List Char) : ∃ layout : Layout, layout.Valid ∧ layout.text = cs := by
  -- not on `cs` itself: a lexeme takes several characters at once
  induction length : cs.length using Nat.strongRecOn generalizing cs with
  | ind size ih =>
    cases cs with
    | nil =>
      have empty : Valid ⟨[], []⟩ := ⟨by simp, by simp, by simp, by simp, .nil⟩
      exact ⟨⟨[], []⟩, empty, rfl⟩
    | cons c cs =>
      cases blank : isBlank c with
      | true =>
        obtain ⟨layout, valid, rfl⟩ := ih cs.length (length ▸ Nat.lt_succ_self _) cs rfl
        refine ⟨⟨c :: layout.leading, layout.pieces⟩, ?_, rfl⟩
        have leading : ∀ other ∈ c :: layout.leading, isBlank other = true :=
          List.forall_mem_cons.mpr ⟨blank, valid.leading⟩
        exact ⟨leading, valid.gaps, valid.lexemes, valid.unclosed, valid.touching⟩
      | false =>
        obtain ⟨l, rest, here, ends, split⟩ := Lexeme.exists_of_not_isBlank blank cs
        have shorter : rest.length < size := by
          have taken := List.length_pos_of_ne_nil (Lexeme.chars_ne_nil here)
          rw [← length, split, List.length_append]
          omega
        obtain ⟨layout, valid, rfl⟩ := ih rest.length shorter rest rfl
        refine ⟨layout.push l, valid_push_iff.mpr ⟨valid, here, ends⟩, ?_⟩
        rw [text_push, split]

end Layout

namespace Token

/-- A text without the blanks outside its literals, and with its last literal closed. -/
def compact : (inside : Bool) → List Char → List Char
  | inside, [] => if inside then ['"'] else []
  | inside, c :: rest =>
    if !inside && isBlank c then compact inside rest
    else c :: compact (if c = '"' then !inside else inside) rest

/-- What the tokens of a text spell together. -/
def spelled (tokens : List Token) : List Char :=
  tokens.flatMap fun t => t.text.toList

theorem spelled_cons (t : Token) (tokens : List Token) :
    spelled (t :: tokens) = t.text.toList ++ spelled tokens := rfl

theorem spelled_ofRun_append (acc : List Char) (tokens : List Token) :
    spelled (ofRun acc ++ tokens) = acc.reverse ++ spelled tokens := by
  cases acc <;> simp [spelled, ofRun]

def Pending.chars : Pending → List Char
  | run acc => acc.reverse
  | quoted acc => '"' :: acc.reverse

def Pending.isQuoted : Pending → Bool
  | run _ => false
  | quoted _ => true

theorem spelled_scanFrom (pending : Pending) (cs : List Char) :
    spelled (scanFrom pending cs) = pending.chars ++ compact pending.isQuoted cs := by
  fun_induction scanFrom pending cs with
  | case1 acc =>
    have closed := spelled_ofRun_append acc []
    rw [List.append_nil] at closed
    rw [closed]
    simp [spelled, compact, Pending.chars, Pending.isQuoted]
  | case2 acc rest ih =>
    have minus : isBlank '-' = false := by decide
    have greater : isBlank '>' = false := by decide
    rw [spelled_ofRun_append, spelled_cons, ih]
    simp [arrow, compact, Pending.chars, Pending.isQuoted, minus, greater]
  | case3 acc c rest notArrow blank ih =>
    rw [spelled_ofRun_append, ih]
    simp [compact, Pending.chars, Pending.isQuoted, blank]
  | case4 acc c rest notArrow solid symbol ih =>
    have notQuote : c ≠ '"' := by
      rintro rfl
      exact absurd symbol (by decide)
    rw [spelled_ofRun_append, spelled_cons, ih]
    simp [ofChar, compact, Pending.chars, Pending.isQuoted, solid, notQuote]
  | case5 acc rest notArrow solid notSymbol ih =>
    rw [spelled_ofRun_append, ih]
    simp [compact, Pending.chars, Pending.isQuoted, solid]
  | case6 acc c rest notArrow solid notSymbol notQuote ih =>
    rw [ih]
    simp [compact, Pending.chars, Pending.isQuoted, solid, notQuote]
  | case7 acc => simp [literal, spelled, compact, Pending.chars, Pending.isQuoted]
  | case8 acc rest ih =>
    rw [spelled_cons, ih]
    simp [literal, compact, Pending.chars, Pending.isQuoted]
  | case9 acc c rest notQuote ih =>
    rw [ih]
    simp [compact, Pending.chars, Pending.isQuoted, notQuote]

/-- Scanning a text gives certain tokens exactly when they are the tokens of a layout of the text.
Together they spell the text again but for the blanks outside its literals. -/
theorem scan_eq_iff_layout (source : String) (tokens : List Token) :
    (scan source = tokens ↔
      ∃ layout : Layout, layout.Valid ∧ layout.text = source.toList ∧ layout.tokens = tokens) ∧
    spelled (scan source) = compact false source.toList := by
  refine ⟨⟨?_, ?_⟩, spelled_scanFrom (.run []) source.toList⟩
  · rintro rfl
    obtain ⟨layout, valid, text⟩ := Layout.exists_text_eq source.toList
    refine ⟨layout, valid, text, ?_⟩
    rw [← Layout.scanFrom_text valid, text]
    rfl
  · rintro ⟨layout, valid, text, rfl⟩
    rw [← Layout.scanFrom_text valid, text]
    rfl

end Token

end ContractScript
