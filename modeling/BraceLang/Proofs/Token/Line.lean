import BraceLang.Proofs.Token.Munch

/-!
# Lines and what breaks them

A text without a newline is a line. A newline separates tokens or stands inside a comment or a
string literal, so a string literal is all that can take one along into a text made of tokens.
`Quotes` are the texts of which no more can be said: apart from whole string literals they are
lines.
-/

namespace BraceLang

/-- Whether a text stands on one line. -/
def IsLine (text : String) : Prop := '\n' ∉ text.toList

instance : DecidablePred IsLine := fun text => inferInstanceAs (Decidable ('\n' ∉ text.toList))

namespace IsLine

/-- What a literal spells out can be looked through for newlines. -/
theorem ofList {characters : List Char} (unbroken : '\n' ∉ characters) :
    IsLine (String.ofList characters) := by
  rwa [IsLine, String.toList_ofList]

theorem append {front back : String} (first : IsLine front) (second : IsLine back) :
    IsLine (front ++ back) := by
  rw [IsLine, String.toList_append, List.mem_append, not_or]
  exact ⟨first, second⟩

theorem ofNat (number : Nat) : IsLine (toString number) := by
  intro member
  rw [Nat.toString_eq_repr, Nat.toList_repr] at member
  have digit : '\n'.isDigit = true :=
    Nat.isDigit_of_mem_toDigits (Nat.zero_lt_succ 9) (Nat.le_refl 10) member
  exact absurd digit (by decide)

end IsLine

/-- Whether a text consists of `lines`, each with a newline behind it. -/
def IsWrittenIn (text : String) (lines : List String) : Prop :=
  text.toList.splitOn '\n' = lines.map String.toList ++ [[]]

/-- Lines with newlines behind them are told apart again. -/
theorem isWrittenIn_join {lines : List String} (each : ∀ line ∈ lines, IsLine line) :
    IsWrittenIn (String.join (lines.map (· ++ "\n"))) lines := by
  rw [IsWrittenIn, String.toList_join]
  induction lines with
  | nil => rfl
  | cons line lines inductionHypothesis =>
      obtain ⟨first, others⟩ := List.forall_mem_cons.mp each
      rw [List.map_cons, List.flatMap_cons, String.toList_append, List.append_assoc,
        List.map_cons, List.cons_append, ← inductionHypothesis others]
      exact List.splitOn_append_cons_self_of_not_mem first _

section Quoting

variable {tokens : List Token} {text : String}

/-- Texts in which all newlines stand inside string literals, each of them one of `tokens`. -/
inductive Quotes (tokens : List Token) : String → Prop where
  | line {text : String} (isLine : IsLine text) : Quotes tokens text
  | literal {token : Token} (member : token ∈ tokens) (kind : token.kind = .string) :
      Quotes tokens (String.ofList token.spelling)
  | append {front back : String} (first : Quotes tokens front) (second : Quotes tokens back) :
      Quotes tokens (front ++ back)

/-- If no string literal is broken, neither is what quotes them. -/
theorem Quotes.isLine (quotes : Quotes tokens text)
    (unbroken : ∀ token ∈ tokens, token.kind = .string → IsLine token.text) : IsLine text := by
  induction quotes with
  | line isLine => exact isLine
  | append _ _ first second => exact first.append second
  | @literal token member kind =>
      have body : '\n' ∉ token.text.toList := unbroken token member kind
      rw [IsLine, String.toList_ofList, Lexeme.spelling, kind]
      simp [body]

end Quoting

namespace Lexeme

theorem AreDigits.newline_notMem {digits : List Char} (areDigits : AreDigits digits) :
    '\n' ∉ digits := fun member => absurd (areDigits.2 _ member) (by decide)

/-- Only a string holds newlines. -/
theorem Valid.isLine {lexeme : Lexeme} (valid : lexeme.Valid) (plain : lexeme.kind ≠ .string) :
    IsLine lexeme.text := by
  cases valid with
  | whole areDigits => exact IsLine.ofList areDigits.newline_notMem
  | decimal areDigits fractional =>
      exact IsLine.ofList (by simp [areDigits.newline_notMem, fractional.newline_notMem])
  | @word first others starts continues =>
      refine IsLine.ofList fun member => ?_
      rcases List.mem_cons.mp member with rfl | member
      · exact absurd starts (by decide)
      · exact absurd (continues _ member) (by decide)
  | string => exact absurd rfl plain
  | @comparison text listed =>
      have lines : ∀ text ∈ ["==", "!=", "<=", ">=", "<", ">"], IsLine text := by decide
      exact lines text listed
  | @operator text listed =>
      have lines : ∀ text ∈ ["++", "--", "+", "-", "*", "/", "=", "!", "\x7b", "\x7d", "(", ")",
        ".", ","], IsLine text := by decide
      exact lines text listed
  | semicolon => decide
  | @unknown character _ _ visible =>
      rw [IsLine, String.toList_singleton, List.mem_singleton]
      rintro rfl
      exact absurd visible (by decide)

theorem isLine_endOfInput : IsLine endOfInput.text := by decide

theorem isLine_loneQuote : IsLine loneQuote.text := by decide

end Lexeme

theorem Scanner.isLine_of_mem_scan {rounds : Nat} {rest : List Char} {location : Location}
    {token : Token} (member : token ∈ (scan rounds ⟨rest, location⟩).1)
    (plain : token.kind ≠ .string) : IsLine token.text := by
  induction rounds generalizing rest location with
  | zero =>
      obtain rfl := List.mem_singleton.mp member
      exact Lexeme.isLine_endOfInput
  | succ rounds inductionHypothesis =>
      rcases scan_succ rest location with ⟨-, scanned⟩ |
        ⟨gap, lexeme, after, -, -, -, munched, -, scanned⟩
      · rw [scanned] at member
        obtain rfl := List.mem_singleton.mp member
        exact Lexeme.isLine_endOfInput
      · rw [scanned] at member
        rcases List.mem_cons.mp member with rfl | member
        · rcases munched with ⟨valid, -⟩ | ⟨rfl, -⟩
          · exact valid.isLine plain
          · exact Lexeme.isLine_loneQuote
        · exact inductionHypothesis member

/-- Whether only strings hold newlines. -/
def OnlyStringsBreak (tokens : List Token) : Prop :=
  ∀ token ∈ tokens, token.kind ≠ .string → IsLine token.text

theorem onlyStringsBreak_tokenize (source : String) : OnlyStringsBreak (tokenize source) :=
  fun _ member plain => Scanner.isLine_of_mem_scan member plain

end BraceLang
