import BraceLang.Proofs.Token.Spelling

/-!
# Lexemes written out with blanks between them

A blank character goes on with no lexeme and forms none with what is in front of it. Lexemes
that are written out with blanks between them are therefore cut off where they were
written, whatever stands in their strings.
-/

namespace BraceLang

/-- A lexeme of its class with the blank characters that are written behind it. -/
structure SpacedLexeme where
  lexeme : Lexeme
  blanks : List Char
  valid : lexeme.Valid
  blank : ∀ character ∈ blanks, Text.isBlank character = true

/-- The characters of a lexeme and those behind it. -/
def SpacedLexeme.written (spaced : SpacedLexeme) : List Char :=
  spaced.lexeme.spelling ++ spaced.blanks

namespace Lexeme

theorem isAlphanum_eq_false_of_isBlank {character : Char}
    (blank : Text.isBlank character = true) : character.isAlphanum = false := by
  by_contra alphanumeric
  have visible := (beginsNoGap_of_isAlphanum (eq_true_of_ne_false alphanumeric) []).1
  exact Bool.false_ne_true (visible.symm.trans blank)

/-- Every lexeme ends in front of a blank, and at the end of a text. -/
theorem ends_of_blank (lexeme : Lexeme) {behind : List Char}
    (blank : ∀ next ∈ behind.head?, Text.isBlank next = true) : lexeme.Ends behind := by
  have nonalphanumeric : ∀ next ∈ behind.head?, next.isAlphanum = false := fun next found =>
    isAlphanum_eq_false_of_isBlank (blank next found)
  have differs {other : Char} (visible : Text.isBlank other = false) :
      ∀ next ∈ behind.head?, next ≠ other := by
    rintro next found rfl
    exact Bool.false_ne_true (visible.symm.trans (blank next found))
  unfold Ends
  split
  · refine ⟨fun next found => ?_, fun _ next rest equal => ?_⟩
    · exact (Bool.or_eq_false_iff.mp (nonalphanumeric next found)).2
    · exact absurd rfl (differs rfl '.' (equal ▸ rfl))
  · exact fun next found => ⟨nonalphanumeric next found, differs rfl next found⟩
  · exact fun next found => ⟨nonalphanumeric next found, differs rfl next found⟩
  · exact fun next found => ⟨nonalphanumeric next found, differs rfl next found⟩
  · intro next found fuses
    have visible : ∀ fusion ∈ fusions, Text.isBlank fusion.2 = false := by decide
    exact differs (visible _ fuses) next found rfl
  · intro next found fuses
    have visible : ∀ fusion ∈ fusions, Text.isBlank fusion.2 = false := by decide
    exact differs (visible _ fuses) next found rfl
  · trivial

theorem spelling_ne_nil_of_valid {lexeme : Lexeme} (valid : lexeme.Valid) :
    lexeme.spelling ≠ [] := by
  have ends : lexeme.Ends [] := lexeme.ends_of_blank (by simp)
  exact (cutOff_of_valid valid ends).spelling_ne_nil

end Lexeme

/-- Each lexeme is written with a character at least. -/
theorem SpacedLexeme.length_le_written (words : List SpacedLexeme) :
    words.length ≤ (words.flatMap written).length := by
  induction words with
  | nil => exact Nat.le_refl _
  | cons word words inductionHypothesis =>
      have some_ := List.length_pos_of_ne_nil (Lexeme.spelling_ne_nil_of_valid word.valid)
      simp only [List.flatMap_cons, written, List.length_append, List.length_cons]
        at inductionHypothesis ⊢
      omega

/-- Lexemes written out with blanks between them are spelled. -/
theorem SpacedLexeme.spells_written {front : List Char} {words : List SpacedLexeme}
    (blank : ∀ character ∈ front, Text.isBlank character = true)
    (apart : ∀ word ∈ words.dropLast, word.blanks ≠ []) :
    Spells (front ++ words.flatMap written) (words.map lexeme) := by
  induction words generalizing front with
  | nil => exact .ended (.of_blank (by simpa using blank))
  | cons word words inductionHypothesis =>
      have others : ∀ other ∈ words.dropLast, other.blanks ≠ [] := by
        intro other member
        cases words with
        | nil => exact absurd member List.not_mem_nil
        | cons => exact apart other (List.mem_cons_of_mem _ member)
      -- Only behind the last lexeme may there be no blank, and then there is nothing at all.
      have followed : ∀ next ∈ (word.blanks ++ words.flatMap written).head?,
          Text.isBlank next = true := by
        cases words with
        | nil =>
            intro next found
            rw [List.flatMap_nil, List.append_nil] at found
            exact word.blank next (List.mem_of_mem_head? found)
        | cons =>
            have some_ := apart word (List.mem_cons_self ..)
            obtain ⟨first, blanks, split⟩ := List.exists_cons_of_ne_nil some_
            rw [split]
            intro next found
            exact word.blank next (split ▸ List.mem_of_mem_head? found)
      have spelled := Spells.lexeme (.of_blank blank) word.valid
        (word.lexeme.ends_of_blank followed) (inductionHypothesis word.blank others)
      rwa [List.flatMap_cons, written, List.append_assoc]

/-- As many rounds as lexemes are written out scan them all. -/
theorem Scanner.scan_written {rounds : Nat} {front : List Char} {words : List SpacedLexeme}
    (location : Location) (blank : ∀ character ∈ front, Text.isBlank character = true)
    (apart : ∀ word ∈ words.dropLast, word.blanks ≠ []) (enough : words.length ≤ rounds) :
    (scan rounds ⟨front ++ words.flatMap SpacedLexeme.written, location⟩).1.map Token.toLexeme =
      words.map SpacedLexeme.lexeme ++ [.endOfInput] :=
  scan_of_spells (SpacedLexeme.spells_written blank apart) location (by simpa using enough)

/-- Lexemes of all classes, written out with blanks between any two of them and any blanks
around them all, are scanned back, with the end of input behind them. -/
theorem tokenize_written_out (front : List Char) (words : List SpacedLexeme)
    (blank : ∀ character ∈ front, Text.isBlank character = true)
    (apart : ∀ word ∈ words.dropLast, word.blanks ≠ []) :
    (tokenize (String.ofList (front ++ words.flatMap fun word =>
        word.lexeme.spelling ++ word.blanks))).map Token.toLexeme =
      words.map SpacedLexeme.lexeme ++ [.endOfInput] := by
  have enough : words.length ≤ (front ++ words.flatMap SpacedLexeme.written).length := by
    rw [List.length_append]
    exact Nat.le_add_left_of_le (SpacedLexeme.length_le_written words)
  rw [tokenize, Scanner.tokens, Scanner.ofString, String.toList_ofList]
  exact Scanner.scan_written .start blank apart enough

/-- A string that holds comment marks and a newline, and two slashes that do not touch. -/
theorem tokenize_written_out_slashes :
    (tokenize "\t\"//\n*/\" / / 1.5\n").map Token.toLexeme =
      [⟨.string, "//\n*/"⟩, .op "/", .op "/", ⟨.number, "1.5"⟩, .endOfInput] := by
  have quoted : Lexeme.Valid ⟨.string, "//\n*/"⟩ :=
    .string (by decide : '"' ∉ ['/', '/', '\n', '*', '/'])
  have slash : (Lexeme.op "/").Valid := .operator (by decide)
  have digit {character : Char} (isDigit : character.isDigit = true) :
      Lexeme.AreDigits [character] := ⟨List.cons_ne_nil _ _, List.forall_mem_singleton.mpr isDigit⟩
  have decimal : Lexeme.Valid ⟨.number, "1.5"⟩ :=
    .decimal (digit (rfl : '1'.isDigit = true)) (digit (rfl : '5'.isDigit = true))
  have space : ∀ character ∈ [' '], Text.isBlank character = true :=
    List.forall_mem_singleton.mpr rfl
  have written := tokenize_written_out ['\t']
    [⟨_, [' '], quoted, space⟩, ⟨_, [' '], slash, space⟩, ⟨_, [' '], slash, space⟩,
      ⟨_, ['\n'], decimal, List.forall_mem_singleton.mpr rfl⟩]
    (List.forall_mem_singleton.mpr rfl) (by simp)
  simpa [Lexeme.spelling, Lexeme.op] using written

end BraceLang
