import BraceLang.Proofs.Token.Scanning

/-!
# Tokens are as long as they can be

Each token of a text is, in front of what is left of the text there, a lexeme of its class that
could not have gone on. The exception is a quote that no other one closes. Since no quote
is left behind it, no token behind it is another one.
-/

namespace BraceLang

/-- Whether a token is somewhere in a text that begins at `location`, as long as it can be. -/
def Token.MunchedIn (token : Token) (location : Location) (text : List Char) : Prop :=
  ∃ front behind, text = front ++ token.spelling ++ behind ∧
    token.location = location.afterAll front ∧ token.toLexeme.Munched behind

namespace Token.MunchedIn

variable {token : Token} {location : Location} {after : List Char}

/-- A token of a text is one of each text that ends in it. -/
theorem behind (front : List Char) (munched : token.MunchedIn (location.afterAll front) after) :
    token.MunchedIn location (front ++ after) := by
  obtain ⟨others, behind, rfl, placed, munched⟩ := munched
  refine ⟨front ++ others, behind, by simp, ?_, munched⟩
  rw [placed, Location.afterAll_append]

/-- No lone quote is in a text without quotes. -/
theorem ne_loneQuote (munched : token.MunchedIn location after) (unquoted : '"' ∉ after) :
    token.toLexeme ≠ Lexeme.loneQuote := by
  obtain ⟨front, behind, rfl, -, -⟩ := munched
  intro quote
  rw [quote] at unquoted
  exact unquoted (by simp [Lexeme.loneQuote, Lexeme.spelling])

end Token.MunchedIn

/-- A lone quote is of no class, since strings begin with one. -/
theorem Lexeme.not_valid_loneQuote : ¬ loneQuote.Valid := by
  intro valid
  generalize quote : loneQuote = lexeme at valid
  cases valid with
  | word starts continues =>
      have kinds := congrArg Lexeme.kind quote
      simp only [loneQuote, classOfWord] at kinds
      split at kinds <;> exact Kind.noConfusion kinds
  | @unknown character unmarked =>
      have texts := congrArg (·.text.toList) quote
      simp [loneQuote] at texts
      exact unmarked (texts ▸ by decide)
  | _ => exact Kind.noConfusion (congrArg Lexeme.kind quote)

namespace Scanner

theorem munchedIn_of_mem_scan {rounds : Nat} {rest : List Char} {location : Location}
    {token : Token} (member : token ∈ (scan rounds ⟨rest, location⟩).1)
    (inside : token.kind ≠ .endOfInput) : token.MunchedIn location rest := by
  induction rounds generalizing rest location with
  | zero =>
      obtain rfl := List.mem_singleton.mp member
      exact absurd rfl inside
  | succ rounds inductionHypothesis =>
      rcases scan_succ rest location with ⟨-, scanned⟩ |
        ⟨gap, lexeme, after, rfl, -, -, munched, -, scanned⟩
      · rw [scanned] at member
        obtain rfl := List.mem_singleton.mp member
        exact absurd rfl inside
      · rw [scanned] at member
        rcases List.mem_cons.mp member with rfl | member
        · exact ⟨gap, after, rfl, rfl, munched⟩
        · exact (inductionHypothesis member).behind _

/-- A lone quote leaves no quote behind it, so that no other one is among the tokens there. -/
theorem countP_loneQuote_scan (rounds : Nat) (rest : List Char) (location : Location) :
    ((scan rounds ⟨rest, location⟩).1.countP (·.is Lexeme.loneQuote)) ≤ 1 := by
  induction rounds generalizing rest location with
  | zero => exact List.countP_le_length
  | succ rounds inductionHypothesis =>
      rcases scan_succ rest location with ⟨-, scanned⟩ |
        ⟨gap, lexeme, after, -, -, -, munched, -, scanned⟩
      · rw [scanned]
        exact List.countP_le_length
      · rw [scanned, List.countP_cons]
        by_cases quote : lexeme = Lexeme.loneQuote
        · -- Every token further behind is spelled in what is left, and no quote is in that.
          have unquoted : '"' ∉ after := by
            rcases munched with ⟨valid, -⟩ | ⟨-, unquoted⟩
            · exact absurd (quote ▸ valid) Lexeme.not_valid_loneQuote
            · exact unquoted
          have others : (scan rounds ⟨after, location.afterAll (gap ++ lexeme.spelling)⟩).1.countP
              (·.is Lexeme.loneQuote) = 0 := by
            refine List.countP_eq_zero.mpr fun token member => ?_
            rw [Token.is, decide_eq_true_eq]
            intro another
            refine (munchedIn_of_mem_scan member ?_).ne_loneQuote unquoted another
            rw [another]
            exact Kind.noConfusion
          rw [others]
          split <;> decide
        · have here : Token.is ⟨lexeme, location.afterAll gap⟩ Lexeme.loneQuote = false :=
            decide_eq_false quote
          rw [here]
          exact inductionHypothesis _ _

end Scanner

/-- Each token in front of the end of input is in its place, in front of what is left of the
text, as long as it can be; and at most one of them is a quote that no other one closes. -/
theorem tokens_munch_maximally (source : String) :
    (∀ token ∈ tokenize source, token.kind ≠ .endOfInput →
      ∃ front behind, source.toList = front ++ token.spelling ++ behind ∧
        token.location = .behind front ∧ token.toLexeme.Munched behind) ∧
    (tokenize source).countP (·.is Lexeme.loneQuote) ≤ 1 := by
  refine ⟨fun token member inside => ?_, Scanner.countP_loneQuote_scan _ _ _⟩
  obtain ⟨front, behind, whole, placed, munched⟩ := Scanner.munchedIn_of_mem_scan member inside
  exact ⟨front, behind, whole, by rw [placed, Location.afterAll_start], munched⟩

/-- A number whose point begins no fraction, a sign that is not doubled, a slash that opens no
comment, a word that only begins like a reserved one, and a quote behind a whole string. -/
theorem tokens_munch_maximally_adversarial :
    ∃ token ∈ tokenize "1.x+-/ /\n//\"\nform\"\"=\"", token.toLexeme = Lexeme.loneQuote ∧
      ∃ front behind, "1.x+-/ /\n//\"\nform\"\"=\"".toList = front ++ token.spelling ++ behind ∧
        token.location = .behind front ∧ token.toLexeme.Munched behind := by
  have member : (⟨⟨.unknown, "\""⟩, ⟨3, 8⟩⟩ : Token) ∈ tokenize "1.x+-/ /\n//\"\nform\"\"=\"" := by
    decide
  exact ⟨_, member, rfl, (tokens_munch_maximally _).1 _ member (by decide)⟩

end BraceLang
