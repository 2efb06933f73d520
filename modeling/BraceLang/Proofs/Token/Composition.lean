import BraceLang.Proofs.Token.Spacing

/-!
# Texts are scanned line by line

A newline ends every lexeme but a string, and every gap but one that stands in a block comment.
What is scanned in front of a newline is therefore not changed by anything behind it, unless a
quote there waits for another one or a comment for its end; and what is scanned behind it is
what would be scanned there alone, so many lines further down.
-/

namespace BraceLang

namespace Location

/-- A place further down. -/
def down (lines : Nat) (location : Location) : Location :=
  ⟨location.line + lines, location.column⟩

theorem after_down (lines : Nat) (location : Location) (character : Char) :
    (location.down lines).after character = (location.after character).down lines := by
  unfold after down
  split
  · rw [Nat.add_right_comm]
  · rfl

/-- Moving over a text further down leads to the same place further down. -/
theorem afterAll_down (lines : Nat) (location : Location) (characters : List Char) :
    (location.down lines).afterAll characters = (location.afterAll characters).down lines := by
  induction characters generalizing location with
  | nil => rfl
  | cons character characters inductionHypothesis =>
      rw [afterAll_cons, after_down, inductionHypothesis, afterAll_cons]

/-- Behind a text and a newline a line begins. -/
theorem afterAll_start_newline (characters : List Char) :
    start.afterAll (characters ++ ['\n']) = start.down (1 + characters.count '\n') := by
  rw [afterAll_start]
  simp [behind, down, start]
  omega

end Location

/-- A token further down. -/
def Token.down (lines : Nat) (token : Token) : Token :=
  ⟨token.toLexeme, token.location.down lines⟩

/-- Whether a gap holds a block comment that it does not end. -/
def OpensBlockComment (gap : List Char) : Prop :=
  ∃ front comment, gap = front ++ '/' :: '*' :: comment ∧ Gap false front ∧
    ¬ ['*', '/'] <:+: comment

/-- A last gap is ended by a newline, or it opens a block comment. -/
theorem Gap.append_newline {gap : List Char} (isGap : Gap true gap) :
    Gap false (gap ++ ['\n']) ∨ OpensBlockComment gap := by
  -- A block comment that is opened in the rest of a gap is opened in the gap.
  have extended {front rest : List Char} (isGap : Gap false front) :
      OpensBlockComment rest → OpensBlockComment (front ++ rest) := by
    rintro ⟨between, comment, rfl, others, unclosed⟩
    exact ⟨front ++ between, comment, by simp, isGap.append others, unclosed⟩
  induction isGap with
  | nil => exact .inl (.blank rfl .nil)
  | @blank character rest blank _ inductionHypothesis =>
      exact inductionHypothesis.imp (.blank blank) (extended (.blank blank .nil))
  | @lineComment comment rest unbroken _ inductionHypothesis =>
      refine inductionHypothesis.imp (fun closed => ?_) fun opens => ?_
      · simpa using Gap.lineComment unbroken closed
      · simpa using extended (.lineComment unbroken .nil) opens
  | @blockComment comment rest unclosed _ inductionHypothesis =>
      refine inductionHypothesis.imp (fun closed => ?_) fun opens => ?_
      · simpa using Gap.blockComment unclosed closed
      · simpa using extended (.blockComment unclosed .nil) opens
  | openLineComment _ unbroken => exact .inl (.lineComment unbroken .nil)
  | @openBlockComment comment _ unclosed => exact .inr ⟨[], comment, rfl, .nil, unclosed⟩

/-- A lexeme that ends in front of a text ends there whatever stands behind a blank. -/
theorem Lexeme.Ends.append_blank {lexeme : Lexeme} {text : List Char} {character : Char}
    (ends : lexeme.Ends text) (blank : Text.isBlank character = true) (further : List Char) :
    lexeme.Ends (text ++ character :: further) := by
  cases text with
  | nil => exact lexeme.ends_of_blank (by simpa using blank)
  | cons first text =>
      unfold Ends at *
      split at ends
      · refine ⟨ends.1, fun unpointed next rest equal => ?_⟩
        obtain ⟨rfl, equalTails⟩ := List.cons.inj equal
        cases text with
        | nil =>
            obtain ⟨rfl, -⟩ := List.cons.inj equalTails
            exact (Bool.or_eq_false_iff.mp (isAlphanum_eq_false_of_isBlank blank)).2
        | cons second text =>
            obtain ⟨rfl, -⟩ := List.cons.inj equalTails
            exact ends.2 unpointed second text rfl
      all_goals exact ends

namespace Scanner

variable {rounds : Nat} {rest gap : List Char}

/-- What is scanned further down is the same further down. -/
theorem scan_down (lines rounds : Nat) (rest : List Char) (location : Location) :
    (scan rounds ⟨rest, location.down lines⟩).1 =
      (scan rounds ⟨rest, location⟩).1.map (Token.down lines) := by
  induction rounds generalizing rest location with
  | zero => rfl
  | succ rounds inductionHypothesis =>
      obtain ⟨gap, left, gapped⟩ : ∃ gap left, splitGap .blank rest = (gap, left) := ⟨_, _, rfl⟩
      cases left with
      | nil => simp [scan, skipGap, gapped, next?, closing, Location.afterAll_down, Token.down]
      | cons first behind =>
          obtain ⟨lexeme, after, split⟩ : ∃ lexeme after,
            Lexeme.split first behind = (lexeme, after) := ⟨_, _, rfl⟩
          rw [scan_of_split gapped split, scan_of_split gapped split, Location.afterAll_down,
            Location.afterAll_down, inductionHypothesis]
          rfl

/-- More rounds than characters are left scan no more. -/
theorem scan_succ_of_le (location : Location) (enough : rest.length ≤ rounds) :
    (scan (rounds + 1) ⟨rest, location⟩).1 = (scan rounds ⟨rest, location⟩).1 := by
  induction rounds generalizing rest location with
  | zero =>
      obtain rfl : rest = [] := List.eq_nil_of_length_eq_zero (Nat.le_zero.mp enough)
      rfl
  | succ rounds inductionHypothesis =>
      rcases scan_succ rest location with ⟨-, scanned⟩ |
        ⟨gap, lexeme, after, -, -, -, -, shorter, scanned⟩
      · rw [scanned, scanned]
      · have fewer := Nat.le_of_lt_succ (Nat.lt_of_lt_of_le shorter enough)
        rw [scanned, scanned, inductionHypothesis _ fewer]

/-- As many rounds as characters are left scan all tokens. -/
theorem scan_of_le (location : Location) (enough : rest.length ≤ rounds) :
    (scan rounds ⟨rest, location⟩).1 = (tokens ⟨rest, location⟩).1 := by
  induction rounds, enough using Nat.le_induction with
  | base => rfl
  | succ rounds enough inductionHypothesis =>
      rw [scan_succ_of_le location enough, inductionHypothesis]

/-- Behind a whole gap the rest is scanned as it is alone. -/
theorem scan_behind_gap (isGap : Gap false gap) (location : Location)
    (enough : (gap ++ rest).length ≤ rounds) :
    (scan rounds ⟨gap ++ rest, location⟩).1 = (tokens ⟨rest, location.afterAll gap⟩).1 := by
  have gapped : skipGap ⟨gap ++ rest, location⟩ = skipGap ⟨rest, location.afterAll gap⟩ := by
    simp [skipGap, splitGap_append_of_gap isGap, Location.afterAll_append]
  have fewer : rest.length ≤ rounds := by
    rw [List.length_append] at enough
    omega
  rw [← scan_of_le _ (Nat.le_succ_of_le fewer), ← scan_succ_of_le location enough]
  simp only [scan, gapped]

/-- Whether the tokens scanned from a scanner on leave a block comment open behind them. -/
def LeavesCommentOpen (scanner : Scanner) (scanned : List Token) : Prop :=
  ∃ pieces last, scanner.Accounts scanned pieces last ∧ OpensBlockComment last

/-- A last gap that opens no block comment is ended by a newline. -/
theorem scan_append_newline_of_gap {front back : List Char} (isGap : Gap true front)
    (closed : ¬ OpensBlockComment front) (location : Location)
    (enough : (front ++ '\n' :: back).length ≤ rounds) :
    (scan rounds ⟨front ++ '\n' :: back, location⟩).1 =
      (tokens ⟨back, location.afterAll (front ++ ['\n'])⟩).1 := by
  have whole := isGap.append_newline.resolve_right closed
  rw [List.append_cons] at enough ⊢
  exact scan_behind_gap whole location enough

/-- A round takes a lexeme that ends where it did, or at the newline. -/
theorem scan_append_newline_of_lexeme {lexeme : Lexeme} {after : List Char}
    (isGap : Gap false gap) (valid : lexeme.Valid) (ends : lexeme.Ends after) (back : List Char)
    (location : Location) (rounds : Nat) :
    (scan (rounds + 1) ⟨gap ++ lexeme.spelling ++ after ++ '\n' :: back, location⟩).1 =
      ⟨lexeme, location.afterAll gap⟩ ::
        (scan rounds ⟨after ++ '\n' :: back, location.afterAll (gap ++ lexeme.spelling)⟩).1 := by
  have newline : Text.isBlank '\n' = true := rfl
  have cutOff := Lexeme.cutOff_of_valid valid (ends.append_blank newline back)
  rw [List.append_assoc, List.append_assoc]
  exact scan_of_cutOff isGap cutOff location rounds

/-- In front of a newline the same is scanned as at the end of a text, and behind it all is scanned
as it is alone. -/
theorem scan_append_newline {front : List Char} {location : Location} (back : List Char)
    (enough : front.length ≤ rounds)
    (paired : ∀ token ∈ (scan rounds ⟨front, location⟩).1, token.toLexeme ≠ Lexeme.loneQuote)
    (closed : ¬ LeavesCommentOpen ⟨front, location⟩ (scan rounds ⟨front, location⟩).1) :
    ∃ lexed, (scan rounds ⟨front, location⟩).1 =
        lexed ++ [⟨.endOfInput, location.afterAll front⟩] ∧
      (∀ token ∈ lexed, token.kind ≠ .endOfInput) ∧
      ∀ further, (front ++ '\n' :: back).length ≤ further →
        (scan further ⟨front ++ '\n' :: back, location⟩).1 =
          lexed ++ (tokens ⟨back, location.afterAll (front ++ ['\n'])⟩).1 := by
  induction rounds generalizing front location with
  | zero =>
      obtain rfl : front = [] := List.eq_nil_of_length_eq_zero (Nat.le_zero.mp enough)
      have unopened : ¬ OpensBlockComment [] := fun opens => closed ⟨[], [], .closing .nil, opens⟩
      exact ⟨[], rfl, by simp, fun _ => scan_append_newline_of_gap .nil unopened location⟩
  | succ rounds inductionHypothesis =>
      rcases scan_succ front location with ⟨isGap, scanned⟩ |
        ⟨gap, lexeme, after, rfl, isGap, inside, munched, shorter, scanned⟩
      · rw [scanned] at closed ⊢
        have unopened : ¬ OpensBlockComment front := fun opens =>
          closed ⟨[], front, .closing isGap, opens⟩
        exact ⟨[], rfl, by simp, fun _ => scan_append_newline_of_gap isGap unopened location⟩
      · rw [scanned] at closed paired ⊢
        obtain ⟨unquoted, others⟩ := List.forall_mem_cons.mp paired
        obtain ⟨valid, ends⟩ := munched.resolve_right fun quote => unquoted quote.1
        have fewer := Nat.le_of_lt_succ (Nat.lt_of_lt_of_le shorter enough)
        obtain ⟨lexed, scannedThere, within, composed⟩ := inductionHypothesis fewer others
          fun ⟨_, last, accounts, opens⟩ => closed ⟨_, last, .piece isGap inside accounts, opens⟩
        refine ⟨⟨lexeme, location.afterAll gap⟩ :: lexed, ?_,
          List.forall_mem_cons.mpr ⟨inside, within⟩, fun further enough => ?_⟩
        · rw [scannedThere, ← Location.afterAll_append]
          rfl
        · simp only [List.length_append, List.length_cons] at enough shorter
          obtain ⟨further, rfl⟩ : ∃ fewer, further = fewer + 1 :=
            Nat.exists_eq_succ_of_ne_zero (by omega)
          have left : (after ++ '\n' :: back).length ≤ further := by
            simp only [List.length_append, List.length_cons]
            omega
          rw [scan_append_newline_of_lexeme isGap valid ends, composed further left,
            ← Location.afterAll_append, ← List.append_assoc]
          rfl

end Scanner

/-- Whether a text ends inside a block comment. -/
def EndsInBlockComment (source : String) : Prop :=
  Scanner.LeavesCommentOpen (.ofString source) (tokenize source)

/-- Where every opening has an end behind it, no block comment is left open. -/
theorem not_endsInBlockComment {source : String}
    (ended : ∀ tail ∈ source.toList.tails, ['/', '*'] <+: tail → ['*', '/'] <:+: tail.drop 2) :
    ¬ EndsInBlockComment source := by
  rintro ⟨pieces, _, ⟨whole, -⟩, front, comment, rfl, -, unclosed⟩
  have inside : '/' :: '*' :: comment ∈ source.toList.tails := by
    refine (List.mem_tails _ _).mpr ⟨pieces.flatMap Piece.text ++ front, ?_⟩
    rw [List.append_assoc]
    exact whole.symm
  exact unclosed (ended _ inside (List.prefix_append ['/', '*'] comment))

example : EndsInBlockComment "/*/" :=
  ⟨[], _, .closing (.openBlockComment rfl (by decide)), [], ['/'], rfl, .nil, by decide⟩

/-- Scanning composes over lines. In front of a newline, where no quote is alone and no block
comment is left open, a text has the tokens that it has alone. They are followed by the tokens of
what stands behind the newline, so many lines further down and in the same columns, the end of
input among them. -/
theorem tokenize_composes_over_lines (front back : String)
    (paired : ∀ token ∈ tokenize front, token.toLexeme ≠ Lexeme.loneQuote)
    (closed : ¬ EndsInBlockComment front) :
    ∃ lexed, tokenize front = lexed ++ [⟨.endOfInput, .behind front.toList⟩] ∧
      (∀ token ∈ lexed, token.kind ≠ .endOfInput) ∧
      tokenize (front ++ "\n" ++ back) =
        lexed ++ (tokenize back).map (Token.down (1 + front.toList.count '\n')) := by
  obtain ⟨lexed, scanned, within, composed⟩ := Scanner.scan_append_newline back.toList
    (Nat.le_refl front.toList.length) paired closed
  refine ⟨lexed, ?_, within, ?_⟩
  · rw [← Location.afterAll_start]
    exact scanned
  · have text : (front ++ "\n" ++ back).toList = front.toList ++ '\n' :: back.toList := by simp
    have whole := composed _ (Nat.le_refl _)
    rw [Location.afterAll_start_newline] at whole
    rw [tokenize, Scanner.tokens, Scanner.ofString, text, whole]
    exact congrArg (lexed ++ ·) (Scanner.scan_down ..)

/-- Quotes in comments and a string over two lines in front of the newline; behind it what would
end a comment, and a lone quote. -/
theorem tokenize_composes_over_lines_adversarial :
    let front := "a+ /* \" */ \"b\n\" // c\""
    ∃ lexed, tokenize front = lexed ++ [⟨.endOfInput, ⟨2, 8⟩⟩] ∧
      tokenize (front ++ "\n" ++ "+ */ \"d") = lexed ++
        [⟨.op "+", ⟨3, 1⟩⟩, ⟨.op "*", ⟨3, 3⟩⟩, ⟨.op "/", ⟨3, 4⟩⟩, ⟨.loneQuote, ⟨3, 6⟩⟩,
          ⟨⟨.identifier, "d"⟩, ⟨3, 7⟩⟩, ⟨.endOfInput, ⟨3, 8⟩⟩] := by
  intro front
  have paired : ∀ token ∈ tokenize front, token.toLexeme ≠ Lexeme.loneQuote := by decide
  have closed : ¬ EndsInBlockComment front := not_endsInBlockComment (by decide)
  obtain ⟨lexed, whole, -, composed⟩ :=
    tokenize_composes_over_lines front "+ */ \"d" paired closed
  have place : Location.behind front.toList = ⟨2, 8⟩ := by decide
  have others : (tokenize "+ */ \"d").map (Token.down (1 + front.toList.count '\n')) =
      [⟨.op "+", ⟨3, 1⟩⟩, ⟨.op "*", ⟨3, 3⟩⟩, ⟨.op "/", ⟨3, 4⟩⟩, ⟨.loneQuote, ⟨3, 6⟩⟩,
        ⟨⟨.identifier, "d"⟩, ⟨3, 7⟩⟩, ⟨.endOfInput, ⟨3, 8⟩⟩] := by decide
  exact ⟨lexed, place ▸ whole, others ▸ composed⟩

end BraceLang
