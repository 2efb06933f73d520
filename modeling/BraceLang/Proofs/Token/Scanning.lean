import Mathlib.Data.List.TakeDrop
import BraceLang.Proofs.Token.Class

/-!
# Scanning loses nothing

A source text is its gaps and the spellings of its tokens in turn, whatever its
characters are, and every token stands where the characters in front of it lead. A
quote without a partner is no exception: it is a lexeme of one character, and what
would have been its string is scanned like any other text.

`Location.behind` says by counting alone where a text leads.
-/

namespace BraceLang

/-- The place behind a text: lines are counted by newlines, columns by the characters
behind the last one. -/
def Location.behind (characters : List Char) : Location :=
  ⟨1 + characters.count '\n', 1 + (characters.reverse.takeWhile (· ≠ '\n')).length⟩

/-- Moving over a text character by character leads to the place behind it. -/
theorem Location.afterAll_start (characters : List Char) :
    Location.start.afterAll characters = .behind characters := by
  induction characters using List.reverseRecOn with
  | nil => rfl
  | append_singleton front character inductionHypothesis =>
      rw [afterAll_append, inductionHypothesis, afterAll_cons, afterAll_nil, after]
      by_cases newline : character = '\n'
      · simp [behind, newline]
        omega
      · simp [behind, newline]
        omega

namespace Lexeme

/-- The lexeme at the front of `first :: rest` occupies characters there, at least one, and
is not the end of input. -/
def Cuts (first : Char) (rest : List Char) (split : Split) : Prop :=
  split.1.spelling ++ split.2 = first :: rest ∧ split.1.spelling ≠ [] ∧
    split.1.kind ≠ .endOfInput

variable {first : Char} {rest : List Char}

/-- What a lexeme other than a string occupies is its text. -/
theorem cuts_of_text {kind : Kind} {text : String} {after : List Char}
    (plain : kind ≠ .string) (inside : kind ≠ .endOfInput)
    (whole : text.toList ++ after = first :: rest) (nonempty : text.toList ≠ []) :
    Cuts first rest (⟨kind, text⟩, after) := by
  have spelled : spelling ⟨kind, text⟩ = text.toList := spelling_of_ne plain
  exact ⟨spelled ▸ whole, spelled ▸ nonempty, inside⟩

/-- A quote with a later one opens a string; a quote without one stands alone. -/
theorem cuts_splitString (rest : List Char) : Cuts '"' rest (splitString rest) := by
  have whole := List.takeWhile_append_dropWhile (p := (· ≠ '"')) (l := rest)
  rw [splitString, List.span_eq_takeWhile_dropWhile]
  cases found : rest.dropWhile (· ≠ '"') with
  | nil => exact cuts_of_text Kind.noConfusion Kind.noConfusion rfl (by simp)
  | cons quote after =>
      have closing : quote = '"' := by
        have stopped := List.head?_dropWhile_not (· ≠ '"') rest
        rw [found] at stopped
        simpa using stopped
      rw [found, closing] at whole
      refine ⟨?_, by simp [spelling], Kind.noConfusion⟩
      simpa [spelling] using whole

theorem cuts_splitNumber (digit : first.isDigit = true) :
    Cuts first rest (splitNumber (first :: rest)) := by
  have whole := List.takeWhile_append_dropWhile (p := Char.isDigit) (l := first :: rest)
  have nonempty : (first :: rest).takeWhile Char.isDigit ≠ [] := by simp [digit]
  rw [splitNumber, List.span_eq_takeWhile_dropWhile]
  generalize (first :: rest).takeWhile Char.isDigit = digits at whole nonempty ⊢
  generalize (first :: rest).dropWhile Char.isDigit = behind at whole ⊢
  split
  · next point next after equal =>
      obtain ⟨rfl, rfl⟩ := Prod.mk.inj equal
      split_ifs
      · rw [List.span_eq_takeWhile_dropWhile]
        refine cuts_of_text Kind.noConfusion Kind.noConfusion ?_ (by simp)
        simpa using whole
      · exact cuts_of_text Kind.noConfusion Kind.noConfusion (by simpa using whole)
          (by simpa using nonempty)
  · next after _ equal =>
      obtain ⟨rfl, rfl⟩ := Prod.mk.inj equal
      exact cuts_of_text Kind.noConfusion Kind.noConfusion (by simpa using whole)
        (by simpa using nonempty)

theorem cuts_splitWord (starts : startsWord first = true) :
    Cuts first rest (splitWord (first :: rest)) := by
  have continues : continuesWord first = true := by
    simp only [startsWord, continuesWord, Char.isAlphanum, Bool.or_eq_true] at starts ⊢
    tauto
  have nonempty : (first :: rest).takeWhile continuesWord ≠ [] := by simp [continues]
  rw [splitWord, List.span_eq_takeWhile_dropWhile]
  have kinds (word : String) : wordKind word ≠ .string ∧ wordKind word ≠ .endOfInput := by
    unfold wordKind
    split_ifs <;> simp
  exact cuts_of_text (kinds _).1 (kinds _).2 (by simp) (by simpa using nonempty)

theorem cuts_splitSymbol (first : Char) (rest : List Char) :
    Cuts first rest (splitSymbol first rest) := by
  have alone (kind : Kind) (plain : kind ≠ .string) (inside : kind ≠ .endOfInput) :
      Cuts first rest (⟨kind, String.singleton first⟩, rest) :=
    cuts_of_text plain inside (by simp) (by simp)
  have doubled (kind : Kind) (second : Char) (plain : kind ≠ .string) (inside : kind ≠ .endOfInput)
      (follows : rest.head? = some second) :
      Cuts first rest (⟨kind, String.ofList [first, second]⟩, rest.tail) := by
    obtain ⟨tail, rfl⟩ := List.head?_eq_some_iff.mp follows
    exact cuts_of_text plain inside (by simp) (by simp)
  unfold splitSymbol
  split_ifs with compares equals ordered signs doubles solo semicolon
  · exact doubled _ _ Kind.noConfusion Kind.noConfusion equals
  · exact alone _ Kind.noConfusion Kind.noConfusion
  · exact alone _ Kind.noConfusion Kind.noConfusion
  · exact doubled _ _ Kind.noConfusion Kind.noConfusion doubles
  all_goals exact alone _ Kind.noConfusion Kind.noConfusion

theorem cuts_split (first : Char) (rest : List Char) : Cuts first rest (split first rest) := by
  unfold split
  split_ifs with quote digit word
  · exact quote ▸ cuts_splitString rest
  · exact cuts_splitNumber digit
  · exact cuts_splitWord word
  · exact cuts_splitSymbol first rest

end Lexeme

/-- A token and the gap in front of it. -/
structure Piece where
  gap : List Char
  token : Token

/-- The characters of a piece. -/
def Piece.text (piece : Piece) : List Char := piece.gap ++ piece.token.spelling

/-- The tokens `scanned` from a scanner on are those of pieces that make up its text, up to a
last gap; each is placed behind what stands in front of it. -/
def Scanner.Accounts (scanner : Scanner) (scanned : List Token) (pieces : List Piece)
    (last : List Char) : Prop :=
  scanner.rest = pieces.flatMap Piece.text ++ last ∧
    scanned = pieces.map (·.token) ++ [⟨.endOfInput, scanner.location.afterAll scanner.rest⟩] ∧
    (∀ piece ∈ pieces, Gap false piece.gap ∧ piece.token.kind ≠ .endOfInput) ∧ Gap true last ∧
    ∀ front piece back, pieces = front ++ piece :: back →
      piece.token.location =
        scanner.location.afterAll (front.flatMap Piece.text ++ piece.gap)

namespace Scanner.Accounts

variable {location : Location} {gap after : List Char}

/-- A gap with nothing behind it is followed by the end of input. -/
theorem closing (isGap : Gap true gap) :
    Accounts ⟨gap, location⟩ [⟨.endOfInput, location.afterAll gap⟩] [] gap :=
  ⟨rfl, rfl, by simp, isGap, by simp⟩

/-- A gap, a lexeme and what follows are accounted for in turn. -/
theorem piece {lexeme : Lexeme} {scanned : List Token} {pieces : List Piece} {last : List Char}
    (isGap : Gap false gap) (inside : lexeme.kind ≠ .endOfInput)
    (others : Accounts ⟨after, location.afterAll (gap ++ lexeme.spelling)⟩ scanned pieces last) :
    Accounts ⟨gap ++ lexeme.spelling ++ after, location⟩
      (⟨lexeme, location.afterAll gap⟩ :: scanned)
      (⟨gap, ⟨lexeme, location.afterAll gap⟩⟩ :: pieces) last := by
  obtain ⟨whole, closed, gaps, lastGap, placed⟩ := others
  refine ⟨?_, ?_, ?_, lastGap, ?_⟩
  · simp only at whole
    simp [Piece.text, whole]
  · rw [closed, ← Location.afterAll_append]
    rfl
  · exact List.forall_mem_cons.mpr ⟨⟨isGap, inside⟩, gaps⟩
  · rintro (_ | ⟨foremost, front⟩) piece back equal
    · obtain ⟨rfl, _⟩ := List.cons.inj equal
      rfl
    · obtain ⟨rfl, rfl⟩ := List.cons.inj equal
      rw [placed front piece back rfl, ← Location.afterAll_append]
      simp [Piece.text]

end Scanner.Accounts

/-- A round takes the gap and the lexeme that are cut off. -/
theorem Scanner.scan_of_split {rest gap behind after : List Char} {first : Char} {lexeme : Lexeme}
    (gapped : splitGap .blank rest = (gap, first :: behind))
    (split : Lexeme.split first behind = (lexeme, after)) (location : Location) (rounds : Nat) :
    (scan (rounds + 1) ⟨rest, location⟩).1 = ⟨lexeme, location.afterAll gap⟩ ::
      (scan rounds ⟨after, location.afterAll (gap ++ lexeme.spelling)⟩).1 := by
  simp [scan, skipGap, gapped, next?, split, Location.afterAll_append]

/-- A scanner stands at the last gap of its text, or a round takes a gap and a lexeme that is as
long as it can be. -/
theorem Scanner.scan_succ (rest : List Char) (location : Location) :
    (Gap true rest ∧ ∀ rounds, (scan (rounds + 1) ⟨rest, location⟩).1 =
      [⟨.endOfInput, location.afterAll rest⟩]) ∨
    ∃ gap lexeme after, rest = gap ++ lexeme.spelling ++ after ∧ Gap false gap ∧
      lexeme.kind ≠ .endOfInput ∧ lexeme.Munched after ∧ after.length < rest.length ∧
      ∀ rounds, (scan (rounds + 1) ⟨rest, location⟩).1 = ⟨lexeme, location.afterAll gap⟩ ::
        (scan rounds ⟨after, location.afterAll (gap ++ lexeme.spelling)⟩).1 := by
  have whole := splitGap_append .blank rest
  have isGap := gap_splitGap .blank rest
  obtain ⟨gap, left, equal⟩ : ∃ gap left, splitGap .blank rest = (gap, left) := ⟨_, _, rfl⟩
  rw [equal] at whole isGap
  cases left with
  | nil =>
      obtain rfl : gap = rest := by simpa using whole
      exact .inl ⟨isGap, fun rounds => by simp [scan, skipGap, equal, next?, closing]⟩
  | cons first behind =>
      obtain ⟨cut, nonempty, inside⟩ := Lexeme.cuts_split first behind
      have munched := Lexeme.munched_split (beginsNoGap_of_splitGap (congrArg Prod.snd equal))
      obtain ⟨lexeme, after, split⟩ : ∃ lexeme after, Lexeme.split first behind = (lexeme, after) :=
        ⟨_, _, rfl⟩
      simp only [split] at cut nonempty inside munched
      have taken := List.length_pos_of_ne_nil nonempty
      refine .inr ⟨gap, lexeme, after, ?_, isGap, inside, munched, ?_,
        scan_of_split equal split location⟩
      · rw [List.append_assoc, cut, whole]
      · simp only [← whole, ← cut, List.length_append]
        omega

/-- As many rounds as characters are left account for all of them. -/
theorem Scanner.accounts_scan {rounds : Nat} {rest : List Char} (location : Location)
    (enough : rest.length ≤ rounds) :
    ∃ pieces last, Accounts ⟨rest, location⟩ (scan rounds ⟨rest, location⟩).1 pieces last := by
  induction rounds generalizing rest location with
  | zero =>
      obtain rfl : rest = [] := List.eq_nil_of_length_eq_zero (Nat.le_zero.mp enough)
      exact ⟨[], [], .closing .nil⟩
  | succ rounds inductionHypothesis =>
      rcases scan_succ rest location with ⟨isGap, scanned⟩ |
        ⟨gap, lexeme, after, rfl, isGap, inside, -, shorter, scanned⟩
      · rw [scanned]
        exact ⟨[], rest, .closing isGap⟩
      · obtain ⟨pieces, last, others⟩ :=
          inductionHypothesis _ (Nat.le_of_lt_succ (Nat.lt_of_lt_of_le shorter enough))
        rw [scanned]
        exact ⟨_, last, .piece isGap inside others⟩

/-- A text is its gaps and the spellings of its tokens in turn. Every token stands behind
what is in front of it, and the end of input behind all. -/
theorem tokenize_loses_nothing (source : String) :
    ∃ (pieces : List Piece) (last : List Char),
      source.toList = pieces.flatMap (fun piece => piece.gap ++ piece.token.spelling) ++ last ∧
      tokenize source =
        pieces.map (·.token) ++ [⟨.endOfInput, .behind source.toList⟩] ∧
      (∀ piece ∈ pieces, Gap false piece.gap ∧ piece.token.kind ≠ .endOfInput) ∧
      Gap true last ∧
      ∀ front piece back, pieces = front ++ piece :: back →
        piece.token.location = .behind
          (front.flatMap (fun piece => piece.gap ++ piece.token.spelling) ++ piece.gap) := by
  obtain ⟨pieces, last, whole, closed, gaps, lastGap, placed⟩ :=
    Scanner.accounts_scan .start (Nat.le_refl source.toList.length)
  refine ⟨pieces, last, whole, ?_, gaps, lastGap, fun front piece back split => ?_⟩
  · rw [← Location.afterAll_start]
    exact closed
  · rw [← Location.afterAll_start]
    exact placed front piece back split

/-- A comment over two lines, a `/*/` that closes nothing, a string over two lines, and a
quote that no other one closes. -/
theorem tokenize_loses_nothing_adversarial :
    ∃ (pieces : List Piece) (last : List Char),
      "a/*/\n*/\"x\n\" \"b//".toList =
        pieces.flatMap (fun piece => piece.gap ++ piece.token.spelling) ++ last ∧
      pieces.map (·.token) =
        [⟨⟨.identifier, "a"⟩, ⟨1, 1⟩⟩, ⟨⟨.string, "x\n"⟩, ⟨2, 3⟩⟩, ⟨⟨.unknown, "\""⟩, ⟨3, 3⟩⟩,
          ⟨⟨.identifier, "b"⟩, ⟨3, 4⟩⟩] ∧ Gap true last := by
  have scanned : tokenize "a/*/\n*/\"x\n\" \"b//" =
      [⟨⟨.identifier, "a"⟩, ⟨1, 1⟩⟩, ⟨⟨.string, "x\n"⟩, ⟨2, 3⟩⟩, ⟨⟨.unknown, "\""⟩, ⟨3, 3⟩⟩,
        ⟨⟨.identifier, "b"⟩, ⟨3, 4⟩⟩] ++ [⟨.endOfInput, ⟨3, 7⟩⟩] := by decide
  obtain ⟨pieces, last, whole, closed, _, lastGap, _⟩ :=
    tokenize_loses_nothing "a/*/\n*/\"x\n\" \"b//"
  have same := closed.symm.trans scanned
  exact ⟨pieces, last, whole, List.append_inj_left' same rfl, lastGap⟩

end BraceLang
