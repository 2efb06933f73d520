import BraceLang.Proofs.Token.Scanning

/-!
# What a text spells

`Spells` tells the lexemes of a text without scanning it: gaps and lexemes stand there in turn,
and each lexeme is of its class and ends where the rest of the text begins. Whoever writes a
text out can so account for it lexeme by lexeme, from the last one to the first, and scanning
finds what was accounted for.
-/

namespace BraceLang

namespace Gap

variable {last : Bool} {front gap : List Char}

/-- A gap behind a gap is one gap with it. -/
theorem append (isGap : Gap false front) (others : Gap last gap) : Gap last (front ++ gap) := by
  induction isGap with
  | nil => exact others
  | blank blank _ inductionHypothesis => exact .blank blank inductionHypothesis
  | lineComment unbroken _ inductionHypothesis =>
      simpa using Gap.lineComment unbroken inductionHypothesis
  | blockComment unclosed _ inductionHypothesis =>
      simpa using Gap.blockComment unclosed inductionHypothesis
  | openLineComment behindAll => cases behindAll
  | openBlockComment behindAll => cases behindAll

end Gap

/-- The lexemes that a text spells, with gaps between them. -/
inductive Spells : List Char → List Lexeme → Prop where
  | ended {gap : List Char} (isGap : Gap true gap) : Spells gap []
  | lexeme {gap behind : List Char} {lexeme : Lexeme} {lexemes : List Lexeme}
      (isGap : Gap false gap) (valid : lexeme.Valid) (ends : lexeme.Ends behind)
      (others : Spells behind lexemes) :
      Spells (gap ++ (lexeme.spelling ++ behind)) (lexeme :: lexemes)

namespace Spells

variable {text front : List Char} {lexemes : List Lexeme}

/-- A gap in front of a text spells nothing. -/
theorem behind_gap (isGap : Gap false front) (spells : Spells text lexemes) :
    Spells (front ++ text) lexemes := by
  cases spells with
  | ended others => exact .ended (isGap.append others)
  | lexeme others valid ends spells =>
      rw [← List.append_assoc]
      exact .lexeme (isGap.append others) valid ends spells

/-- A lexeme with no gap in front of it. -/
theorem next {lexeme : Lexeme} (valid : lexeme.Valid) (ends : lexeme.Ends text)
    (others : Spells text lexemes) : Spells (lexeme.spelling ++ text) (lexeme :: lexemes) :=
  .lexeme .nil valid ends others

end Spells

namespace Lexeme.CutOff

variable {lexeme : Lexeme} {behind : List Char}

/-- A lexeme that is cut off takes a character at least. -/
theorem spelling_ne_nil (cutOff : lexeme.CutOff behind) : lexeme.spelling ≠ [] := by
  obtain ⟨first, rest, -, -, cut⟩ := cutOff
  have nonempty := (cuts_split first rest).2.1
  rwa [cut] at nonempty

theorem kind_ne_endOfInput (cutOff : lexeme.CutOff behind) : lexeme.kind ≠ .endOfInput := by
  obtain ⟨first, rest, -, -, cut⟩ := cutOff
  have inside := (cuts_split first rest).2.2
  rwa [cut] at inside

end Lexeme.CutOff

namespace Spells

variable {text : List Char} {lexemes : List Lexeme}

theorem length_le (spells : Spells text lexemes) : lexemes.length ≤ text.length := by
  induction spells with
  | ended => exact Nat.zero_le _
  | lexeme _ valid ends _ inductionHypothesis =>
      have some_ := List.length_pos_of_ne_nil (Lexeme.cutOff_of_valid valid ends).spelling_ne_nil
      simp only [List.length_cons, List.length_append]
      omega

/-- The end of input is spelled by nothing. -/
theorem kind_ne_endOfInput (spells : Spells text lexemes) :
    ∀ lexeme ∈ lexemes, lexeme.kind ≠ .endOfInput := by
  induction spells with
  | ended => simp
  | lexeme _ valid ends _ inductionHypothesis =>
      have inside := (Lexeme.cutOff_of_valid valid ends).kind_ne_endOfInput
      exact List.forall_mem_cons.mpr ⟨inside, inductionHypothesis⟩

end Spells

namespace Scanner

variable {rounds : Nat} {gap behind text : List Char}

/-- A round takes the lexeme behind a gap. -/
theorem scan_of_cutOff {lexeme : Lexeme} (isGap : Gap false gap) (cutOff : lexeme.CutOff behind)
    (location : Location) (rounds : Nat) :
    (scan (rounds + 1) ⟨gap ++ (lexeme.spelling ++ behind), location⟩).1 =
      ⟨lexeme, location.afterAll gap⟩ ::
        (scan rounds ⟨behind, location.afterAll (gap ++ lexeme.spelling)⟩).1 := by
  obtain ⟨first, rest, text, begins, cut⟩ := cutOff
  have gapped := splitGap_append_of_gap isGap (first :: rest) nofun
  rw [splitGap_of_beginsNoGap begins, List.append_nil] at gapped
  rw [text]
  exact scan_of_split gapped cut location rounds

/-- A round finds nothing in a last gap. -/
theorem scan_of_gap (isGap : Gap true gap) (location : Location) (rounds : Nat) :
    (scan rounds ⟨gap, location⟩).1.map Token.toLexeme = [.endOfInput] := by
  have gapped := splitGap_append_of_gap isGap [] fun _ => rfl
  cases rounds with
  | zero => rfl
  | succ rounds =>
      simp only [List.append_nil, splitGap] at gapped
      simp only [scan, skipGap, gapped, next?]
      rfl

/-- As many rounds as lexemes find what a text spells. -/
theorem scan_of_spells {lexemes : List Lexeme} (spells : Spells text lexemes)
    (location : Location) (enough : lexemes.length ≤ rounds) :
    (scan rounds ⟨text, location⟩).1.map Token.toLexeme = lexemes ++ [.endOfInput] := by
  induction spells generalizing rounds location with
  | ended isGap => exact scan_of_gap isGap location rounds
  | lexeme isGap valid ends _ inductionHypothesis =>
      obtain ⟨rounds, rfl⟩ : ∃ fewer, rounds = fewer + 1 :=
        Nat.exists_eq_succ_of_ne_zero (Nat.ne_of_gt (Nat.lt_of_lt_of_le (Nat.succ_pos _) enough))
      rw [scan_of_cutOff isGap (Lexeme.cutOff_of_valid valid ends), List.map_cons,
        inductionHypothesis _ (Nat.le_of_succ_le_succ enough)]
      rfl

end Scanner

/-- Scanning finds what a text spells. -/
theorem tokenize_of_spells {source : String} {lexemes : List Lexeme}
    (spells : Spells source.toList lexemes) :
    (tokenize source).map Token.toLexeme = lexemes ++ [.endOfInput] :=
  Scanner.scan_of_spells spells .start spells.length_le

end BraceLang
