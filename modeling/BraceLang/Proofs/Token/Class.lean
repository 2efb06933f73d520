import Mathlib.Data.List.TakeDrop
import Mathlib.Data.List.TakeWhile
import Mathlib.Tactic.SplitIfs
import BraceLang.Proofs.Token.Gap

/-!
# The lexical classes

`Valid` tells by its text alone whether a lexeme belongs to the class that it is given, and
`Ends` by the characters behind a lexeme whether it could have gone on with them. Neither
knows of any scanning. What is cut off at the front of a text is a valid lexeme that ends
where it is cut off, and each such lexeme is cut off; the one exception is a quote that no
other one closes.
-/

namespace BraceLang.Lexeme

/-- Whether characters are digits, one at least. -/
def AreDigits (characters : List Char) : Prop :=
  characters ≠ [] ∧ ∀ character ∈ characters, character.isDigit = true

/-- The class of a word. -/
def classOfWord : String → Kind
  | "int" | "float" | "double" | "char" | "boolean" | "String" | "void" => .dataType
  | "if" | "else" | "for" | "while" | "do" | "switch" | "case" | "break" | "continue" | "return"
  | "public" | "private" | "protected" | "class" | "static" | "try" | "catch" | "finally" =>
    .reserved
  | _ => .identifier

/-- The characters other than letters and digits with which a lexeme of some class begins. -/
def marks : List Char :=
  ['"', '_', '=', '!', '<', '>', '+', '-', '*', '/', '{', '}', '(', ')', '.', ',', ';']

/-- The texts of each class. A character of no other class that can be seen is unknown. -/
inductive Valid : Lexeme → Prop where
  | whole {digits : List Char} (areDigits : AreDigits digits) :
      Valid ⟨.number, String.ofList digits⟩
  | decimal {whole fraction : List Char} (areDigits : AreDigits whole)
      (fractional : AreDigits fraction) :
      Valid ⟨.number, String.ofList (whole ++ '.' :: fraction)⟩
  | word {first : Char} {others : List Char} (starts : first.isAlpha = true ∨ first = '_')
      (continues : ∀ other ∈ others, other.isAlphanum = true ∨ other = '_') :
      Valid ⟨classOfWord (String.ofList (first :: others)), String.ofList (first :: others)⟩
  | string {body : List Char} (unquoted : '"' ∉ body) : Valid ⟨.string, String.ofList body⟩
  | comparison {text : String} (listed : text ∈ ["==", "!=", "<=", ">=", "<", ">"]) :
      Valid ⟨.comparison, text⟩
  | operator {text : String}
      (listed : text ∈ ["++", "--", "+", "-", "*", "/", "=", "!", "\x7b", "\x7d", "(", ")", ".",
        ","]) :
      Valid ⟨.operator, text⟩
  | semicolon : Valid ⟨.semicolon, ";"⟩
  | unknown {character : Char} (unmarked : character ∉ marks)
      (nonalphanumeric : character.isAlphanum = false) (visible : Text.isBlank character = false) :
      Valid ⟨.unknown, String.singleton character⟩

/-- The symbols of one character with each character behind them that would be part of a longer
lexeme or open a comment. -/
def fusions : List (String × Char) :=
  [("=", '='), ("!", '='), ("<", '='), (">", '='), ("+", '+'), ("-", '-'), ("/", '/'), ("/", '*')]

/-- Whether a lexeme ends in front of the characters `behind`. -/
def Ends (lexeme : Lexeme) (behind : List Char) : Prop :=
  match lexeme.kind with
  | .number =>
    (∀ next ∈ behind.head?, next.isDigit = false) ∧
      ('.' ∉ lexeme.text.toList →
        ∀ next rest, behind = '.' :: next :: rest → next.isDigit = false)
  | .identifier | .dataType | .reserved =>
    ∀ next ∈ behind.head?, next.isAlphanum = false ∧ next ≠ '_'
  | .comparison | .operator => ∀ next ∈ behind.head?, (lexeme.text, next) ∉ fusions
  | _ => True

/-- A quote that no other one closes. -/
def loneQuote : Lexeme := ⟨.unknown, "\""⟩

/-- Whether a lexeme is as long as it can be in front of the characters `behind`: a valid one ends
there, and a lone quote has no other quote anywhere behind it. -/
def Munched (lexeme : Lexeme) (behind : List Char) : Prop :=
  lexeme.Valid ∧ lexeme.Ends behind ∨ lexeme = loneQuote ∧ '"' ∉ behind

/-- A span is the longest run of characters of a class. -/
theorem span_eq_iff {class_ : Char → Bool} {characters front back : List Char} :
    characters.span class_ = (front, back) ↔
      characters = front ++ back ∧ (∀ character ∈ front, class_ character = true) ∧
        ∀ next ∈ back.head?, class_ next = false := by
  rw [List.span_eq_takeWhile_dropWhile]
  constructor
  · rintro equal
    obtain ⟨rfl, rfl⟩ := Prod.mk.inj equal
    refine ⟨List.takeWhile_append_dropWhile.symm, fun _ => List.mem_takeWhile_imp,
      fun next found => ?_⟩
    have stopped := List.head?_dropWhile_not class_ characters
    rw [Option.mem_def.mp found] at stopped
    simpa using stopped
  · rintro ⟨rfl, inside, outside⟩
    rw [List.takeWhile_append_of_pos inside, List.dropWhile_append_of_pos inside]
    cases back with
    | nil => simp
    | cons next back => simp [outside next rfl]

theorem wordKind_eq (word : String) : wordKind word = classOfWord word := by
  unfold classOfWord
  split <;> simp_all [wordKind, dataTypeWords, reservedWords]

section Cutting

variable {first : Char} {rest : List Char}

/-- What is cut off behind a quote is a string, or else no quote is left. -/
theorem munched_splitString (rest : List Char) :
    (splitString rest).1.Munched (splitString rest).2 := by
  obtain ⟨body, back, equal⟩ : ∃ body back, rest.span (· ≠ '"') = (body, back) := ⟨_, _, rfl⟩
  obtain ⟨whole, inside, stops⟩ := span_eq_iff.mp equal
  have unquoted : '"' ∉ body := fun member => by simpa using inside '"' member
  rw [splitString, equal]
  cases back with
  | nil =>
      rw [List.append_nil] at whole
      exact .inr ⟨rfl, whole ▸ unquoted⟩
  | cons quote after => exact .inl ⟨.string unquoted, trivial⟩

theorem munched_splitNumber (digit : first.isDigit = true) :
    (splitNumber (first :: rest)).1.Munched (splitNumber (first :: rest)).2 := by
  obtain ⟨digits, back, equal⟩ : ∃ digits back,
      (first :: rest).span Char.isDigit = (digits, back) := ⟨_, _, rfl⟩
  obtain ⟨whole, inside, stops⟩ := span_eq_iff.mp equal
  have nonempty : digits ≠ [] := by
    rintro rfl
    rw [List.nil_append] at whole
    have stopped := stops first (whole ▸ rfl)
    exact absurd (stopped.symm.trans digit) Bool.false_ne_true
  have areDigits : AreDigits digits := ⟨nonempty, inside⟩
  rw [splitNumber, equal]
  split
  · next point next after split =>
      obtain ⟨rfl, rfl⟩ := Prod.mk.inj split
      split_ifs with fractional
      · obtain ⟨fraction, behind, cut⟩ : ∃ fraction behind,
            (next :: after).span Char.isDigit = (fraction, behind) := ⟨_, _, rfl⟩
        obtain ⟨further, digitsBehind, ended⟩ := span_eq_iff.mp cut
        have some_ : fraction ≠ [] := by
          rintro rfl
          rw [List.nil_append] at further
          have stopped := ended next (further ▸ rfl)
          exact absurd (stopped.symm.trans fractional) Bool.false_ne_true
        rw [cut]
        exact .inl ⟨.decimal areDigits ⟨some_, digitsBehind⟩, ended, fun unpointed =>
          absurd (by simp) unpointed⟩
      · refine .inl ⟨.whole areDigits, stops, fun _ other tail equal => ?_⟩
        obtain ⟨-, equal⟩ := List.cons.inj equal
        obtain ⟨rfl, -⟩ := List.cons.inj equal
        simpa using fractional
  · next unpointed split =>
      obtain ⟨rfl, rfl⟩ := Prod.mk.inj split
      exact .inl ⟨.whole areDigits, stops, fun _ other tail equal =>
        (unpointed other tail equal).elim⟩

theorem ends_word_iff {word : String} {behind : List Char} :
    Ends ⟨classOfWord word, word⟩ behind ↔
      ∀ next ∈ behind.head?, next.isAlphanum = false ∧ next ≠ '_' := by
  unfold classOfWord
  split <;> exact Iff.rfl

theorem munched_splitWord (starts : startsWord first = true) :
    (splitWord (first :: rest)).1.Munched (splitWord (first :: rest)).2 := by
  obtain ⟨word, back, equal⟩ : ∃ word back,
      (first :: rest).span continuesWord = (word, back) := ⟨_, _, rfl⟩
  obtain ⟨whole, inside, stops⟩ := span_eq_iff.mp equal
  simp only [startsWord, Bool.or_eq_true, decide_eq_true_eq] at starts
  have continues : continuesWord first = true := by
    simp only [continuesWord, Char.isAlphanum, Bool.or_eq_true, decide_eq_true_eq]
    tauto
  rw [splitWord, equal]
  cases word with
  | nil =>
      rw [List.nil_append] at whole
      have stopped := stops first (whole ▸ rfl)
      exact absurd (stopped.symm.trans continues) Bool.false_ne_true
  | cons initial others =>
      obtain ⟨rfl, -⟩ := List.cons.inj whole
      have further := (List.forall_mem_cons.mp inside).2
      simp only [continuesWord, Bool.or_eq_true, decide_eq_true_eq] at further
      simp only [continuesWord, Bool.or_eq_false_iff, decide_eq_false_iff_not] at stops
      simp only [wordKind_eq]
      exact .inl ⟨.word starts further, ends_word_iff.mpr stops⟩

theorem munched_splitSymbol (unquoted : first ≠ '"') (undigited : first.isDigit = false)
    (wordless : startsWord first = false) (begins : BeginsNoGap first rest) :
    (splitSymbol first rest).1.Munched (splitSymbol first rest).2 := by
  have unlettered : first.isAlpha = false ∧ first ≠ '_' := by
    simpa [startsWord] using wordless
  refine .inl ?_
  unfold splitSymbol
  split_ifs with compares equals ordered signs doubles solo semicolon
  all_goals simp only [List.mem_cons, List.not_mem_nil, or_false, soloOperators] at *
  · rcases compares with rfl | rfl | rfl | rfl <;>
      exact ⟨.comparison (by decide), fun next _ => by simp [fusions]⟩
  · rcases ordered with rfl | rfl <;>
      exact ⟨.comparison (by decide), fun next found => by simp_all [fusions]⟩
  · obtain rfl | rfl : first = '=' ∨ first = '!' := by tauto
    all_goals exact ⟨.operator (by decide), fun next found => by simp_all [fusions]⟩
  · rcases signs with rfl | rfl <;>
      exact ⟨.operator (by decide), fun next _ => by simp [fusions]⟩
  · rcases signs with rfl | rfl <;>
      exact ⟨.operator (by decide), fun next found => by simp_all [fusions]⟩
  · rcases solo with rfl | rfl | rfl | rfl | rfl | rfl | rfl | rfl <;>
      exact ⟨.operator (by decide), fun next found => by simp_all [fusions, BeginsNoGap]⟩
  · exact semicolon ▸ ⟨.semicolon, trivial⟩
  · have unmarked : first ∉ marks := by
      simp only [marks, List.mem_cons, List.not_mem_nil, or_false]
      tauto
    exact ⟨.unknown unmarked (by simp [Char.isAlphanum, unlettered, undigited]) begins.1, trivial⟩

/-- What is cut off where no gap begins is as long as it can be. -/
theorem munched_split (begins : BeginsNoGap first rest) :
    (split first rest).1.Munched (split first rest).2 := by
  unfold split
  split_ifs with quote digit word
  · exact munched_splitString rest
  · exact munched_splitNumber digit
  · exact munched_splitWord word
  · exact munched_splitSymbol quote (Bool.eq_false_iff.mpr digit) (Bool.eq_false_iff.mpr word)
      begins

end Cutting

section Reading

variable {behind : List Char}

/-- A lexeme other than a string is spelled as its text. -/
theorem spelling_of_ne {lexeme : Lexeme} (plain : lexeme.kind ≠ .string) :
    lexeme.spelling = lexeme.text.toList := by
  unfold spelling
  split
  · next string => exact absurd string plain
  · rfl

theorem classOfWord_ne_string (word : String) : classOfWord word ≠ .string := by
  unfold classOfWord
  split <;> exact Kind.noConfusion

theorem isDigit_eq_false_of_isAlpha {character : Char} (alpha : character.isAlpha = true) :
    character.isDigit = false := by
  delta Char.isAlpha Char.isUpper Char.isLower at alpha
  simp [UInt32.le_iff_toNat_le] at alpha
  simp [Char.isDigit, UInt32.le_iff_toNat_le]
  omega

/-- Letters and digits can be seen and open no comment. -/
theorem beginsNoGap_of_isAlphanum {first : Char} (alphanumeric : first.isAlphanum = true)
    (rest : List Char) : BeginsNoGap first rest := by
  refine ⟨?_, ?_⟩
  · delta Char.isAlphanum Char.isAlpha Char.isUpper Char.isLower Char.isDigit at alphanumeric
    simp [UInt32.le_iff_toNat_le] at alphanumeric
    simp [Text.isBlank, Text.blankRanges]
    omega
  · rintro rfl
    exact absurd alphanumeric (by decide)

theorem splitString_of_unquoted {body : List Char} (unquoted : '"' ∉ body)
    (behind : List Char) :
    splitString (body ++ '"' :: behind) = (⟨.string, String.ofList body⟩, behind) := by
  have inside : ∀ character ∈ body, decide (character ≠ '"') = true := fun character member =>
    decide_eq_true (ne_of_mem_of_not_mem member unquoted)
  rw [splitString, span_eq_iff.mpr ⟨rfl, inside, by simp⟩]

theorem splitNumber_of_whole {digits : List Char} (areDigits : AreDigits digits)
    (ends : Ends ⟨.number, String.ofList digits⟩ behind) :
    splitNumber (digits ++ behind) = (⟨.number, String.ofList digits⟩, behind) := by
  have unpointed : '.' ∉ (String.ofList digits).toList := by
    rw [String.toList_ofList]
    exact fun member => absurd (areDigits.2 '.' member) (by decide)
  rw [splitNumber, span_eq_iff.mpr ⟨rfl, areDigits.2, ends.1⟩]
  split
  · next point next after equal =>
      obtain ⟨rfl, rfl⟩ := Prod.mk.inj equal
      rw [if_neg]
      simp [ends.2 unpointed next after rfl]
  · next equal =>
      obtain ⟨rfl, rfl⟩ := Prod.mk.inj equal
      rfl

theorem splitNumber_of_decimal {whole fraction : List Char} (areDigits : AreDigits whole)
    (fractional : AreDigits fraction) (ends : ∀ next ∈ behind.head?, next.isDigit = false) :
    splitNumber (whole ++ '.' :: (fraction ++ behind)) =
      (⟨.number, String.ofList (whole ++ '.' :: fraction)⟩, behind) := by
  have pointed : ∀ next ∈ ('.' :: (fraction ++ behind)).head?, next.isDigit = false := by
    rintro next equal
    obtain rfl := Option.some.inj equal
    rfl
  have cut := span_eq_iff.mpr ⟨rfl, fractional.2, ends⟩
  rw [splitNumber, span_eq_iff.mpr ⟨rfl, areDigits.2, pointed⟩]
  cases fraction with
  | nil => exact absurd rfl fractional.1
  | cons first fraction =>
      have digit := fractional.2 first (List.mem_cons_self ..)
      simp only [List.cons_append] at cut ⊢
      simp only [digit, if_true, cut]

theorem splitWord_of_ends {first : Char} {others : List Char}
    (starts : first.isAlpha = true ∨ first = '_')
    (continues : ∀ other ∈ others, other.isAlphanum = true ∨ other = '_')
    (ends : ∀ next ∈ behind.head?, next.isAlphanum = false ∧ next ≠ '_') :
    splitWord (first :: others ++ behind) =
      (⟨classOfWord (String.ofList (first :: others)), String.ofList (first :: others)⟩,
        behind) := by
  have inside : ∀ character ∈ first :: others, continuesWord character = true := by
    refine List.forall_mem_cons.mpr ⟨?_, fun other member => ?_⟩
    · rcases starts with alpha | rfl
      · simp [continuesWord, Char.isAlphanum, alpha]
      · rfl
    · simpa [continuesWord] using continues other member
  have outside : ∀ next ∈ behind.head?, continuesWord next = false := by
    simpa [continuesWord] using ends
  rw [splitWord, span_eq_iff.mpr ⟨rfl, inside, outside⟩]
  simp only [wordKind_eq]

/-- Whether a lexeme in front of the characters `behind` is cut off there, and no gap before it. -/
def CutOff (lexeme : Lexeme) (behind : List Char) : Prop :=
  ∃ first rest, lexeme.spelling ++ behind = first :: rest ∧ BeginsNoGap first rest ∧
    split first rest = (lexeme, behind)

/-- A character other than a slash that can be seen begins no gap. -/
theorem beginsNoGap_of_ne {first : Char} (visible : Text.isBlank first = false)
    (unslashed : first ≠ '/') (rest : List Char) : BeginsNoGap first rest :=
  ⟨visible, fun slash => absurd slash unslashed⟩

theorem cutOff_comparison {text : String} (listed : text ∈ ["==", "!=", "<=", ">=", "<", ">"])
    (ends : Ends ⟨.comparison, text⟩ behind) : CutOff ⟨.comparison, text⟩ behind := by
  have unfused {next : Char} (fuses : (text, next) ∈ fusions) : behind.head? ≠ some next :=
    fun found => ends next found fuses
  simp only [List.mem_cons, List.not_mem_nil, or_false] at listed
  rcases listed with rfl | rfl | rfl | rfl | rfl | rfl <;>
    refine ⟨_, _, rfl, beginsNoGap_of_ne rfl (by decide) _, ?_⟩
  case inr.inr.inr.inr.inl | inr.inr.inr.inr.inr => exact if_neg (unfused (by decide))
  all_goals rfl

theorem cutOff_operator {text : String}
    (listed : text ∈ ["++", "--", "+", "-", "*", "/", "=", "!", "\x7b", "\x7d", "(", ")", ".",
      ","]) (ends : Ends ⟨.operator, text⟩ behind) : CutOff ⟨.operator, text⟩ behind := by
  have unfused {next : Char} (fuses : (text, next) ∈ fusions) : behind.head? ≠ some next :=
    fun found => ends next found fuses
  by_cases slash : text = "/"
  · subst slash
    refine ⟨'/', behind, rfl, ⟨rfl, fun _ next found => ?_⟩, rfl⟩
    constructor <;> rintro rfl <;> exact unfused (by decide) found
  · simp only [List.mem_cons, List.not_mem_nil, or_false, slash, false_or] at listed
    rcases listed with rfl | rfl | rfl | rfl | rfl | rfl | rfl | rfl | rfl | rfl | rfl | rfl |
      rfl <;>
      refine ⟨_, _, rfl, beginsNoGap_of_ne rfl (by decide) _, ?_⟩
    -- What is cut off where one of these begins hangs on the character behind it.
    case inr.inr.inl | inr.inr.inr.inl | inr.inr.inr.inr.inr.inl | inr.inr.inr.inr.inr.inr.inl =>
      exact if_neg (unfused (by decide))
    all_goals rfl

theorem cutOff_word {first : Char} {others : List Char}
    (starts : first.isAlpha = true ∨ first = '_')
    (continues : ∀ other ∈ others, other.isAlphanum = true ∨ other = '_')
    (ends : ∀ next ∈ behind.head?, next.isAlphanum = false ∧ next ≠ '_') :
    CutOff ⟨classOfWord (String.ofList (first :: others)), String.ofList (first :: others)⟩
      behind := by
  have begins : BeginsNoGap first (others ++ behind) := by
    rcases starts with alpha | rfl
    · exact beginsNoGap_of_isAlphanum (by simp [Char.isAlphanum, alpha]) _
    · exact beginsNoGap_of_ne rfl (by decide) _
  have unquoted : first ≠ '"' := by
    rintro rfl
    exact absurd starts (by decide)
  have undigited : first.isDigit = false := by
    rcases starts with alpha | rfl
    · exact isDigit_eq_false_of_isAlpha alpha
    · rfl
  have word : startsWord first = true := by simpa [startsWord] using starts
  refine ⟨first, others ++ behind, ?_, begins, ?_⟩
  · rw [spelling_of_ne (classOfWord_ne_string _), String.toList_ofList]
    rfl
  · rw [split, if_neg unquoted, undigited, if_neg Bool.false_ne_true, if_pos word]
    exact splitWord_of_ends starts continues ends

theorem cutOff_number {digits text : List Char} (areDigits : AreDigits digits)
    (begins : digits <+: text)
    (cut : splitNumber (text ++ behind) = (⟨.number, String.ofList text⟩, behind)) :
    CutOff ⟨.number, String.ofList text⟩ behind := by
  obtain ⟨nonempty, inside⟩ := areDigits
  obtain ⟨further, rfl⟩ := begins
  cases digits with
  | nil => exact absurd rfl nonempty
  | cons first digits =>
      have digit := inside first (List.mem_cons_self ..)
      have unquoted : first ≠ '"' := by
        rintro rfl
        exact absurd digit (by decide)
      refine ⟨first, digits ++ further ++ behind, ?_,
        beginsNoGap_of_isAlphanum (by simp [Char.isAlphanum, digit]) _, ?_⟩
      · rw [spelling_of_ne Kind.noConfusion, String.toList_ofList]
        rfl
      · rw [split, if_neg unquoted, if_pos digit]
        exact cut

theorem cutOff_unknown {character : Char} (unmarked : character ∉ marks)
    (nonalphanumeric : character.isAlphanum = false)
    (visible : Text.isBlank character = false) :
    CutOff ⟨.unknown, String.singleton character⟩ behind := by
  simp only [marks, List.mem_cons, List.not_mem_nil, or_false, not_or] at unmarked
  simp only [Char.isAlphanum, Bool.or_eq_false_iff] at nonalphanumeric
  refine ⟨character, behind, ?_, beginsNoGap_of_ne visible (by tauto) _, ?_⟩
  · rw [spelling_of_ne Kind.noConfusion]
    simp
  · simp [split, startsWord, splitSymbol, soloOperators, unmarked, nonalphanumeric]

/-- A valid lexeme is cut off where it ends. -/
theorem cutOff_of_valid {lexeme : Lexeme} (valid : lexeme.Valid) (ends : lexeme.Ends behind) :
    CutOff lexeme behind := by
  cases valid with
  | whole areDigits =>
      exact cutOff_number areDigits (List.prefix_refl _) (splitNumber_of_whole areDigits ends)
  | @decimal whole fraction areDigits fractional =>
      refine cutOff_number areDigits (List.prefix_append _ _) ?_
      rw [List.append_assoc]
      exact splitNumber_of_decimal areDigits fractional ends.1
  | word starts continues => exact cutOff_word starts continues (ends_word_iff.mp ends)
  | string unquoted =>
      exact ⟨'"', _, by simp [spelling], beginsNoGap_of_ne rfl (by decide) _,
        splitString_of_unquoted unquoted behind⟩
  | comparison listed => exact cutOff_comparison listed ends
  | operator listed => exact cutOff_operator listed ends
  | semicolon => exact ⟨';', behind, rfl, beginsNoGap_of_ne rfl (by decide) _, rfl⟩
  | unknown unmarked nonalphanumeric visible =>
      exact cutOff_unknown unmarked nonalphanumeric visible

end Reading

end BraceLang.Lexeme
