import BraceLang.Proofs.Rendering.Shown
import BraceLang.Proofs.Token.Spacing

/-!
# The text of an expression spells what is shown of it

A text is written with few blanks, so each of its tokens has to end in front of the next one.
`Node.Apart` tells in front of what the last token of an expression ends, and `Node.TextBegins`
that the first one goes on no operator in front of it. Wherever a legible expression stands apart,
its text spells the tokens that are shown of it.
-/

namespace BraceLang

namespace Lexeme

theorem AreDigits.exists_first {digits : List Char} (areDigits : AreDigits digits) :
    ∃ first rest, digits = first :: rest ∧ first.isAlphanum = true := by
  obtain ⟨first, rest, rfl⟩ := List.exists_cons_of_ne_nil areDigits.1
  have isDigit := areDigits.2 first (List.mem_cons_self ..)
  exact ⟨first, rest, rfl, by rw [Char.isAlphanum, isDigit, Bool.or_true]⟩

/-- Names and numbers begin with a letter, a digit or an underscore. -/
theorem Valid.exists_first {lexeme : Lexeme} (valid : lexeme.Valid)
    (worded : lexeme.kind = .identifier ∨ lexeme.kind = .number) :
    ∃ first rest, lexeme.text.toList = first :: rest ∧
      (first.isAlphanum = true ∨ first = '_') := by
  cases valid with
  | whole areDigits =>
      obtain ⟨first, rest, rfl, alphanumeric⟩ := areDigits.exists_first
      exact ⟨first, rest, by simp, .inl alphanumeric⟩
  | @decimal whole fraction areDigits _ =>
      obtain ⟨first, rest, rfl, alphanumeric⟩ := areDigits.exists_first
      exact ⟨first, rest ++ '.' :: fraction, by simp, .inl alphanumeric⟩
  | @word first others starts _ =>
      exact ⟨first, others, by simp, starts.imp_left fun alpha => by simp [Char.isAlphanum, alpha]⟩
  | _ => rcases worded with kind | kind <;> cases kind

end Lexeme

namespace Spells

variable {behind : List Char} {lexemes : List Lexeme}

/-- A blank in front of a text spells nothing. -/
theorem blank (spells : Spells behind lexemes) : Spells (' ' :: behind) lexemes :=
  spells.behind_gap (.blank rfl .nil : Gap false [' '])

/-- Brackets, commas, points and steps end in front of everything. -/
theorem op (text : String) (closed : text ∈ ["(", ")", ".", ",", "++", "--"])
    (spells : Spells behind lexemes) :
    Spells (text.toList ++ behind) (Lexeme.op text :: lexemes) := by
  have listed : text ∈ ["++", "--", "+", "-", "*", "/", "=", "!", "\x7b", "\x7d", "(", ")", ".",
      ","] := by
    simp only [List.mem_cons, List.not_mem_nil, or_false] at closed ⊢
    tauto
  have unfused : ∀ text ∈ ["(", ")", ".", ",", "++", "--"], ∀ fusion ∈ Lexeme.fusions,
      fusion.1 ≠ text := by decide
  exact .next (.operator listed) (fun next _ fuses => unfused text closed _ fuses rfl) spells

/-- A lexeme with a space in front of it and one behind it. -/
theorem spaced {lexeme : Lexeme} (valid : lexeme.Valid) (spells : Spells behind lexemes) :
    Spells (' ' :: (lexeme.spelling ++ ' ' :: behind)) (lexeme :: lexemes) := by
  have ends : lexeme.Ends (' ' :: behind) := lexeme.ends_of_blank (by rintro _ ⟨⟩; rfl)
  exact (Spells.next valid ends spells.blank).blank

end Spells

theorem BinaryOp.valid_lexeme (op : BinaryOp) : op.lexeme.Valid := by
  cases op with
  | eq | ne | lt | le | gt | ge => exact .comparison (by decide)
  | add | sub | mul | div => exact .operator (by decide)

theorem BinaryOp.spelling_lexeme (op : BinaryOp) : op.lexeme.spelling = op.symbol.toList := by
  cases op <;> rfl

/-- An operator in front ends where no equals sign and, if it is a minus sign, no other one
follows. -/
theorem UnaryOp.ends_symbol (op : UnaryOp) {first : Char} {rest : List Char}
    (noEquals : first ≠ '=') (single : op = .negate → first ≠ '-') :
    (Lexeme.op op.symbol).Ends (first :: rest) := by
  rintro _ ⟨⟩ fuses
  cases op <;> simp_all [symbol, Lexeme.op, Lexeme.fusions]

theorem UnaryOp.valid_symbol (op : UnaryOp) : (Lexeme.op op.symbol).Valid := by
  cases op <;> exact .operator (by decide)

namespace Node

/-- Whether an expression may stand in front of the characters `behind`: they do not go on its
last name or number. A point may only stand behind what has fields. -/
def Apart (node : Node) (behind : List Char) : Prop :=
  ∀ next ∈ behind.head?, next.isAlphanum = false ∧ next ≠ '_' ∧ (next = '.' → node.isChain = true)

namespace Apart

variable {node : Node} {behind : List Char}

/-- An expression may stand in front of a character that goes on neither names nor numbers. -/
theorem of_next {next : Char} (marked : next.isAlphanum = false ∧ next ≠ '_' ∧ next ≠ '.') :
    node.Apart (next :: behind) := by
  rintro _ ⟨⟩
  exact ⟨marked.1, marked.2.1, fun point => absurd point marked.2.2⟩

/-- A point may stand behind a name with what is attached to it. -/
theorem of_point (chain : node.isChain = true) : node.Apart ('.' :: behind) := by
  rintro _ ⟨⟩
  exact ⟨by decide, by decide, fun _ => chain⟩

/-- Where something without fields stands apart, everything else does. -/
theorem of_unchained (apart : node.Apart behind) (unchained : node.isChain = false)
    (other : Node) : other.Apart behind := fun next found =>
  ⟨(apart next found).1, (apart next found).2.1, fun point =>
    absurd (unchained.symm.trans ((apart next found).2.2 point)) Bool.noConfusion⟩

theorem ends_name (apart : node.Apart behind) (name : String) : (Lexeme.name name).Ends behind :=
  fun next found => ⟨(apart next found).1, (apart next found).2.1⟩

end Apart

theorem isNegation_of_isChain {node : Node} (chain : node.isChain = true) :
    node.isNegation = false := by
  cases node <;> simp_all [isChain, isNegation]

theorem isNegation_of_not_isUnary {node : Node} (unsigned : node.isUnary = false) :
    node.isNegation = false := by
  cases node <;> simp_all [isUnary, isNegation]

/-- Whether the text of an expression does not begin with an equals sign, and begins with a minus
sign only where the expression does. -/
def TextBegins (node : Node) : Prop :=
  ∃ first rest, node.text.toList = first :: rest ∧ first ≠ '=' ∧
    (first = '-' → node.isNegation = true)

namespace TextBegins

variable {node : Node}

/-- What begins with a name or a number begins with no sign. -/
theorem of_valid {lexeme : Lexeme} (valid : lexeme.Valid)
    (worded : lexeme.kind = .identifier ∨ lexeme.kind = .number)
    (text : node.text = lexeme.text) : TextBegins node := by
  obtain ⟨first, rest, equal, starts⟩ := valid.exists_first worded
  refine ⟨first, rest, text ▸ equal, ?_, ?_⟩ <;>
  · rintro rfl
    exact absurd starts (by decide)

/-- What begins with another expression without a sign begins like that. -/
theorem of_front {front : Node} (begins : TextBegins front) (positive : front.isNegation = false)
    (text : front.text.toList <+: node.text.toList) : TextBegins node := by
  obtain ⟨first, rest, equal, noEquals, minus⟩ := begins
  obtain ⟨more, whole⟩ := text
  refine ⟨first, rest ++ more, by rw [← whole, equal, List.cons_append], noEquals, fun sign => ?_⟩
  exact absurd ((minus sign).symm.trans positive) Bool.noConfusion

/-- What begins with a mark that is no sign. -/
theorem of_mark (mark : Char) (text : [mark] <+: node.text.toList) (noEquals : mark ≠ '=')
    (noMinus : mark ≠ '-') : TextBegins node := by
  obtain ⟨rest, whole⟩ := text
  exact ⟨mark, rest, whole.symm, noEquals, fun sign => absurd sign noMinus⟩

end TextBegins

theorem Legible.textBegins {node : Node} (legible : node.Legible) : TextBegins node := by
  induction legible with
  | reference _ valid => exact .of_valid valid (.inl rfl) rfl
  | number _ valid => exact .of_valid valid (.inr rfl) rfl
  | string => exact .of_mark '"' (by simp [text]) (by decide) (by decide)
  | field _ chain _ _ inductionHypothesis =>
      exact .of_front inductionHypothesis (isNegation_of_isChain chain) (by simp [text])
  | call _ chain _ _ inductionHypothesis =>
      exact .of_front inductionHypothesis (isNegation_of_isChain chain) (by simp [text])
  | step _ _ _ unsigned _ inductionHypothesis =>
      exact .of_front inductionHypothesis (isNegation_of_not_isUnary unsigned) (by simp [text])
  | @unary operand op =>
      cases op with
      | negate =>
          exact ⟨'-', operand.text.toList, by simp [text, UnaryOp.symbol], by decide, fun _ => rfl⟩
      | invert => exact .of_mark '!' (by simp [text, UnaryOp.symbol]) (by decide) (by decide)
  | binary => exact .of_mark '(' (by simp [text]) (by decide) (by decide)
  | assignment _ assignable _ _ inductionHypothesis =>
      have chain := isChain_of_isTarget assignable
      exact .of_front inductionHypothesis (isNegation_of_isChain chain) (by simp [text])

/-- Wherever an expression stands apart, its text spells the tokens that are shown of it. -/
def SpelledAsShown (node : Node) : Prop :=
  ∀ ⦃behind : List Char⦄ ⦃lexemes : List Lexeme⦄, node.Apart behind → Spells behind lexemes →
    Spells (node.text.toList ++ behind) (node.shown.map Token.toLexeme ++ lexemes)

namespace SpelledAsShown

theorem reference {name : String} (place : Location) (valid : (Lexeme.name name).Valid) :
    SpelledAsShown (.reference name place) :=
  fun _ _ apart spells => .next valid (apart.ends_name name) spells

theorem number {digits : String} (place : Location) (valid : (Lexeme.mk .number digits).Valid) :
    SpelledAsShown (.number digits place) := by
  intro behind lexemes apart spells
  have ends : (Lexeme.mk .number digits).Ends behind := by
    refine ⟨fun next found => (Bool.or_eq_false_iff.mp (apart next found).1).2, ?_⟩
    rintro - next rest rfl
    exact absurd ((apart '.' rfl).2.2 rfl) Bool.noConfusion
  exact .next valid ends spells

theorem string {body : String} (place : Location) (unquoted : '"' ∉ body.toList) :
    SpelledAsShown (.string body place) := by
  intro behind lexemes apart spells
  have valid := Lexeme.Valid.string unquoted
  rw [String.ofList_toList] at valid
  simpa [text, shown, Lexeme.spelling, Lexeme.token] using Spells.next valid trivial spells

theorem field {object : Node} {name : String} (place : Location) (spelled : SpelledAsShown object)
    (chain : object.isChain = true) (valid : (Lexeme.name name).Valid) :
    SpelledAsShown (.field object name place) := by
  intro behind lexemes apart spells
  have named : Spells (name.toList ++ behind) (Lexeme.name name :: lexemes) :=
    .next valid (apart.ends_name name) spells
  have whole := spelled (.of_point chain) (named.op "." (by decide))
  simpa [text, shown, Lexeme.token] using whole

/-- Arguments are spelled in front of the parenthesis that closes them. -/
theorem args {args : List Node} {behind : List Char} {lexemes : List Lexeme} (place : Location)
    (spelled : ∀ arg ∈ args, SpelledAsShown arg) (closing : Spells (')' :: behind) lexemes) :
    Spells ((textOfArgs args).toList ++ ')' :: behind)
      ((shownArgs place args).map Token.toLexeme ++ lexemes) := by
  induction args with
  | nil => exact closing
  | cons arg args inductionHypothesis =>
      obtain ⟨first, others⟩ := List.forall_mem_cons.mp spelled
      cases args with
      | nil => exact first (.of_next (by decide)) closing
      | cons next args =>
          have spaced := (inductionHypothesis others).blank
          have further : Spells (',' :: ' ' :: (_ ++ ')' :: behind)) (.op "," :: (_ ++ lexemes)) :=
            spaced.op "," (by decide)
          have whole := first (.of_next (by decide)) further
          simpa [textOfArgs, shownArgs, Lexeme.token] using whole

theorem call {callee : Node} {args : List Node} (place : Location) (spelled : SpelledAsShown callee)
    (argsSpelled : ∀ arg ∈ args, SpelledAsShown arg) :
    SpelledAsShown (.call callee args place) := by
  intro behind lexemes apart spells
  have closing : Spells (')' :: behind) (.op ")" :: lexemes) := spells.op ")" (by decide)
  have opened : Spells ('(' :: ((textOfArgs args).toList ++ ')' :: behind))
      (.op "(" :: (_ ++ .op ")" :: lexemes)) :=
    (SpelledAsShown.args place argsSpelled closing).op "(" (by decide)
  have whole := spelled (.of_next (by decide)) opened
  simpa [text, shown, Lexeme.token] using whole

theorem step {operand : Node} (op : StepOp) (place : Location)
    (spelled : SpelledAsShown operand) : SpelledAsShown (.step op operand place) := by
  intro behind lexemes apart spells
  have stepped : operand.Apart (op.symbol.toList ++ behind) := by
    cases op <;> exact .of_next (by decide)
  have whole := spelled stepped (spells.op op.symbol (by cases op <;> decide))
  simpa [text, shown, Lexeme.token] using whole

theorem unary {operand : Node} (op : UnaryOp) (place : Location)
    (spelled : SpelledAsShown operand) (begins : TextBegins operand)
    (positive : op = .negate → operand.isNegation = false) :
    SpelledAsShown (.unary op operand place) := by
  intro behind lexemes apart spells
  have inside := spelled (apart.of_unchained rfl operand) spells
  obtain ⟨first, rest, front, noEquals, minus⟩ := begins
  have single : op = .negate → first ≠ '-' := fun negate sign =>
    absurd ((minus sign).symm.trans (positive negate)) Bool.noConfusion
  have ends : (Lexeme.op op.symbol).Ends (operand.text.toList ++ behind) := by
    rw [front]
    exact op.ends_symbol noEquals single
  have whole := inside.next op.valid_symbol ends
  simpa [text, shown, Lexeme.token, Lexeme.spelling, Lexeme.op] using whole

theorem binary {left right : Node} (op : BinaryOp) (place : Location)
    (leftSpelled : SpelledAsShown left) (rightSpelled : SpelledAsShown right) :
    SpelledAsShown (.binary op left right place) := by
  intro behind lexemes apart spells
  have closing : Spells (')' :: behind) (.op ")" :: lexemes) := spells.op ")" (by decide)
  have last := rightSpelled (.of_next (by decide)) closing
  have inside := leftSpelled (.of_next (by decide)) (last.spaced op.valid_lexeme)
  have whole := inside.op "(" (by decide)
  simpa [text, shown, enclose, Lexeme.token, op.spelling_lexeme] using whole

theorem assignment {target value : Node} (place : Location)
    (targetSpelled : SpelledAsShown target) (valueSpelled : SpelledAsShown value) :
    SpelledAsShown (.assignment target value place) := by
  intro behind lexemes apart spells
  have given := valueSpelled (apart.of_unchained rfl value) spells
  have assigned := given.spaced (.operator (by decide) : (Lexeme.op "=").Valid)
  have whole := targetSpelled (.of_next (by decide)) assigned
  simpa [text, shown, Lexeme.token, Lexeme.spelling, Lexeme.op] using whole

end SpelledAsShown

/-- The text of a legible expression spells the tokens that are shown of it. -/
theorem Legible.spelled {node : Node} (legible : node.Legible) : SpelledAsShown node := by
  induction legible with
  | reference place valid => exact .reference place valid
  | number place valid => exact .number place valid
  | string place unquoted => exact .string place unquoted
  | field place chain _ valid inductionHypothesis =>
      exact inductionHypothesis.field place chain valid
  | call place _ _ _ calleeHypothesis argsHypothesis =>
      exact calleeHypothesis.call place argsHypothesis
  | step op place _ _ _ inductionHypothesis => exact inductionHypothesis.step op place
  | unary op place _ single inside inductionHypothesis =>
      exact inductionHypothesis.unary op place inside.textBegins single
  | binary op place _ _ _ _ leftHypothesis rightHypothesis =>
      exact leftHypothesis.binary op place rightHypothesis
  | assignment place _ _ _ targetHypothesis valueHypothesis =>
      exact targetHypothesis.assignment place valueHypothesis

end Node

end BraceLang
