import BraceLang.Proofs.Layout
import BraceLang.Proofs.Rendering.Spelled

/-!
# The text of an expression is read back

The text of a legible expression spells tokens that derive it, and reading heeds no places. So
whatever places scanning the text gives to the tokens, the tree is read from them, up to places.
-/

namespace BraceLang

/-- The tokens ahead in a text are what the text spells. -/
theorem Input.ofTokens_ahead_of_spells {source : String} {lexemes : List Lexeme}
    (spells : Spells source.toList lexemes) :
    (ofTokens (tokenize source)).ahead.map Token.toLexeme = lexemes := by
  have inside : ∀ lexeme ∈ lexemes, decide (lexeme.kind ≠ .endOfInput) = true :=
    fun lexeme member => decide_eq_true (spells.kind_ne_endOfInput lexeme member)
  have mapped : ((tokenize source).map Token.toLexeme).takeWhile (·.kind ≠ .endOfInput) =
      ((tokenize source).takeWhile (·.kind ≠ .endOfInput)).map Token.toLexeme :=
    List.takeWhile_map
  rw [ofTokens_ahead, ← mapped, tokenize_of_spells spells, List.takeWhile_append_of_pos inside]
  exact List.append_nil lexemes

namespace Grammar

section Moving

variable {stop other : Terminator} {ahead others rest : List Token} {node : Node}

/-- What is read from tokens is read from them at other places, at other places. -/
theorem moved_expression (place : Location → Location)
    (reads : expression stop ahead = .ok (node, rest)) :
    expression ⟨place stop.location, []⟩ (ahead.map (Token.relabel (.moved place))) =
      .ok (node.moved place, rest.map (Token.relabel (.moved place))) := by
  obtain ⟨taken, settled⟩ := settles_expression (.moved place) _ stop ahead (Nat.le_refl _)
  rw [reads] at settled
  have left : rest = ahead.drop taken := settled.ends
  have mirrors : Mirrors (.moved place) stop ⟨place stop.location, []⟩ (taken + 2) ahead _ :=
    .of_map rfl _ ahead
  rw [left, List.map_drop]
  exact (settled.onward mirrors (Nat.le_refl 2)).1

/-- What is read from tokens at other places is read from them. -/
theorem expression_of_moved (place : Location → Location) {moved : Node}
    (reads : expression ⟨place stop.location, []⟩ (ahead.map (Token.relabel (.moved place))) =
      .ok (moved, [])) :
    ∃ node, expression stop ahead = .ok (node, []) ∧ node.moved place = moved := by
  rcases outcome : expression stop ahead with error | ⟨node, rest⟩
  · obtain ⟨taken, settled⟩ := settles_expression (.moved place) _ stop ahead (Nat.le_refl _)
    have mirrors : Mirrors (.moved place) stop ⟨place stop.location, []⟩ (taken + 2) ahead _ :=
      .of_map rfl _ ahead
    have follows := settled.follows _ _ mirrors
    rw [outcome, reads] at follows
    cases follows
  · have same := (moved_expression place outcome).symm.trans reads
    simp only [Except.ok.injEq, Prod.mk.injEq, List.map_eq_nil_iff] at same
    obtain ⟨rfl, rfl⟩ := same
    exact ⟨node, rfl, rfl⟩

/-- What is read from tokens up to their end is read from others of the same lexemes, up to
places. -/
theorem expression_heeds_no_places (lexemes : others.map Token.toLexeme = ahead.map Token.toLexeme)
    (reads : expression stop ahead = .ok (node, [])) :
    ∃ found, expression other others = .ok (found, []) ∧ found.erased = node.erased := by
  have erased : others.map (Token.relabel (.moved fun _ => .start)) =
      ahead.map (Token.relabel (.moved fun _ => .start)) := by
    have relabelled : Token.relabel (.moved fun _ => .start) =
        (Lexeme.token · .start) ∘ Token.toLexeme :=
      funext fun token => Token.relabel_moved _ token
    rw [relabelled, ← List.map_map, lexemes, List.map_map]
  have moved := moved_expression (fun _ => .start) reads
  rw [← erased] at moved
  exact expression_of_moved (fun _ => .start) moved

end Moving

/-- Read an expression at the front of a text. -/
def expressionOfText (source : String) : Except SyntaxError (Node × List Token) :=
  let input := Input.ofTokens (tokenize source)
  expression input.stop input.ahead

/-- What derives an expression with the lexemes that a text spells is read from the text, up to
places. -/
theorem expressionOfText_of_spells {source : String} {used : List Token} {node : Node}
    (spells : Spells source.toList (used.map Token.toLexeme))
    (derived : Derives .expression used node) :
    ∃ found, expressionOfText source = .ok (found, []) ∧ found.erased = node.erased := by
  have ends : Phrase.expression.Ends [] := expression_ends_iff.mpr (by simp)
  have reads : expression ⟨.start, []⟩ (used ++ []) = .ok (node, []) :=
    reads_expression derived ends
  rw [List.append_nil] at reads
  exact expression_heeds_no_places (Input.ofTokens_ahead_of_spells spells) reads

theorem expressionOfText_text {node : Node} (legible : node.Legible) :
    ∃ found, expressionOfText node.text = .ok (found, []) ∧ found.erased = node.erased := by
  have spells := legible.spelled (by rintro _ ⟨⟩) (.ended .nil)
  rw [List.append_nil, List.append_nil] at spells
  exact expressionOfText_of_spells spells (derives_shown legible)

end Grammar

/-- The text of a legible expression is read back: all of it is read, and what is read is the
expression, up to places. So legible expressions with the same text are the same, up to places. -/
theorem text_reads_back {node : Node} (legible : node.Legible) :
    (∃ found, Grammar.expressionOfText node.text = .ok (found, []) ∧
      found.erased = node.erased) ∧
    ∀ other : Node, other.Legible → other.text = node.text → other.erased = node.erased := by
  obtain ⟨found, reads, same⟩ := Grammar.expressionOfText_text legible
  refine ⟨⟨found, reads, same⟩, fun other otherLegible text => ?_⟩
  obtain ⟨otherFound, otherReads, otherSame⟩ := Grammar.expressionOfText_text otherLegible
  rw [text, reads] at otherReads
  cases otherReads
  exact otherSame.symm.trans same

/-- An assignment that is an argument, one that is assigned, comment marks in a string, a minus
sign behind another operator and one in front of parentheses, and steps of a number and a name. -/
theorem text_reads_back_mixed :
    let x : Node := .reference "x" .start
    let called : Node := .call (.reference "f" .start)
      [.assignment x (.unary .invert (.unary .negate x .start) .start) .start,
        .binary .ne (.string "//" .start) (.step .increment (.number "1.5" .start) .start) .start]
      .start
    let difference : Node := .binary .sub x
      (.unary .negate (.step .decrement x .start) .start) .start
    let node : Node := .assignment (.field called "x" .start)
      (.assignment x (.unary .negate difference .start) .start) .start
    node.text = "f(x = !-x, (\"//\" != 1.5++)).x = x = -(x - -x--)" ∧
      ∃ found, Grammar.expressionOfText node.text = .ok (found, []) ∧
        found.erased = node.erased := by
  intro x called difference node
  have letter (first : Char) (alpha : first.isAlpha = true)
      (plain : Lexeme.classOfWord (String.ofList [first]) = .identifier) :
      (Lexeme.name (String.ofList [first])).Valid := by
    have valid := Lexeme.Valid.word (.inl alpha) (List.forall_mem_nil _)
    rwa [plain] at valid
  have digit {character : Char} (isDigit : character.isDigit = true) :
      Lexeme.AreDigits [character] := ⟨List.cons_ne_nil _ _, List.forall_mem_singleton.mpr isDigit⟩
  have f : (Lexeme.name "f").Valid := letter 'f' rfl rfl
  have valid : (Lexeme.name "x").Valid := letter 'x' rfl rfl
  have decimal : Lexeme.Valid ⟨.number, "1.5"⟩ :=
    .decimal (digit (rfl : '1'.isDigit = true)) (digit (rfl : '5'.isDigit = true))
  have xLegible : x.Legible := .reference _ valid
  have first : Node.Legible (.assignment x (.unary .invert (.unary .negate x .start) .start)
      .start) :=
    .assignment _ rfl xLegible (.unary _ _ rfl nofun (.unary _ _ rfl (fun _ => rfl) xLegible))
  have second : Node.Legible (.binary .ne (.string "//" .start)
      (.step .increment (.number "1.5" .start) .start) .start) :=
    .binary _ _ rfl rfl (.string _ (by decide)) (.step _ _ rfl rfl (.number _ decimal))
  have calledLegible : called.Legible :=
    .call _ rfl (.reference _ f)
      (List.forall_mem_cons.mpr ⟨first, List.forall_mem_singleton.mpr second⟩)
  have differenceLegible : difference.Legible :=
    .binary _ _ rfl rfl xLegible (.unary _ _ rfl (fun _ => rfl) (.step _ _ rfl rfl xLegible))
  have legible : node.Legible :=
    .assignment _ rfl (.field _ rfl calledLegible valid)
      (.assignment _ rfl xLegible (.unary _ _ rfl (fun _ => rfl) differenceLegible))
  exact ⟨by decide, (text_reads_back legible).1⟩

end BraceLang
