import BraceLang.Proofs.Horizon.Analysis

/-!
# Behind the end of input

The first end of input ends a program. What stands behind it can be seen by looking ahead, but
not so that it mattered: in front of the end a reading would have to take more tokens than there
are. One message tells what was seen. A type in front of the end lacks the name of a method if
an opening parenthesis stands behind the end, and the name of a variable otherwise.
-/

namespace BraceLang

/-- Two results of analyses at one place: the same analysis, or failures there, which say the
same if `alike`. -/
inductive SameOutcome (alike : Prop) :
    Except SyntaxError Analysis → Except SyntaxError Analysis → Prop where
  | ok (analysis : Analysis) : SameOutcome alike (.ok analysis) (.ok analysis)
  | error {error other : SyntaxError} (location : error.location = other.location)
      (keeps : alike → error = other) : SameOutcome alike (.error error) (.error other)

/-- Where nothing moves, an analysis stays as it is and a failure where it is. -/
theorem SameOutcome.of_moves {alike less : Prop} {result other : Except SyntaxError Analysis}
    (moves : Moves id alike result other) (implies : less → alike) :
    SameOutcome less result other := by
  cases moves with
  | ok analysis =>
      rw [Analysis.moved_id]
      exact .ok analysis
  | error location keeps =>
      refine .error rfl fun holds => ?_
      rw [keeps (implies holds)]
      rfl

/-- The same tokens in front of ends at one place mirror one another, whatever stands behind. -/
theorem Mirrors.of_same {stop other : Terminator} (placed : other.location = stop.location)
    (count : Nat) (ahead : List Token) : Mirrors .same stop other count ahead ahead := by
  have mirrors : Mirrors .same stop other count ahead (ahead.map (Token.relabel .same)) :=
    .of_map placed count ahead
  rwa [funext Token.relabel_same, List.map_id'] at mirrors

/-- Analysing all tokens and analysing them up to the first end of input comes to the same, or
fails at the same place. What is said there is the same, too, unless a type stands in front of
the end and an opening parenthesis behind it. -/
theorem nothing_behind_end_matters (builtins : List Symbol) {front beyond : List Token}
    {stop : Token} (endless : ∀ token ∈ front, token.kind ≠ .endOfInput)
    (ends : stop.kind = .endOfInput) :
    SameOutcome (¬ ((∃ last, front.getLast? = some last ∧ last.kind = .dataType) ∧
        ∃ next, beyond.head? = some next ∧ next.toLexeme = .op "("))
      (analyzeTokens builtins (front ++ stop :: beyond))
      (analyzeTokens builtins (front ++ [stop])) := by
  obtain ⟨taken, settled⟩ := exists_analysisSettled builtins id (front ++ stop :: beyond)
  have whole : Input.ofTokens (front ++ stop :: beyond) = ⟨front, ⟨stop.location, beyond⟩⟩ :=
    Input.ofTokens_stop endless ends
  have cut : Input.ofTokens (front ++ [stop]) = ⟨front, ⟨stop.location, []⟩⟩ :=
    Input.ofTokens_stop endless ends
  have moves := settled.moves (front ++ [stop])
  rw [whole, cut] at moves
  have mirrors : Mirrors .same ⟨stop.location, beyond⟩ ⟨stop.location, []⟩ (taken + 2) front
      front :=
    .of_same (by rfl) (taken + 2) front
  refine .of_moves (moves mirrors) fun unseen => ⟨rfl, ?_⟩
  cases beyond with
  | nil => exact .inr (.inl rfl)
  | cons next beyond =>
      by_cases opening : next.toLexeme = .op "("
      · exact .inr (.inr fun last found typed =>
          unseen ⟨⟨last, found, typed⟩, next, rfl, opening⟩)
      · exact .inr (.inl (decide_eq_false opening))

/-- A type in front of an end that an opening parenthesis stands behind lacks the name of a
method there, and alone the name of a variable. -/
theorem nothing_behind_end_matters_type :
    let front := [Lexeme.type "int"].map (·.token .start)
    let stop := Lexeme.endOfInput.token ⟨1, 5⟩
    let beyond := [Lexeme.op "(", .endOfInput].map (·.token ⟨1, 5⟩)
    (∀ token ∈ front, token.kind ≠ .endOfInput) ∧ stop.kind = .endOfInput ∧
      SameOutcome (¬ ((∃ last, front.getLast? = some last ∧ last.kind = .dataType) ∧
          ∃ next, beyond.head? = some next ∧ next.toLexeme = .op "("))
        (analyzeTokens [] (front ++ stop :: beyond)) (analyzeTokens [] (front ++ [stop])) ∧
      analyzeTokens [] (front ++ stop :: beyond) =
        .error ⟨.missing .identifier .methodName .endOfInput, ⟨1, 5⟩⟩ ∧
      analyzeTokens [] (front ++ [stop]) =
        .error ⟨.missing .identifier .afterType .endOfInput, ⟨1, 5⟩⟩ := by
  intro front stop beyond
  have endless : ∀ token ∈ front, token.kind ≠ .endOfInput := by decide
  exact ⟨endless, rfl, nothing_behind_end_matters [] endless rfl, rfl, rfl⟩

end BraceLang
