import BraceLang.Proofs.Failure
import BraceLang.Proofs.Statement.Pointing
import BraceLang.Proofs.Token.Order

/-!
# An analysis points at the text it speaks about

Whatever is left of a text points into its tokens: the nodes of its tree, what is found wrong
with their meaning, and the place of a failure. The tokens of a text stand at different places,
so the token at such a place is the very one that is spoken of.
-/

namespace BraceLang

section Pointing

variable {tokens : List Token}

/-- What is found wrong at a step that points into tokens points into them. -/
theorem Session.diagnose_points (session : Session) {step : Step}
    (points : step.PointsInto tokens) :
    ∀ found ∈ session.diagnose step, found.PointsInto tokens := by
  cases step with
  | declare symbol location =>
      rw [diagnose]
      split
      · exact List.forall_mem_singleton.mpr points
      · exact List.forall_mem_nil _
  | check expression =>
      rw [diagnose, Node.typing_eq_typed]
      exact points.typed
  | initial name type value =>
      rw [diagnose, Node.typing_eq_typed]
      refine List.forall_mem_append.mpr ⟨points.typed, ?_⟩
      rw [clash]
      split
      · exact List.forall_mem_nil _
      · exact List.forall_mem_singleton.mpr trivial
  | _ => exact List.forall_mem_nil _

/-- What is found wrong in the course of a script that points into tokens points into them. -/
theorem Session.diagnostics_point (session : Session) {script : List Step}
    (points : ∀ step ∈ script, step.PointsInto tokens) :
    ∀ found ∈ session.diagnostics script, found.PointsInto tokens := by
  induction script generalizing session with
  | nil => exact List.forall_mem_nil _
  | cons step script inductionHypothesis =>
      obtain ⟨first, others⟩ := List.forall_mem_cons.mp points
      exact List.forall_mem_append.mpr
        ⟨session.diagnose_points first, inductionHypothesis _ others⟩

/-- All that is found wrong in a text, and all nodes below its root, point into its tokens. -/
theorem analysis_points {builtins : List Symbol} {analysis : Analysis}
    (analyzed : analyzeTokens builtins tokens = .ok analysis) :
    (∀ found ∈ analysis.diagnostics, found.PointsInto tokens) ∧
      ∀ node ∈ analysis.program.descendants, node.PointsInto tokens := by
  obtain ⟨script, items, taken, rfl⟩ := analyzeTokens_eq_ok_iff.mp analyzed
  have inside : (Input.ofTokens tokens).ahead ⊆ tokens := by
    rw [Input.ofTokens_ahead]
    exact (List.takeWhile_sublist _).subset
  have points := taken.points inside
  refine ⟨Session.diagnostics_point _ points.steps, fun node below => ?_⟩
  have among : node ∈ Node.preorderAll (items.flatMap Grammar.Item.nodes) := below
  rw [Node.preorderAll_eq_flatMap] at among
  obtain ⟨tree, yielded, part⟩ := List.mem_flatMap.mp among
  exact points.trees tree yielded node part

/-- A failure is placed at one of the tokens. -/
theorem exists_token_of_error {builtins : List Symbol} {error : SyntaxError}
    (closed : Closed tokens) (failed : analyzeTokens builtins tokens = .error error) :
    ∃ token ∈ tokens, token.location = error.location := by
  obtain ⟨front, stop, beyond, parts⟩ := closed.exists_parts
  obtain ⟨taken, settled⟩ := exists_analysisSettled builtins id tokens
  obtain ⟨token, found, located⟩ := settled.exists_token parts
  exact ⟨token, List.mem_of_getElem? found, (located error failed).symm⟩

end Pointing

theorem closed_tokenize (source : String) : Closed (tokenize source) := by
  obtain ⟨pieces, _, -, closed, -⟩ :=
    Scanner.accounts_scan .start (Nat.le_refl source.toList.length)
  exact ⟨⟨.endOfInput, _⟩, (congrArg List.getLast? closed).trans List.getLast?_concat, rfl⟩

/-- The tokens of a text stand at different places, one behind the other. A failure is placed at
one of them. In an analysis, a name that is not declared or declared twice, an operator between
operands of different types and each node below the root stand at the token that writes them. -/
theorem analysis_points_at_text (builtins : List Symbol) (source : String) :
    let tokens := tokenize source
    (tokens.map Token.location).Nodup ∧
      (tokens.map Token.location).Pairwise Location.Before ∧
      (∀ error, analyze builtins source = .error error →
        ∃ token ∈ tokens, token.location = error.location) ∧
      ∀ analysis, analyze builtins source = .ok analysis →
        (∀ name location, .undeclared name location ∈ analysis.diagnostics →
          tokenPlacedAt tokens location = some ((Lexeme.name name).token location)) ∧
        (∀ name location, .redeclared name location ∈ analysis.diagnostics →
          tokenPlacedAt tokens location = some ((Lexeme.name name).token location)) ∧
        (∀ op left right location, .incompatible op left right location ∈ analysis.diagnostics →
          ∃ kind, (kind = .operator ∨ kind = .comparison) ∧
            tokenPlacedAt tokens location = some ((Lexeme.mk kind op).token location)) ∧
        ∀ node ∈ analysis.program.descendants, ∃ lexeme, node.lead? = some lexeme ∧
          tokenPlacedAt tokens node.location = some (lexeme.token node.location) := by
  intro tokens
  have ordered := pairwise_tokenize source
  have placed {lexeme : Lexeme} {location : Location} (member : lexeme.token location ∈ tokens) :
      tokenPlacedAt tokens location = some (lexeme.token location) :=
    tokenPlacedAt_location ordered member
  have increasing : (tokens.map Token.location).Pairwise Location.Before :=
    List.pairwise_map.mpr ordered
  refine ⟨increasing.imp Location.Before.ne, increasing,
    fun error failed => exists_token_of_error (closed_tokenize source) failed,
    fun analysis analyzed => ?_⟩
  obtain ⟨spoken, nodes⟩ := analysis_points analyzed
  refine ⟨fun name location found => placed (spoken _ found),
    fun name location found => placed (spoken _ found),
    fun op left right location found => ?_, fun node below => ?_⟩
  · obtain ⟨kind, kinds, member⟩ := spoken _ found
    exact ⟨kind, kinds, placed member⟩
  · obtain ⟨lexeme, leads, member⟩ := nodes node below
    exact ⟨lexeme, leads, placed member⟩

/-- A comparison of a number behind a comment with a string, and a name bound twice, the second
time to a name that is not declared: what is wrong stands at the comparison and at the names. -/
theorem analysis_points_at_text_commented :
    let source := "int x = 1\n/*\n*/ == \"a\nb\"; int x = y;"
    ∃ analysis, analyze [] source = .ok analysis ∧
      analysis.diagnostics =
        [.incompatible "==" "int" "String" ⟨3, 4⟩, .redeclared "x" ⟨4, 9⟩,
          .undeclared "y" ⟨4, 13⟩] ∧
      (∃ kind, (kind = .operator ∨ kind = .comparison) ∧
        tokenPlacedAt (tokenize source) ⟨3, 4⟩ = some ⟨⟨kind, "=="⟩, ⟨3, 4⟩⟩) ∧
      tokenPlacedAt (tokenize source) ⟨4, 9⟩ = some ⟨⟨.identifier, "x"⟩, ⟨4, 9⟩⟩ ∧
      tokenPlacedAt (tokenize source) ⟨4, 13⟩ = some ⟨⟨.identifier, "y"⟩, ⟨4, 13⟩⟩ := by
  intro source
  have scanned : tokenize source =
      [(Lexeme.type "int").token ⟨1, 1⟩, (Lexeme.name "x").token ⟨1, 5⟩,
        (Lexeme.op "=").token ⟨1, 7⟩, ⟨⟨.number, "1"⟩, ⟨1, 9⟩⟩, ⟨⟨.comparison, "=="⟩, ⟨3, 4⟩⟩,
        ⟨⟨.string, "a\nb"⟩, ⟨3, 7⟩⟩, Lexeme.semicolon.token ⟨4, 3⟩,
        (Lexeme.type "int").token ⟨4, 5⟩, (Lexeme.name "x").token ⟨4, 9⟩,
        (Lexeme.op "=").token ⟨4, 11⟩, (Lexeme.name "y").token ⟨4, 13⟩,
        Lexeme.semicolon.token ⟨4, 14⟩, ⟨.endOfInput, ⟨4, 15⟩⟩] := by decide
  obtain ⟨analysis, analyzed, found⟩ : ∃ analysis, analyze [] source = .ok analysis ∧
      analysis.diagnostics = [.incompatible "==" "int" "String" ⟨3, 4⟩, .redeclared "x" ⟨4, 9⟩,
        .undeclared "y" ⟨4, 13⟩] := by
    rw [analyze, scanned]
    exact ⟨_, rfl, by decide⟩
  obtain ⟨-, -, -, spoken⟩ := analysis_points_at_text [] source
  obtain ⟨undeclared, redeclared, incompatible, -⟩ := spoken analysis analyzed
  rw [found] at undeclared redeclared incompatible
  exact ⟨analysis, analyzed, found, incompatible _ _ _ _ (.head _),
    redeclared _ _ (.tail _ (.head _)), undeclared _ _ (.tail _ (.tail _ (.head _)))⟩

end BraceLang
