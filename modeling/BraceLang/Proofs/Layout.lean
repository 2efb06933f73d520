import BraceLang.Proofs.Horizon.Analysis

/-!
# Layout never matters

How a program is laid out shows in the places of its tokens and nowhere else. Two token
sequences that differ only in places are both the same sequence with its places erased, and an
analysis moves along with its tokens: its results for one sequence and for the other come to
the same once their places are erased.
-/

namespace BraceLang

section Moving

variable {change : Relabelling} {place : Location → Location} {tokens : List Token}

theorem Terminator.opens_relabel (stop : Terminator) (location : Location) :
    (Terminator.mk location (stop.beyond.map (Token.relabel change))).opens = stop.opens := by
  cases stop with
  | mk _ beyond =>
      cases beyond with
      | nil => rfl
      | cons first _ => exact Token.relabel_is first (by decide)

/-- Relabelled tokens are parted where the tokens are. -/
theorem Input.ofTokens_map (change : Relabelling) (nonempty : tokens ≠ []) :
    ofTokens (tokens.map (Token.relabel change)) =
      ⟨(ofTokens tokens).ahead.map (Token.relabel change),
        ⟨change.place (ofTokens tokens).stop.location,
          (ofTokens tokens).stop.beyond.map (Token.relabel change)⟩⟩ := by
  by_cases ended : ∃ token ∈ tokens, token.kind = .endOfInput
  · obtain ⟨front, stop, beyond, rfl, endless, ends⟩ := exists_first_stop ended
    rw [List.map_append, List.map_cons, ofTokens_stop endless ends, ofTokens_stop ?_
      ((Token.relabel_kind stop).trans ends)]
    · rfl
    · exact List.forall_mem_map.mpr fun token member =>
        (Token.relabel_kind token).trans_ne (endless token member)
  · have endless (token : Token) (member : token ∈ tokens) : token.kind ≠ .endOfInput :=
      fun kind => ended ⟨token, member, kind⟩
    rw [ofTokens_endless endless, ofTokens_endless (List.forall_mem_map.mpr fun token member =>
      (Token.relabel_kind token).trans_ne (endless token member)), List.getLast?_map,
      List.getLast?_eq_some_getLast nonempty]
    rfl

/-- The result of an analysis with everything in it at other places. -/
def movedResult (place : Location → Location) :
    Except SyntaxError Analysis → Except SyntaxError Analysis
  | .ok analysis => .ok (analysis.moved place)
  | .error error => .error (error.moved place)

/-- An analysis moves along with its tokens. -/
theorem analyzeTokens_moved (builtins : List Symbol) (place : Location → Location)
    (nonempty : tokens ≠ []) :
    analyzeTokens builtins (tokens.map (Token.relabel (.moved place))) =
      movedResult place (analyzeTokens builtins tokens) := by
  obtain ⟨taken, settled⟩ := exists_analysisSettled builtins place tokens
  have mapped := Input.ofTokens_map (.moved place) nonempty
  have moves := settled.moves (tokens.map (Token.relabel (.moved place)))
    (mapped ▸ Mirrors.of_map rfl (taken + 2) _)
  have same : (Input.ofTokens tokens).stop.opens =
      (Input.ofTokens (tokens.map (Token.relabel (.moved place)))).stop.opens := by
    rw [mapped, Terminator.opens_relabel]
  have alike : Alike (.moved place) (Input.ofTokens tokens).stop
      (Input.ofTokens (tokens.map (Token.relabel (.moved place)))).stop
      (Input.ofTokens tokens).ahead taken :=
    ⟨Relabelling.keepsWords_moved place, .inr (.inl same)⟩
  generalize analyzeTokens builtins (tokens.map (Token.relabel (.moved place))) = moved at moves
  generalize analyzeTokens builtins tokens = result at moves
  cases moves with
  | ok analysis => rfl
  | error location keeps => rw [keeps alike]; rfl

end Moving

/-- A tree with its places erased. -/
def Node.erased (node : Node) : Node := node.moved fun _ => .start

/-- A diagnostic with its place erased. -/
def Diagnostic.erased (diagnostic : Diagnostic) : Diagnostic := diagnostic.moved fun _ => .start

/-- Two results of analyses that differ in nothing but places. Failures with one cause say the
same. -/
inductive SameButPlaces : Except SyntaxError Analysis → Except SyntaxError Analysis → Prop where
  | ok {analysis other : Analysis} (program : other.program.erased = analysis.program.erased)
      (scopes : other.scopes = analysis.scopes) (current : other.current = analysis.current)
      (diagnostics : other.diagnostics.map Diagnostic.erased =
        analysis.diagnostics.map Diagnostic.erased) :
      SameButPlaces (.ok analysis) (.ok other)
  | error {error other : SyntaxError} (cause : other.cause = error.cause)
      (detail : other.detail = error.detail) : SameButPlaces (.error error) (.error other)

/-- Results that come to the same with all places erased differ in nothing but places. -/
theorem SameButPlaces.of_moved {result other : Except SyntaxError Analysis}
    (same : movedResult (fun _ => .start) other = movedResult (fun _ => .start) result) :
    SameButPlaces result other := by
  rcases result with error | analysis <;> rcases other with otherError | otherAnalysis
  · injection same with errors
    injection errors with causes
    exact .error causes (congrArg Cause.text causes)
  · cases same
  · cases same
  · injection same with analyses
    injection analyses with program scopes current diagnostics
    exact .ok program scopes current diagnostics

/-- Tokens of the same lexemes at the images of the places are the tokens moved. -/
theorem eq_map_moved {place : Location → Location} {tokens others : List Token}
    (lexemes : others.map Token.toLexeme = tokens.map Token.toLexeme)
    (places : others.map Token.location = (tokens.map Token.location).map place) :
    others = tokens.map (Token.relabel (.moved place)) := by
  induction tokens generalizing others with
  | nil => exact List.map_eq_nil_iff.mp lexemes
  | cons token tokens inductionHypothesis =>
      cases others with
      | nil => cases lexemes
      | cons other others =>
          simp only [List.map_cons, List.cons.injEq] at lexemes places
          rw [List.map_cons, ← inductionHypothesis lexemes.2 places.2, Token.relabel_moved,
            ← lexemes.1, ← places.1]

/-- Tokens of the same lexemes have the same analysis but for places, and where the places of
the one are images of those of the other, so are all places in the analysis. -/
theorem layout_never_matters (builtins : List Symbol) {tokens others : List Token}
    (lexemes : others.map Token.toLexeme = tokens.map Token.toLexeme) :
    SameButPlaces (analyzeTokens builtins tokens) (analyzeTokens builtins others) ∧
      ∀ place : Location → Location, tokens ≠ [] →
        others.map Token.location = (tokens.map Token.location).map place →
        analyzeTokens builtins others = movedResult place (analyzeTokens builtins tokens) := by
  refine ⟨.of_moved ?_, fun place nonempty places => ?_⟩
  · by_cases empty : tokens = []
    · subst empty
      rw [List.map_eq_nil_iff.mp lexemes]
    · have nonempty : others ≠ [] := by
        rintro rfl
        exact empty (List.map_eq_nil_iff.mp lexemes.symm)
      have erased : others.map (Token.relabel (.moved fun _ => .start)) =
          tokens.map (Token.relabel (.moved fun _ => .start)) := by
        have relabelled : Token.relabel (.moved fun _ => .start) =
            (Lexeme.token · .start) ∘ Token.toLexeme :=
          funext fun token => Token.relabel_moved _ token
        rw [relabelled, ← List.map_map, lexemes, List.map_map]
      rw [← analyzeTokens_moved builtins _ nonempty, erased, analyzeTokens_moved builtins _ empty]
  · rw [eq_map_moved lexemes places, analyzeTokens_moved builtins place nonempty]

/-- A name bound twice, all on one line and one token on a line. -/
theorem layout_never_matters_redeclared :
    let lexemes := [Lexeme.type "int", .name "x", .semicolon, .type "int", .name "x", .semicolon]
    let tokens := lexemes.zipIdx.map fun (lexeme, index) => lexeme.token ⟨1, index + 1⟩
    let others := lexemes.zipIdx.map fun (lexeme, index) => lexeme.token ⟨index + 1, 1⟩
    others.map Token.toLexeme = tokens.map Token.toLexeme ∧ tokens ≠ [] ∧
      others.map Token.location =
        (tokens.map Token.location).map (fun location => ⟨location.column, location.line⟩) ∧
      SameButPlaces (analyzeTokens [] tokens) (analyzeTokens [] others) ∧
      (analyzeTokens [] tokens).map (·.diagnostics) = .ok [.redeclared "x" ⟨1, 5⟩] ∧
      (analyzeTokens [] others).map (·.diagnostics) = .ok [.redeclared "x" ⟨5, 1⟩] := by
  intro lexemes tokens others
  have same : others.map Token.toLexeme = tokens.map Token.toLexeme := by decide
  have places : others.map Token.location =
      (tokens.map Token.location).map (fun location => ⟨location.column, location.line⟩) := by
    decide
  obtain ⟨unmoved, moves⟩ := layout_never_matters [] same
  refine ⟨same, nofun, places, unmoved, by decide, ?_⟩
  rw [moves _ nofun places]
  decide

end BraceLang
