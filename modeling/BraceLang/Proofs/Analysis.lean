import Mathlib.Data.List.TakeDrop
import Mathlib.Data.List.TakeWhile
import BraceLang.Analysis
import BraceLang.Proofs.Statement.Completeness

/-!
# Which token sequences have an analysis

The statements of a program take the tokens in front of the first end of input and
nothing else; the analysis carries out the script they write. What later modules
show of an analysis they show of `TakesProgram`.
-/

namespace BraceLang

/-- The tokens ahead of a program are those in front of the first end of input. -/
theorem Input.ofTokens_ahead (tokens : List Token) :
    (Input.ofTokens tokens).ahead = tokens.takeWhile (·.kind ≠ .endOfInput) := by
  rw [Input.ofTokens, List.span_eq_takeWhile_dropWhile]
  cases tokens.dropWhile (·.kind ≠ .endOfInput) <;> rfl

section Parting

variable {front tokens beyond : List Token} {stop : Token}

/-- Tokens are parted at their first end of input. -/
theorem Input.ofTokens_stop (endless : ∀ token ∈ front, token.kind ≠ .endOfInput)
    (ends : stop.kind = .endOfInput) :
    ofTokens (front ++ stop :: beyond) = ⟨front, ⟨stop.location, beyond⟩⟩ := by
  have passes (token : Token) (member : token ∈ front) :
      decide (token.kind ≠ .endOfInput) = true := decide_eq_true (endless token member)
  have stops : decide (stop.kind ≠ .endOfInput) = false := decide_eq_false (not_not_intro ends)
  rw [ofTokens, List.span_eq_takeWhile_dropWhile, List.takeWhile_append_of_pos passes,
    List.dropWhile_append_of_pos passes, List.takeWhile_cons, List.dropWhile_cons, stops]
  simp

/-- Tokens without an end of input are closed at the place of the last. -/
theorem Input.ofTokens_endless (endless : ∀ token ∈ tokens, token.kind ≠ .endOfInput) :
    ofTokens tokens = ⟨tokens, ⟨(tokens.getLast?.map (·.location)).getD .start, []⟩⟩ := by
  have passes (token : Token) (member : token ∈ tokens) :
      decide (token.kind ≠ .endOfInput) = true := decide_eq_true (endless token member)
  have whole : tokens.takeWhile (·.kind ≠ .endOfInput) = tokens :=
    List.takeWhile_eq_self_iff.2 passes
  have nothing : tokens.dropWhile (·.kind ≠ .endOfInput) = [] :=
    List.dropWhile_eq_nil_iff.mpr passes
  rw [ofTokens, List.span_eq_takeWhile_dropWhile, whole, nothing]

/-- Where there is an end of input, there is a first one. -/
theorem exists_first_stop (ended : ∃ token ∈ tokens, token.kind = .endOfInput) :
    ∃ front stop beyond, tokens = front ++ stop :: beyond ∧
      (∀ token ∈ front, token.kind ≠ .endOfInput) ∧ stop.kind = .endOfInput := by
  obtain ⟨last, among, kind⟩ := ended
  obtain ⟨stop, found⟩ := Option.isSome_iff_exists.mp
    (List.find?_isSome (p := (·.kind = .endOfInput)).mpr ⟨last, among, decide_eq_true kind⟩)
  obtain ⟨ends, front, beyond, parted, endless⟩ := List.find?_eq_some_iff_append.mp found
  exact ⟨front, stop, beyond, parted, fun token member => by simpa using endless token member,
    of_decide_eq_true ends⟩

end Parting

/-- The analysis of a program that has written `script` and left `items`. -/
def Analysis.ofScript (builtins : List Symbol) (script : List Step) (program : Node) : Analysis :=
  let session := Session.start builtins
  ⟨program, (session.run script).scopes, (session.run script).current,
    session.diagnostics script⟩

/-- The program with the items that statements left, at the place of its first token. -/
def Input.program (input : Input) (items : List Grammar.Item) : Node :=
  .block (items.flatMap Grammar.Item.nodes) (input.ahead.headD input.stop.token).location

/-- What fails under a map failed before. -/
theorem eq_error_of_map_eq_error {ε α β : Type} {change : α → β} {result : Except ε α}
    {failure : ε} (changed : result.map change = .error failure) : result = .error failure := by
  cases result with
  | error => exact congrArg _ (Except.error.inj changed)
  | ok => cases changed

theorem analyzeTokens_eq_ok_iff_reads {builtins : List Symbol} {tokens : List Token}
    {analysis : Analysis} :
    analyzeTokens builtins tokens = .ok analysis ↔
      ∃ script node rest, Scripted.Reads Grammar.program (Input.ofTokens tokens).stop
          (Input.ofTokens tokens).ahead script node rest ∧
        analysis = .ofScript builtins script node := by
  simp only [analyzeTokens, Reading.analysis, Reading.ofTokens, Scripted.Reads, Analysis.ofScript]
  obtain ⟨script, failure | ⟨node, rest⟩⟩ :=
    Grammar.program (Input.ofTokens tokens).stop (Input.ofTokens tokens).ahead
  · simp [Except.map]
  · simp [Except.map, and_assoc, eq_comm]

/-- A token sequence has an analysis exactly when statements take all its tokens, and
the analysis carries out their script. -/
theorem analyzeTokens_eq_ok_iff {builtins : List Symbol} {tokens : List Token}
    {analysis : Analysis} :
    analyzeTokens builtins tokens = .ok analysis ↔
      ∃ script items, Grammar.TakesProgram (Input.ofTokens tokens).ahead script items ∧
        analysis = .ofScript builtins script ((Input.ofTokens tokens).program items) := by
  simp [analyzeTokens_eq_ok_iff_reads, Grammar.reads_program_iff, Input.program]

/-- The script of a reading is the one that its statements write. -/
theorem Reading.script_ofTokens {tokens : List Token} {script : List Step}
    {items : List Grammar.Item}
    (taken : Grammar.TakesProgram (Input.ofTokens tokens).ahead script items) :
    (Reading.ofTokens tokens).script = script := by
  have reads : Scripted.Reads Grammar.program (Input.ofTokens tokens).stop
      (Input.ofTokens tokens).ahead script ((Input.ofTokens tokens).program items) [] :=
    Grammar.reads_program_iff.mpr ⟨items, taken, rfl, rfl⟩
  rw [Reading.ofTokens, reads]

end BraceLang
