import Mathlib.Data.List.TakeWhile
import BraceLang.Proofs.Analysis
import BraceLang.Proofs.Lockstep.Loops
import BraceLang.Proofs.Scope.Growth
import BraceLang.Proofs.Statement.Extension

/-!
# An analysis is resumed where it ended

The statements of a program are read one behind the other, so tokens behind a program
that could be read are analysed as if the analysis of it had gone on. No reading looks at
the scopes: what is resumed is the session alone, and that blocks are still open in it
makes no difference to the statements behind.

Two things could look across the boundary. A conditional at the end would go on with an
`else`, which is excluded. A jump at the end takes a semicolon, which would otherwise have
been passed over; neither leaves a node or a step to carry out.
-/

namespace BraceLang

open Grammar Scripted

/-- An outcome with values and a script in front of it. -/
def Outcome.prepend {α : Type} (outcome : Outcome (List α)) (script : List Step)
    (values : List α) : Outcome (List α) :=
  ⟨script ++ outcome.script, outcome.result.map fun (others, rest) => (values ++ others, rest)⟩

/-- The items that the statements of a program leave. -/
def programItems : Scripted (List Item) := fun stop ahead =>
  repeated (topLevel (statementWithin ahead.length)) stop ahead

section Items

variable {stop : Terminator} {ahead behind left rest : List Token} {script : List Step}
  {items : List Item}

/-- A program is its items, in a block at the place of its first token. -/
theorem program_eq (stop : Terminator) (ahead : List Token) :
    program stop ahead =
      ⟨(programItems stop ahead).script, (programItems stop ahead).result.map fun (items, rest) =>
        (.block (items.flatMap Item.nodes) (ahead.headD stop.token).location, rest)⟩ :=
  bind_pure_eq (repeated (topLevel (statementWithin ahead.length))) _ stop ahead

theorem Outcome.prepend_prepend {α : Type} (outcome : Outcome (List α)) (front back : List Step)
    (values others : List α) :
    (outcome.prepend back others).prepend front values =
      outcome.prepend (front ++ back) (values ++ others) := by
  obtain ⟨script, failure | ⟨value, rest⟩⟩ := outcome <;>
    simp [prepend, Except.map, List.append_assoc]

/-- A statement that can be read is read in front of the others, which are read as if it were
not there. -/
theorem programItems_of_takes {item : Item} (stop : Terminator)
    (taken : Takes .statement ahead script item rest) :
    programItems stop ahead = (programItems stop rest).prepend script [item] := by
  have shorter := taken.statement_length_lt
  have reads : Reads (topLevel (statementWithin ahead.length)) stop ahead script (some item) rest :=
    reads_topLevel_some.mpr ⟨taken.ne_nil rfl, taken.readable stop ahead.length (Nat.le_refl _)⟩
  obtain ⟨rounds, length⟩ : ∃ rounds, ahead.length = rounds + 1 := ⟨ahead.length - 1, by omega⟩
  have further : collect (topLevel (statementWithin ahead.length)) rounds stop rest =
      programItems stop rest := by
    have readers := dispatchesInStep_statementWithin (Nat.le_of_lt shorter) (Nat.le_refl _)
    have loops := loopsWithin_topLevel
      (dispatchesInStep_statementWithin (Nat.le_of_lt shorter) (Nat.le_of_lt shorter))
    exact loops.collect_eq (topLevel_congr readers) (Nat.le_refl _) (by omega) (Nat.le_refl _)
  have unrolled : programItems stop ahead =
      collect (topLevel (statementWithin ahead.length)) (rounds + 1) stop ahead := by
    rw [← length]
    rfl
  rw [unrolled, collect_some rounds reads, bind_pure_eq, further]
  rfl

/-- Statements take tokens one behind the other. -/
inductive TakesItems : List Token → List Step → List Item → List Token → Prop where
  | nil (ahead : List Token) : TakesItems ahead [] [] ahead
  | cons {ahead middle rest : List Token} {front back : List Step} {item : Item}
      {items : List Item} (first : Takes .statement ahead front item middle)
      (others : TakesItems middle back items rest) :
      TakesItems ahead (front ++ back) (item :: items) rest

theorem programItems_of_takesItems (stop : Terminator)
    (taken : TakesItems ahead script items rest) :
    programItems stop ahead = (programItems stop rest).prepend script items := by
  induction taken with
  | nil ahead =>
      rcases outcome : programItems stop ahead with ⟨script, failure | ⟨items, rest⟩⟩ <;> rfl
  | cons first _ inductionHypothesis =>
      rw [programItems_of_takes stop first, inductionHypothesis, Outcome.prepend_prepend]
      rfl

/-- In front of other tokens, the statements of a program take what they take alone, and perhaps
a semicolon. -/
theorem Grammar.TakesProgram.takesItems (taken : TakesProgram ahead script items)
    (unelse : ¬ (Lexeme.keyword "else").Starts behind) :
    ∃ left, TakesItems (ahead ++ behind) (script.map (Step.later behind.length)) items left ∧
      (left = behind ∨ ∃ place, behind = Lexeme.semicolon.token place :: left) := by
  induction taken with
  | nil => exact ⟨behind, .nil behind, .inl rfl⟩
  | @cons ahead middle front back item items first others inductionHypothesis =>
      rw [List.map_append]
      have extended : Extends .statement ahead front item middle behind :=
        first.extends fun _ => unelse
      by_cases ended : middle = []
      · obtain rfl := ended
        obtain ⟨left, taken, leaves⟩ := extended
        cases others with
        | nil => exact ⟨left, .cons taken (.nil left), leaves.imp_right fun closes => closes.2.2⟩
        | cons further => exact absurd further.statement_length_lt (Nat.not_lt_zero _)
      · obtain ⟨left, taken, leaves⟩ := inductionHypothesis
        exact ⟨left, .cons (extended.takes (.inl ended)) taken, leaves⟩

end Items

namespace Session

theorem run_later (session : Session) (more : Nat) (script : List Step) :
    session.run (script.map (Step.later more)) = session.run script := by
  induction script generalizing session with
  | nil => rfl
  | cons step script inductionHypothesis =>
      have same : session.after (step.later more) = session.after step := by cases step <;> rfl
      rw [List.map_cons, run_cons, run_cons, same, inductionHypothesis]

theorem diagnostics_later (session : Session) (more : Nat) (script : List Step) :
    session.diagnostics (script.map (Step.later more)) = session.diagnostics script := by
  induction script generalizing session with
  | nil => rfl
  | cons step script inductionHypothesis =>
      have same : session.after (step.later more) = session.after step := by cases step <;> rfl
      have found : session.diagnose (step.later more) = session.diagnose step := by
        cases step <;> rfl
      rw [List.map_cons, diagnostics, diagnostics, same, found, inductionHypothesis]

end Session

section State

/-- How far an analysis has come: its statements, the scopes with the current one, and what is
wrong so far. -/
structure State where
  statements : List Node
  scopes : ScopeTable
  current : ScopeId
  diagnostics : List Diagnostic

/-- What an analysis amounts to, apart from the place of its program. -/
def Analysis.state (analysis : Analysis) : State :=
  ⟨analysis.program.statements, analysis.scopes, analysis.current, analysis.diagnostics⟩

namespace State

/-- Where an analysis begins. -/
def start (builtins : List Symbol) : State :=
  ⟨[], .withBuiltins builtins, ScopeTable.root, []⟩

/-- The session in which an analysis goes on. -/
def session (state : State) : Session := ⟨state.scopes, state.current⟩

/-- The state after a script and the statements that wrote it. -/
def after (state : State) (script : List Step) (statements : List Node) : State :=
  ⟨state.statements ++ statements, (state.session.run script).scopes,
    (state.session.run script).current,
    state.diagnostics ++ state.session.diagnostics script⟩

/-- The state after the statements of an outcome, or the failure of one of them. -/
def afterItems (state : State) (outcome : Outcome (List Item)) : Except SyntaxError State :=
  outcome.result.map fun (items, _) => state.after outcome.script (items.flatMap Item.nodes)

/-- Go on with the analysis of further tokens. -/
def resume (state : State) (tokens : List Token) : Except SyntaxError State :=
  let reading := Reading.ofTokens tokens
  reading.result.map fun program => state.after reading.script program.statements

variable {state : State}

theorem resume_eq (state : State) (tokens : List Token) :
    state.resume tokens =
      state.afterItems
        (programItems (Input.ofTokens tokens).stop (Input.ofTokens tokens).ahead) := by
  simp only [resume, Reading.ofTokens, program_eq, afterItems]
  rcases programItems (Input.ofTokens tokens).stop (Input.ofTokens tokens).ahead with
    ⟨script, failure | ⟨items, rest⟩⟩ <;> rfl

/-- An analysis from the start is one that is resumed before anything was read. -/
theorem analyzeTokens_state (builtins : List Symbol) (tokens : List Token) :
    (analyzeTokens builtins tokens).map Analysis.state = (start builtins).resume tokens := by
  rw [analyzeTokens, Reading.analysis, resume]
  cases (Reading.ofTokens tokens).result <;> rfl

theorem after_after (state : State) (front back : List Step) (statements others : List Node) :
    (state.after front statements).after back others =
      state.after (front ++ back) (statements ++ others) := by
  simp only [after, session, Session.run_append, Session.diagnostics_append, List.append_assoc]

/-- How many tokens were ahead of a statement makes no difference to what is done. -/
theorem after_later (state : State) (script : List Step) (more : Nat) (statements : List Node) :
    state.after (script.map (Step.later more)) statements = state.after script statements := by
  rw [after, Session.run_later, Session.diagnostics_later, after]

theorem after_mark (state : State) (ahead : List Token) : state.after (mark ahead) [] = state := by
  obtain ⟨statements, scopes, current, diagnostics⟩ := state
  cases ahead <;> simp [after, mark, session, Session.run, Session.diagnostics, Session.diagnose,
    Session.after]

theorem afterItems_prepend (state : State) (outcome : Outcome (List Item)) (script : List Step)
    (items : List Item) :
    state.afterItems (outcome.prepend script items) =
      (state.after script (items.flatMap Item.nodes)).afterItems outcome := by
  obtain ⟨back, failure | ⟨others, rest⟩⟩ := outcome
  · rfl
  · simp only [afterItems, Outcome.prepend, Except.map, after_after, List.flatMap_append]

/-- A token that begins no statement leaves no trace in front of others. -/
theorem afterItems_idle {first : Token} (idle : Idle first) (stop : Terminator)
    (ahead : List Token) :
    state.afterItems (programItems stop (first :: ahead)) =
      state.afterItems (programItems stop ahead) := by
  have taken : Takes .statement (first :: ahead) (mark (first :: ahead) ++ []) .nothing ahead :=
    .statement (.idle idle ahead)
  rw [programItems_of_takes stop taken, afterItems_prepend, List.append_nil]
  exact congrArg (afterItems · _) (after_mark state (first :: ahead))

/-- Behind a program that was read, further tokens are analysed from where it ended. -/
theorem afterItems_append {ahead behind : List Token} {script : List Step} {items : List Item}
    (stop : Terminator) (taken : TakesProgram ahead script items)
    (unelse : ¬ (Lexeme.keyword "else").Starts behind) :
    state.afterItems (programItems stop (ahead ++ behind)) =
      (state.after script (items.flatMap Item.nodes)).afterItems (programItems stop behind) := by
  obtain ⟨left, takenItems, leaves⟩ := taken.takesItems unelse
  have went : state.afterItems (programItems stop (ahead ++ behind)) =
      (state.after script (items.flatMap Item.nodes)).afterItems (programItems stop left) := by
    rw [programItems_of_takesItems stop takenItems, afterItems_prepend, after_later]
  obtain rfl | ⟨place, rfl⟩ := leaves
  · exact went
  · have idle : Idle (Lexeme.semicolon.token place) := by
      simp [Idle, statementLexemes, Lexeme.semicolon, Lexeme.keyword, Lexeme.op]
    rw [went, afterItems_idle idle]

/-- What an analysis has come to is kept when it goes on. -/
structure GrowsTo (state grown : State) : Prop where
  statements : state.statements <+: grown.statements
  diagnostics : state.diagnostics <+: grown.diagnostics
  scopes : state.scopes.GrowsTo grown.scopes

theorem grows_after (rooted : state.session.Rooted) (script : List Step)
    (statements : List Node) : state.GrowsTo (state.after script statements) where
  statements := List.prefix_append _ _
  diagnostics := List.prefix_append _ _
  scopes := rooted.grows_run script

end State
end State

section Boundary

variable {front back : List Token}

/-- Further tokens behind those of a program go up to their first end of input. -/
theorem Input.ofTokens_append (endless : ∀ token ∈ front, token.kind ≠ .endOfInput)
    (ended : ∃ last ∈ back, last.kind = .endOfInput) :
    Input.ofTokens (front ++ back) =
      ⟨front ++ (Input.ofTokens back).ahead, (Input.ofTokens back).stop⟩ := by
  obtain ⟨middle, stop, beyond, rfl, others, ends⟩ := exists_first_stop ended
  rw [← List.append_assoc, ofTokens_stop (List.forall_mem_append.mpr ⟨endless, others⟩) ends,
    ofTokens_stop others ends]

theorem Input.ofTokens_of_endless (endless : ∀ token ∈ front, token.kind ≠ .endOfInput) :
    (Input.ofTokens front).ahead = front := by
  rw [ofTokens_endless endless]

/-- An `else` does not stand in front of the tokens ahead if it does not stand in front of all. -/
theorem not_starts_ahead {lexeme : Lexeme} (absent : ¬ lexeme.Starts back) :
    ¬ lexeme.Starts (Input.ofTokens back).ahead := by
  rw [Input.ofTokens_ahead]
  obtain _ | ⟨first, tail⟩ := back
  · exact absent
  · rw [List.takeWhile_cons]
    split_ifs
    · exact fun starts => absent ((Lexeme.starts_cons ..).mpr ((Lexeme.starts_cons ..).mp starts))
    · exact Lexeme.not_starts_nil lexeme

end Boundary

section Resumption

variable {builtins : List Symbol} {front back : List Token} {before : Analysis}

/-- What becomes a value under a map was one before. -/
theorem exists_of_map_eq_ok {ε α β : Type} {change : α → β} {result : Except ε α} {value : β}
    (changed : result.map change = .ok value) :
    ∃ found, result = .ok found ∧ change found = value := by
  cases result with
  | error => cases changed
  | ok found => exact ⟨found, rfl, Except.ok.inj changed⟩

theorem analyzeTokens_append (analyzed : analyzeTokens builtins front = .ok before)
    (endless : ∀ token ∈ front, token.kind ≠ .endOfInput)
    (ended : ∃ last ∈ back, last.kind = .endOfInput)
    (unelse : ¬ (Lexeme.keyword "else").Starts back) :
    (analyzeTokens builtins (front ++ back)).map Analysis.state = before.state.resume back := by
  obtain ⟨script, items, taken, rfl⟩ := analyzeTokens_eq_ok_iff.mp analyzed
  rw [Input.ofTokens_of_endless endless] at taken
  rw [State.analyzeTokens_state, State.resume_eq, State.resume_eq,
    Input.ofTokens_append endless ended,
    State.afterItems_append _ taken (not_starts_ahead unelse)]
  rfl

/-- A token that begins no statement makes no difference in front of others. -/
theorem State.resume_idle (state : State) {token : Token} (idle : Idle token)
    (unending : token.kind ≠ .endOfInput) (ended : ∃ last ∈ back, last.kind = .endOfInput) :
    state.resume (token :: back) = state.resume back := by
  have endless : ∀ other ∈ [token], other.kind ≠ .endOfInput := by simpa using unending
  rw [State.resume_eq, State.resume_eq, ← List.singleton_append,
    Input.ofTokens_append endless ended]
  exact State.afterItems_idle idle _ _

/-- Behind a program that could be read, further tokens are analysed from where its analysis
ended, with the same failure or the same result. So what it came to is kept, and a token that
begins no statement and is not an `else` makes no difference in between, unless it is an end of
input. -/
theorem analysis_resumes (analyzed : analyzeTokens builtins front = .ok before)
    (endless : ∀ token ∈ front, token.kind ≠ .endOfInput)
    (ended : ∃ last ∈ back, last.kind = .endOfInput)
    (unelse : ¬ (Lexeme.keyword "else").Starts back) :
    (analyzeTokens builtins (front ++ back)).map Analysis.state = before.state.resume back ∧
      (∀ grown, analyzeTokens builtins (front ++ back) = .ok grown →
        before.state.GrowsTo grown.state) ∧
      ∀ token, Idle token → token.toLexeme ≠ .keyword "else" → token.kind ≠ .endOfInput →
        (analyzeTokens builtins (front ++ token :: back)).map Analysis.state =
          (analyzeTokens builtins (front ++ back)).map Analysis.state := by
  have resumed := analyzeTokens_append analyzed endless ended unelse
  refine ⟨resumed, fun grown found => ?_, fun token idle other unending => ?_⟩
  · have rooted : before.state.session.Rooted := by
      obtain ⟨script, items, _, rfl⟩ := analyzeTokens_eq_ok_iff.mp analyzed
      exact (Session.Rooted.start builtins).run script
    rw [found] at resumed
    obtain ⟨program, _, reached⟩ := exists_of_map_eq_ok resumed.symm
    rw [← reached]
    exact State.grows_after rooted _ _
  · have endedBehind : ∃ last ∈ token :: back, last.kind = .endOfInput := by
      obtain ⟨last, member, kind⟩ := ended
      exact ⟨last, .tail _ member, kind⟩
    have unelseBehind : ¬ (Lexeme.keyword "else").Starts (token :: back) := by
      rwa [Lexeme.starts_cons]
    rw [resumed, analyzeTokens_append analyzed endless endedBehind unelseBehind,
      State.resume_idle before.state idle unending ended]

/-- A block left open and a jump, in front of the semicolon of the jump and the end of the
block. -/
theorem analysis_resumes_jump :
    let front := [Lexeme.op "\x7b", .type "int", .name "x", .semicolon, .keyword "break"].map
      (·.token .start)
    let back := [Lexeme.semicolon, .name "x", .semicolon, .op "\x7d", .endOfInput].map
      (·.token .start)
    ∃ before grown, analyzeTokens [] front = .ok before ∧ before.current = 1 ∧
      analyzeTokens [] (front ++ back) = .ok grown ∧ grown.current = 0 ∧
      grown.program.statements.length = 3 ∧ before.state.resume back = .ok grown.state ∧
      before.state.GrowsTo grown.state := by
  intro front back
  have reads : (analyzeTokens [] front).map (·.current) = .ok 1 := by decide
  have readsOn : (analyzeTokens [] (front ++ back)).map
      (fun grown => (grown.current, grown.program.statements.length)) = .ok (0, 3) := by decide
  obtain ⟨before, analyzed, current⟩ := exists_of_map_eq_ok reads
  obtain ⟨grown, found, counts⟩ := exists_of_map_eq_ok readsOn
  have ended : ∃ last ∈ back, last.kind = .endOfInput :=
    ⟨Lexeme.endOfInput.token .start, by decide, rfl⟩
  have unelse : ¬ (Lexeme.keyword "else").Starts back := fun starts =>
    absurd ((Lexeme.starts_cons ..).mp starts) (by decide)
  obtain ⟨resumed, grows, _⟩ := analysis_resumes analyzed (by decide) ended unelse
  rw [found] at resumed
  exact ⟨before, grown, analyzed, current, found, congrArg Prod.fst counts,
    congrArg Prod.snd counts, resumed.symm, grows grown found⟩

/-- An end of input begins no statement either, but what stands behind it is not analysed. -/
theorem analysis_ends_at_inserted_end :
    let front := [Lexeme.keyword "break", .semicolon].map (·.token .start)
    let back := [Lexeme.keyword "continue", .semicolon, .endOfInput].map (·.token .start)
    let token := Lexeme.endOfInput.token .start
    (∃ before, analyzeTokens [] front = .ok before) ∧
      (∀ token ∈ front, token.kind ≠ .endOfInput) ∧
      (∃ last ∈ back, last.kind = .endOfInput) ∧ ¬ (Lexeme.keyword "else").Starts back ∧
      Idle token ∧ token.toLexeme ≠ .keyword "else" ∧
      (analyzeTokens [] (front ++ token :: back)).map Analysis.state ≠
        (analyzeTokens [] (front ++ back)).map Analysis.state := by
  intro front back token
  have unelse : ¬ (Lexeme.keyword "else").Starts back := fun starts =>
    absurd ((Lexeme.starts_cons ..).mp starts) (by decide)
  have idle : Idle token := ⟨by decide, by decide, by decide⟩
  refine ⟨⟨_, rfl⟩, by decide, ⟨token, by decide, rfl⟩, unelse, idle, by decide, fun same => ?_⟩
  have counts := congrArg (fun result => result.toOption.map (·.statements.length)) same
  have shorter : some 1 = some 2 := counts
  cases shorter

end Resumption

end BraceLang
