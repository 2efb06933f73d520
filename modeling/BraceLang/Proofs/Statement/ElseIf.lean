import BraceLang.Proofs.Horizon.Analysis
import BraceLang.Proofs.Lockstep.Statement
import BraceLang.Proofs.Scope.Spaced
import BraceLang.Proofs.Statement.Braced

/-!
# An `else if` is an `else` with an `if` in braces

The braces give the same tree and the same script but for one block. What stands in that block is
a conditional, which declares nothing in it, so the block stays empty and nothing else changes.
-/

namespace BraceLang

open Grammar Scripted

namespace Input

/-- A word that is not an end of input is in front of what follows. -/
theorem ofTokens_cons_ahead {lexeme : Lexeme} (inside : lexeme.kind ≠ .endOfInput)
    (place : Location) (tokens : List Token) :
    (ofTokens (lexeme.token place :: tokens)).ahead =
      lexeme.token place :: (ofTokens tokens).ahead := by
  rw [ofTokens_ahead, ofTokens_ahead, List.takeWhile_cons_of_pos]
  exact decide_eq_true inside

/-- So are tokens without one. -/
theorem ofTokens_append_ahead {front : List Token}
    (endless : ∀ token ∈ front, token.kind ≠ .endOfInput) (back : List Token) :
    (ofTokens (front ++ back)).ahead = front ++ (ofTokens back).ahead := by
  rw [ofTokens_ahead, ofTokens_ahead, List.takeWhile_append_of_pos]
  exact fun token member => decide_eq_true (endless token member)

/-- A program begins where the first of its tokens stands. -/
theorem program_eq {input other : Input} {items others : List Item} {first : Token}
    (starts : input.ahead.head? = some first) (otherStarts : other.ahead.head? = some first)
    (nodes : others.flatMap Item.nodes = items.flatMap Item.nodes) :
    other.program others = input.program items := by
  simp [program, nodes, List.headD_eq_head?_getD, starts, otherStarts]

end Input

/-- The conditional that is read behind an `else` has a course that comes back to its scope. -/
theorem Grammar.takes_and_course_of_ifStatement {tokens : Nat} {stop : Terminator}
    {ahead rest : List Token} {script : List Step} {node : Node}
    (starts : (Lexeme.keyword "if").Starts ahead) (enough : ahead.length ≤ tokens + 1)
    (reads : Reads (ifStatement (statementWithin tokens)) stop ahead script node rest) :
    Takes .conditional ahead script node rest ∧ Course [] ahead.tail script rest := by
  obtain ⟨place, tail, rfl⟩ := starts
  have within : tail.length ≤ tokens := Nat.le_of_succ_le_succ enough
  have dispatches := dispatchesInStep_statementWithin within within
  have ran := (takesInStep_ifStatement dispatches stop
    ((Lexeme.keyword "if").token place :: tail) (Nat.le_refl _)).2
  rw [reads] at ran
  exact ⟨takes_of_ifStatement (soundWithin_statementWithin tokens) reads within, ran⟩

namespace Session

variable {session : Session}

theorem diagnose_of_encloses {opens closes : Step} (encloses : Encloses opens closes)
    (session other : Session) : session.diagnose opens = [] ∧ other.diagnose closes = [] := by
  cases encloses <;> exact ⟨rfl, rfl⟩

/-- Around a script that declares nothing in its own scope, a block adds an empty scope and
nothing else. -/
theorem spaced_of_encloses {inner : List Step} {opens closes : Step} (rooted : session.Rooted)
    {ahead rest : List Token} (course : Course [] ahead inner rest)
    (silent : declaredAround 0 inner = []) (encloses : Encloses opens closes) :
    (session.run inner).Spaced session.scopes.size [] (session.scopes.path session.current) []
        (((session.after opens).run inner).after closes) ∧
      (session.after opens).diagnostics inner = session.diagnostics inner := by
  have around : session.scopes.path session.current ≠ [] := by
    rw [ScopeTable.path_eq_cons_around]
    exact List.cons_ne_nil _ _
  obtain ⟨inside, found⟩ :=
    course.spaced (Spaced.of_enter rooted) rooted (rooted.enter .block) around rfl silent
  have behind := inside.closed ((rooted.enter .block).run inner) around
  cases encloses <;> exact ⟨behind, found⟩

/-- The same in the middle of a script. -/
theorem spaced_of_boxed {inner script boxed : List Step} (rooted : session.Rooted)
    {ahead rest : List Token} (course : Course [] ahead inner rest)
    (silent : declaredAround 0 inner = []) (box : Boxed (unmarked inner) script boxed) :
    (∃ extra opened, (session.run script).Spaced extra [] opened [] (session.run boxed)) ∧
      session.diagnostics boxed = session.diagnostics script := by
  cases box with
  | @box front back opens closes encloses =>
      have rootedFront := rooted.run front
      obtain ⟨behind, found⟩ := spaced_of_encloses rootedFront course silent encloses
      have rootedBehind := ((rootedFront.after opens).run inner).after closes
      obtain ⟨ran, foundBack⟩ := behind.run_behind (rootedFront.run inner) rootedBehind back
      obtain ⟨opened, closed⟩ := diagnose_of_encloses encloses (session.run front)
        (((session.run front).after opens).run inner)
      constructor
      · simp only [run_append, run_cons, run_unmarked]
        exact ⟨_, ran⟩
      · simp only [diagnostics_append, diagnostics, run_unmarked, diagnostics_unmarked, opened,
          closed, found, foundBack, List.nil_append]

end Session

/-- An `else if` is an `else` with the `if` in braces. Behind an `else` stands a conditional, which
takes the tokens `used` with any bound that is enough. If the tokens have an analysis, they have one
with `used` in braces, whatever the places of these. It has the same tree, and the same is found
wrong. Exactly one scope comes in, a block in which nothing is declared. Whether the `else` belongs
to a conditional in front of it or is passed over makes no difference. -/
theorem else_if_in_braces (builtins : List Symbol) {front used back : List Token}
    {word : Location} {before : Analysis} {tokens : Nat} {choice : List Step} {node : Node}
    (endless : ∀ token ∈ front ++ used, token.kind ≠ .endOfInput)
    (starts : (Lexeme.keyword "if").Starts (used ++ (Input.ofTokens back).ahead))
    (enough : (used ++ (Input.ofTokens back).ahead).length ≤ tokens + 1)
    (chosen : Reads (ifStatement (statementWithin tokens)) (Input.ofTokens back).stop
      (used ++ (Input.ofTokens back).ahead) choice node (Input.ofTokens back).ahead)
    (analyzed : analyzeTokens builtins
      (front ++ (Lexeme.keyword "else").token word :: (used ++ back)) = .ok before)
    (opening closing : Location) :
    ∃ after extra,
      analyzeTokens builtins (front ++ (Lexeme.keyword "else").token word ::
        (Lexeme.op "\x7b").token opening ::
          (used ++ (Lexeme.op "\x7d").token closing :: back)) = .ok after ∧
        after.program = before.program ∧ after.diagnostics = before.diagnostics ∧
        before.scopes.Spaced extra after.scopes ∧ after.current = past extra before.current := by
  let turn : ElseIf := ⟨word, opening, closing, used, (Input.ofTokens back).ahead⟩
  obtain ⟨endlessFront, endlessUsed⟩ := List.forall_mem_append.mp endless
  have aheadPlain : (Input.ofTokens (front ++ (Lexeme.keyword "else").token word ::
      (used ++ back))).ahead = front ++ turn.plain := by
    rw [Input.ofTokens_append_ahead endlessFront, Input.ofTokens_cons_ahead Kind.noConfusion,
      Input.ofTokens_append_ahead endlessUsed, ElseIf.plain]
  have aheadBraced : (Input.ofTokens (front ++ (Lexeme.keyword "else").token word ::
      (Lexeme.op "\x7b").token opening ::
        (used ++ (Lexeme.op "\x7d").token closing :: back))).ahead = front ++ turn.braced := by
    rw [Input.ofTokens_append_ahead endlessFront, Input.ofTokens_cons_ahead Kind.noConfusion,
      Input.ofTokens_cons_ahead Kind.noConfusion, Input.ofTokens_append_ahead endlessUsed,
      Input.ofTokens_cons_ahead Kind.noConfusion, ElseIf.braced]
  obtain ⟨script, items, taken, rfl⟩ := analyzeTokens_eq_ok_iff.mp analyzed
  obtain ⟨conditional, course⟩ :
      Takes .conditional (turn.used ++ turn.back) choice node turn.back ∧ Course [] _ choice _ :=
    takes_and_course_of_ifStatement starts enough chosen
  obtain ⟨boxed, others, takenBraced, nodes, box⟩ := taken.braced conditional aheadPlain
  obtain ⟨⟨extra, opened, spaced⟩, found⟩ := Session.spaced_of_boxed
    (Session.Rooted.start builtins) course (conditional.declaresAround 0).1 box
  rw [Session.run_unmarked, Session.run_unmarked] at spaced
  rw [Session.diagnostics_unmarked, Session.diagnostics_unmarked] at found
  obtain ⟨first, begins, beginsBraced⟩ : ∃ first, (front ++ turn.plain).head? = some first ∧
      (front ++ turn.braced).head? = some first := by
    cases front <;> exact ⟨_, rfl, rfl⟩
  refine ⟨_, extra, analyzeTokens_eq_ok_iff.mpr ⟨boxed, others, aheadBraced ▸ takenBraced, rfl⟩,
    ?_, found, spaced.tables, spaced.current_behind⟩
  exact Input.program_eq (aheadPlain ▸ begins) (aheadBraced ▸ beginsBraced) nodes

/-- A conditional with a declaration in its body. -/
theorem else_if_in_braces_declaring :
    let front := [Lexeme.keyword "if", .op "(", .name "x", .op ")", .op "\x7b", .op "\x7d"].map
      (·.token .start)
    let used := [Lexeme.keyword "if", .op "(", .name "y", .op ")", .op "\x7b", .type "int",
      .name "x", .semicolon, .op "\x7d"].map (·.token .start)
    let back := [Lexeme.endOfInput.token .start]
    ∃ before after,
      analyzeTokens [] (front ++ (Lexeme.keyword "else").token .start :: (used ++ back)) =
          .ok before ∧
        analyzeTokens [] (front ++ (Lexeme.keyword "else").token .start ::
          (Lexeme.op "\x7b").token .start ::
            (used ++ (Lexeme.op "\x7d").token .start :: back)) = .ok after ∧
        after.program = before.program ∧ after.diagnostics = before.diagnostics ∧
        after.scopes.size = before.scopes.size + 1 := by
  intro front used back
  have endless : ∀ token ∈ front ++ used, token.kind ≠ .endOfInput := by decide
  have starts : (Lexeme.keyword "if").Starts (used ++ (Input.ofTokens back).ahead) := ⟨_, _, rfl⟩
  have enough : (used ++ (Input.ofTokens back).ahead).length ≤ 8 + 1 := Nat.le_refl 9
  have chosen : Reads (ifStatement (statementWithin 8)) (Input.ofTokens back).stop
      (used ++ (Input.ofTokens back).ahead) _ _ (Input.ofTokens back).ahead := rfl
  obtain ⟨before, analyzed⟩ : ∃ before, analyzeTokens []
      (front ++ (Lexeme.keyword "else").token .start :: (used ++ back)) = .ok before := ⟨_, rfl⟩
  obtain ⟨after, _, analyzedAfter, program, found, scopes, -⟩ :=
    else_if_in_braces [] endless starts enough chosen analyzed .start .start
  exact ⟨before, after, analyzed, analyzedAfter, program, found, scopes.size⟩

end BraceLang
