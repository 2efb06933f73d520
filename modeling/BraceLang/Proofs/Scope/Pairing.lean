import BraceLang.Event
import BraceLang.Proofs.Lockstep.Statement
import BraceLang.Proofs.Scope.Nesting

/-!
# A statement leaves every scope it enters

Whether a statement can be read or not, and from whatever depth a failure comes, the log
of what it does enters and leaves scopes in pairs: the scope entered last is left first,
and the scope that was current before is current again. The blocks opened by lone
braces in a body that fails are closed on the way.

Both are read off the course of the reading. The stack of a `BraceMachine` says which
scope each unmatched closer of a course leaves.
-/

namespace BraceLang

/-- The scope that an event enters. -/
def Event.entered? : Event → Option ScopeId
  | .entered scope _ _ => some scope
  | _ => none

/-- The scope that an event leaves. -/
def Event.exited? : Event → Option ScopeId
  | .exited scope _ => some scope
  | _ => none

/-- Events that, inside the scope `around`, enter and leave scopes in pairs. -/
inductive Paired : (around : ScopeId) → List Event → Prop where
  | nil (around : ScopeId) : Paired around []
  | aside {around : ScopeId} {event : Event} {events : List Event}
      (unentered : event.entered? = none) (unexited : event.exited? = none)
      (others : Paired around events) : Paired around (event :: events)
  | scope {around : ScopeId} {inside others : List Event} (scope : ScopeId) (kind : ScopeKind)
      (insidePaired : Paired scope inside) (othersPaired : Paired around others) :
      Paired around (.entered scope around kind :: (inside ++ .exited scope around :: others))

/-- The scopes left by paired events are those entered, each of them once. -/
theorem Paired.perm {around : ScopeId} {events : List Event} (paired : Paired around events) :
    (events.filterMap Event.exited?).Perm (events.filterMap Event.entered?) := by
  induction paired with
  | nil => exact .refl _
  | aside unentered unexited _ inductionHypothesis =>
      simpa [List.filterMap_cons, unentered, unexited] using inductionHypothesis
  | @scope around inside others scope kind _ _ insidePerm othersPerm =>
      simp only [List.filterMap_cons, List.filterMap_append, Event.entered?, Event.exited?]
      exact List.perm_middle.trans ((insidePerm.append othersPerm).cons scope)

/-- Events that leave the scopes of `opened`, the innermost first, and end in the scope
`around`; in between they are paired. -/
def Unwinds : (opened : List ScopeId) → (around : ScopeId) → List Event → Prop
  | [], around, events => Paired around events
  | scope :: opened, around, events =>
      ∃ inside others, events = inside ++ .exited scope (opened.headD around) :: others ∧
        Paired scope inside ∧ Unwinds opened around others

section Unwinds

variable {opened : List ScopeId} {around : ScopeId} {events : List Event}

theorem Unwinds.aside {front : List Event} (unentered : front.filterMap Event.entered? = [])
    (unexited : front.filterMap Event.exited? = []) (further : Unwinds opened around events) :
    Unwinds opened around (front ++ events) := by
  have pass {scope : ScopeId} {others : List Event} (paired : Paired scope others) :
      Paired scope (front ++ others) := by
    rw [List.filterMap_eq_nil_iff] at unentered unexited
    induction front with
    | nil => exact paired
    | cons event front inductionHypothesis =>
        exact .aside (unentered event List.mem_cons_self) (unexited event List.mem_cons_self)
          (inductionHypothesis (fun other member => unentered other (.tail _ member))
            (fun other member => unexited other (.tail _ member)))
  cases opened with
  | nil => exact pass further
  | cons scope opened =>
      obtain ⟨inside, others, rfl, insidePaired, unwinds⟩ := further
      exact ⟨front ++ inside, others, by rw [List.append_assoc], pass insidePaired, unwinds⟩

theorem Unwinds.entered {scope : ScopeId} (kind : ScopeKind)
    (further : Unwinds (scope :: opened) around events) :
    Unwinds opened around (.entered scope (opened.headD around) kind :: events) := by
  obtain ⟨inside, others, rfl, insidePaired, unwinds⟩ := further
  cases opened with
  | nil => exact .scope scope kind insidePaired unwinds
  | cons outer opened =>
      obtain ⟨outerInside, outerOthers, rfl, outerPaired, outerUnwinds⟩ := unwinds
      exact ⟨_, outerOthers, by simp, .scope scope kind insidePaired outerPaired, outerUnwinds⟩

theorem Unwinds.exited (scope : ScopeId) (further : Unwinds opened around events) :
    Unwinds (scope :: opened) around (.exited scope (opened.headD around) :: events) :=
  ⟨[], events, rfl, .nil scope, further⟩

end Unwinds

namespace Session

variable {session : Session} {machine : BraceMachine} {opened : List ScopeId} {around : ScopeId}
  {beyond : List ScopeId} {step : Step} {script : List Step} {total : Nat}

/-- A script takes a session out of the scopes of `opened` to the scope around them. -/
def UnwindsTo (session : Session) (total : Nat) (opened : List ScopeId) (around : ScopeId)
    (script : List Step) : Prop :=
  Unwinds opened around (session.events total script) ∧ (session.run script).current = around

/-- A step that is not a brace leaves the scopes alone. -/
theorem UnwindsTo.aside (still : step.brace? = none)
    (further : (session.after step).UnwindsTo total opened around script) :
    session.UnwindsTo total opened around (step :: script) := by
  obtain ⟨unwinds, ended⟩ := further
  refine ⟨Unwinds.aside ?_ ?_ unwinds, ended⟩
  all_goals
    cases step with
    | enter | leave | openBlock | closeBlock => cases still
    | _ => simp [observe, Event.entered?, Event.exited?]

/-- A scope is entered in the scope on top of the stack. -/
theorem UnwindsTo.enter (follows : session.Follows machine)
    (stacked : machine.top :: machine.below = opened ++ around :: beyond) (kind : ScopeKind)
    (further : (session.enter kind).UnwindsTo total (session.scopes.size :: opened) around script) :
    Unwinds opened around (.entered session.scopes.size session.current kind ::
        (session.enter kind).events total script) ∧
      ((session.enter kind).run script).current = around := by
  have top : session.current = opened.headD around := by
    rw [follows.current]
    cases opened <;> exact (List.cons.inj stacked).1
  rw [top]
  exact ⟨further.1.entered kind, further.2⟩

/-- The scope on top of the stack is left for the one below it. -/
theorem UnwindsTo.leave (follows : session.Follows machine) {scope : ScopeId}
    (stacked : machine.top :: machine.below = scope :: opened ++ around :: beyond)
    (further : session.leave.UnwindsTo total opened around script) :
    Unwinds (scope :: opened) around (.exited session.current session.leave.current ::
        session.leave.events total script) ∧
      (session.leave.run script).current = around := by
  obtain ⟨top, below⟩ := List.cons.inj stacked
  have outer : session.leave.current = opened.headD around := by
    rw [follows.closed.current]
    cases opened <;> exact (BraceMachine.closed_of_below below).1
  rw [outer, follows.current, top]
  exact ⟨further.1.exited scope, further.2⟩

/-- The stack inside a scope that was entered. -/
theorem Follows.stacked_opened (follows : session.Follows machine)
    (stacked : machine.top :: machine.below = opened ++ around :: beyond) :
    (machine.after .opened).top :: (machine.after .opened).below =
      (session.scopes.size :: opened) ++ around :: beyond := by
  rw [follows.size, List.cons_append, ← stacked]
  rfl

end Session

/-- The stack around a scope that was left. -/
theorem BraceMachine.stacked_closed {machine : BraceMachine} {scope around : ScopeId}
    {opened beyond : List ScopeId}
    (stacked : machine.top :: machine.below = scope :: opened ++ around :: beyond) :
    (machine.after .closed).top :: (machine.after .closed).below = opened ++ around :: beyond := by
  have below : machine.below = opened ++ around :: beyond := (List.cons.inj stacked).2
  cases opened <;>
  · obtain ⟨top, rest⟩ := BraceMachine.closed_of_below below
    rw [top, rest]
    rfl

/-- A course leaves the scopes open in front of it and every scope it enters itself. -/
theorem Course.unwindsTo {openers : List Opener} {ahead rest : List Token} {script : List Step}
    (course : Course openers ahead script rest) {session : Session} {machine : BraceMachine}
    (follows : session.Follows machine) {opened : List ScopeId} {around : ScopeId}
    {beyond : List ScopeId} (stacked : machine.top :: machine.below = opened ++ around :: beyond)
    (matched : opened.length = openers.length) (total : Nat) :
    session.UnwindsTo total opened around script := by
  induction course generalizing session machine opened with
  | done =>
      obtain rfl := List.eq_nil_of_length_eq_zero matched
      exact ⟨.nil around, follows.current.trans (List.cons.inj stacked).1⟩
  | taken _ _ inductionHypothesis => exact inductionHypothesis follows stacked matched
  | @remark _ _ _ _ step remarks _ inductionHypothesis =>
      have still : step.brace? = none := by cases step <;> first | rfl | exact remarks.elim
      have same := follows.after step
      rw [still] at same
      exact .aside still (inductionHypothesis same stacked matched)
  | statement _ _ inductionHypothesis =>
      exact .aside rfl (inductionHypothesis follows stacked matched)
  | enter kind _ inductionHypothesis =>
      exact .enter follows stacked kind (inductionHypothesis (follows.opened kind)
        (follows.stacked_opened stacked) (congrArg Nat.succ matched))
  | openBlock _ inductionHypothesis =>
      exact .enter follows stacked .block (inductionHypothesis (follows.opened .block)
        (follows.stacked_opened stacked) (congrArg Nat.succ matched))
  | leave _ inductionHypothesis | closeBlock _ inductionHypothesis =>
      obtain _ | ⟨scope, opened⟩ := opened
      · cases matched
      exact .leave follows stacked (inductionHypothesis follows.closed
        (BraceMachine.stacked_closed stacked) (Nat.succ.inj matched))

/-- The scopes that a script enters have the next numbers in turn. -/
theorem Session.entered_events (session : Session) (total : Nat) (script : List Step) :
    ∃ entered, (session.events total script).filterMap Event.entered? =
      List.range' session.scopes.size entered := by
  induction script generalizing session with
  | nil => exact ⟨0, rfl⟩
  | cons step script inductionHypothesis =>
      obtain ⟨entered, further⟩ := inductionHypothesis (session.after step)
      rw [events, List.filterMap_append, further]
      cases step with
      | enter | openBlock =>
          refine ⟨entered + 1, ?_⟩
          rw [after, enter, ScopeTable.size_enter, List.range'_succ]
          rfl
      | declare =>
          refine ⟨entered, ?_⟩
          rw [after, ScopeTable.size_bound]
          simp [observe, Event.entered?]
      | _ => exact ⟨entered, by simp [observe, Event.entered?, after, leave]⟩

section OpenBlocks

/-- The number of open blocks, as far as the body being read is concerned, and the numbers that
were put aside where a construct entered its scope. -/
structure OpenBlocks where
  count : Nat
  saved : List Nat

namespace OpenBlocks

/-- A lone brace is counted. What a construct finds open it puts aside and restores, however
it ends. -/
def after (blocks : OpenBlocks) : Step → OpenBlocks
  | .openBlock => ⟨blocks.count + 1, blocks.saved⟩
  | .closeBlock => ⟨blocks.count - 1, blocks.saved⟩
  | .enter _ => ⟨blocks.count, blocks.count :: blocks.saved⟩
  | .leave =>
    match blocks.saved with
    | [] => blocks
    | outer :: saved => ⟨outer, saved⟩
  | _ => blocks

/-- The open blocks after a script. -/
def run (blocks : OpenBlocks) (script : List Step) : OpenBlocks := script.foldl after blocks

/-- The open blocks after openers have closed their scopes. -/
def close (blocks : OpenBlocks) : List Opener → OpenBlocks
  | [] => blocks
  | .construct :: openers => (blocks.after .leave).close openers
  | .brace :: openers => (blocks.after .closeBlock).close openers

end OpenBlocks

/-- A course closes the blocks open in front of it and every block it opens itself. -/
theorem Course.run_openBlocks {openers : List Opener} {ahead rest : List Token}
    {script : List Step} (course : Course openers ahead script rest) (blocks : OpenBlocks) :
    blocks.run script = blocks.close openers := by
  induction course generalizing blocks with
  | done => rfl
  | taken _ _ inductionHypothesis => exact inductionHypothesis blocks
  | @remark _ _ _ _ step remarks _ inductionHypothesis =>
      cases step <;> first | exact inductionHypothesis blocks | exact remarks.elim
  | statement _ _ inductionHypothesis => exact inductionHypothesis blocks
  | enter kind _ inductionHypothesis =>
      exact inductionHypothesis (blocks.after (.enter kind))
  | leave _ inductionHypothesis => exact inductionHypothesis (blocks.after .leave)
  | openBlock _ inductionHypothesis => exact inductionHypothesis (blocks.after .openBlock)
  | closeBlock _ inductionHypothesis => exact inductionHypothesis (blocks.after .closeBlock)

end OpenBlocks

/-- The script of a statement that is not a lone brace is a course, whatever becomes of the
statement. -/
theorem Grammar.Dispatched.course {stop : Terminator} {first : Token} {tail : List Token}
    {outcome : Outcome Grammar.Item} (dispatched : Dispatched stop (first :: tail) outcome)
    (unopened : first.toLexeme ≠ .op "\x7b") (unclosed : first.toLexeme ≠ .op "\x7d") :
    (∃ rest, Course [] (first :: tail) outcome.script rest) ∧
      ∀ item rest, outcome.result = .ok (item, rest) →
        ∀ openBlocks, item.openAfter openBlocks = openBlocks := by
  obtain ⟨script, failure | ⟨item, rest⟩⟩ := outcome
  · exact ⟨dispatched.1, nofun⟩
  · cases dispatched with
    | opened _ brace => exact absurd brace unopened
    | closed _ brace => exact absurd brace unclosed
    | whole _ _ keeps course =>
        refine ⟨⟨rest, .statement first course⟩, ?_⟩
        rintro _ _ ⟨⟩
        exact keeps

/-- What a body counts as open behind an item is what the steps of the item have left open. -/
theorem Grammar.ItemCourse.run_openBlocks {ahead rest : List Token} {script : List Step}
    {item : Grammar.Item} (course : ItemCourse ahead script item rest) (blocks : OpenBlocks) :
    blocks.run script = ⟨item.openAfter blocks.count, blocks.saved⟩ := by
  cases course with
  | opened | closed => rfl
  | whole _ _ keeps course =>
      rw [keeps]
      exact course.run_openBlocks blocks

/-- Wherever a statement other than a lone brace is read, and whether it can be read or not,
the scope that was current and the blocks that were open are so again behind it. The scopes
it enters it leaves, in pairs and each of them once, and no others. -/
theorem statement_pairs_scopes (builtins : List Symbol) (before : List Step) (stop : Terminator)
    {first : Token} {tail : List Token} {tokens : Nat} (total : Nat)
    (enough : (first :: tail).length ≤ tokens) (unopened : first.toLexeme ≠ .op "\x7b")
    (unclosed : first.toLexeme ≠ .op "\x7d") :
    let session := (Session.start builtins).run before
    let outcome := Grammar.statementWithin tokens stop (first :: tail)
    let events := session.events total outcome.script
    (session.run outcome.script).current = session.current ∧
      (∀ blocks : OpenBlocks, blocks.run outcome.script = blocks) ∧
      (∀ item rest, outcome.result = .ok (item, rest) →
        ∀ openBlocks, item.openAfter openBlocks = openBlocks) ∧
      Paired session.current events ∧
      (events.filterMap Event.entered?).Nodup ∧
      (events.filterMap Event.exited?).Perm (events.filterMap Event.entered?) := by
  intro session outcome events
  have dispatched := (Grammar.dispatchesInStep_statementWithin enough enough stop (first :: tail)
    (List.cons_ne_nil _ _) (Nat.le_refl _)).2
  obtain ⟨⟨rest, course⟩, keeps⟩ := dispatched.course unopened unclosed
  have follows := (Session.Follows.start builtins).run before
  have unwinds : session.UnwindsTo total [] _ outcome.script :=
    course.unwindsTo follows rfl rfl total
  rw [← follows.current] at unwinds
  obtain ⟨paired, ended⟩ := unwinds
  obtain ⟨entered, numbered⟩ := session.entered_events total outcome.script
  refine ⟨ended, course.run_openBlocks, keeps, paired, ?_, paired.perm⟩
  rw [numbered]
  exact List.nodup_range'

/-- A loop whose body ends inside two blocks, read behind a block that is still open. -/
theorem statement_pairs_scopes_failing :
    let first := (Lexeme.keyword "while").token .start
    let tail := [Lexeme.op "(", .name "x", .op ")", .op "\x7b", .op "\x7b", .op "\x7b",
      .semicolon].map (·.token .start)
    let session := (Session.start []).run [.openBlock]
    let outcome := Grammar.statementWithin 8 ⟨.start, []⟩ (first :: tail)
    let events := session.events 9 outcome.script
    outcome.result =
        .error ⟨.missing .closeBrace (.after .whileLoop) .endOfInput, .start⟩ ∧
      (session.run outcome.script).current = 1 ∧
      events.filterMap Event.entered? = [2, 3, 4] ∧ events.filterMap Event.exited? = [4, 3, 2] ∧
      Paired 1 events := by
  intro first tail session outcome events
  have current : session.current = 1 := rfl
  obtain ⟨ended, _, _, paired, _⟩ := statement_pairs_scopes [] [.openBlock] ⟨.start, []⟩ 9
    (Nat.le_refl (first :: tail).length) (by decide) (by decide)
  refine ⟨rfl, ended.trans current, ?_, ?_, current ▸ paired⟩
  · decide
  · decide

end BraceLang
