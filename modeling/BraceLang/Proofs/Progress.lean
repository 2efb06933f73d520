import Mathlib.Data.List.Infix
import BraceLang.Event
import BraceLang.Proofs.Analysis
import BraceLang.Proofs.Lockstep.Loops
import BraceLang.Proofs.Scope.Growth

/-!
# Every reading comes to an end within its tokens

The bounds in the readers are no part of the language: unrolled deeply enough, statements
and expressions have the outcome they have whatever stands at the bottom, and every loop
ends by itself. A statement or member that is read takes a token. No reading goes beyond
the first end of input, also when it fails, and each statement it comes to begins behind
the one before.
-/

namespace BraceLang

open Grammar Reader Scripted

section Boundless

/-- Every loop of the grammar takes tokens until it ends by itself, and so does a body. -/
structure LoopsEnd (bound : Nat) : Prop where
  arguments : Reader.Unbounded bound (furtherArgument (expressionWithin bound))
  selectors : Reader.Unbounded bound (selector (expressionWithin bound))
  operations : ∀ level (tighter : List Level), Reader.Unbounded bound
    (operation level (tighter.foldr leveled (unary (expressionWithin bound))))
  parameters : Scripted.Unbounded bound furtherParameter
  arms : Scripted.Unbounded bound (furtherArm (statementWithin bound))
  members : ∀ className, Scripted.Unbounded bound (member (statementWithin bound) className)
  statements : Scripted.Unbounded bound (topLevel (statementWithin bound))
  bodies : ∀ kind rounds openBlocks stop (ahead : List Token), ahead.length ≤ bound →
    ahead.length ≤ rounds →
      bodyRest (statementWithin bound) kind rounds openBlocks stop ahead =
        bodyRest (statementWithin bound) kind ahead.length openBlocks stop ahead

theorem loopsEnd (bound : Nat) : LoopsEnd bound := by
  have readers := inStep_expressionWithin (Nat.le_refl bound) (Nat.le_refl bound)
  have dispatches := dispatchesInStep_statementWithin (Nat.le_refl bound) (Nat.le_refl bound)
  exact
    { arguments := (loopsWithin_furtherArgument readers).unbounded
      selectors := (loopsWithin_selector readers).unbounded
      operations := fun level tighter => (loopsWithin_operation
        ((takesInStep_levels tighter readers).inStep.mono (Nat.le_succ bound)) level).unbounded
      parameters := loopsWithin_furtherParameter.unbounded
      arms := (loopsWithin_furtherArm dispatches).unbounded
      members := fun className => (loopsWithin_member dispatches className).unbounded
      statements := (loopsWithin_topLevel dispatches).unbounded
      bodies := fun kind _ _ _ _ within enough =>
        (bodyRest_inStep dispatches kind within enough (Nat.le_refl _)).1 }

/-- Neither statements nor expressions get to the bottom of their nesting, where `base` stands
for whatever a reader that ran out of bounds would do. -/
structure NestingEnds : Prop where
  expressions : ∀ (base : Reader Node) layers stop (ahead : List Token), ahead.length < layers →
    (layer^[layers] base) stop ahead = expression stop ahead
  statements : ∀ (base : Scripted Item) layers stop (ahead : List Token), ahead ≠ [] →
    ahead.length ≤ layers →
      (statement^[layers] base) stop ahead = statementWithin ahead.length stop ahead

theorem nestingEnds : NestingEnds where
  expressions base _ _ _ enough := iterate_layer_eq_expression base enough
  statements base layers stop ahead nonempty enough := by
    rw [statementWithin_eq_iterate]
    exact (dispatchesInStep_iterate_statement base _ enough (Nat.le_refl _) stop ahead nonempty
      (Nat.le_refl _)).1

end Boundless

section Steps

variable {α : Type}

/-- A reading takes a token of those ahead, or fails at one of them or at their end. -/
def Advances (stop : Terminator) (ahead : List Token) :
    Except SyntaxError (α × List Token) → Prop
  | .ok (_, rest) => rest <:+ ahead ∧ rest.length < ahead.length
  | .error error => error.IsWithin stop ahead

variable {bound : Nat} {stop : Terminator} {ahead : List Token}

theorem statement_advances (nonempty : ahead ≠ []) (within : ahead.length ≤ bound) :
    Advances stop ahead (statementWithin bound stop ahead).result := by
  have dispatched := (dispatchesInStep_statementWithin within within stop ahead nonempty
    (Nat.le_refl _)).2
  rcases outcome : statementWithin bound stop ahead with ⟨script, failure | ⟨item, rest⟩⟩
  · rw [outcome] at dispatched
    exact dispatched.2
  · rw [outcome] at dispatched
    exact ⟨(ItemCourse.suffix dispatched).trans (List.tail_suffix ahead),
      ItemCourse.length_lt dispatched⟩

/-- A member that is looked for where the class is not at its end is not declined either. -/
theorem member_advances (className : String) (nonempty : ahead ≠ [])
    (inside : ¬ (Lexeme.op "\x7d").Starts ahead) (within : ahead.length ≤ bound) :
    Advances stop ahead (member (statementWithin bound) className stop ahead).result ∧
      ∀ rest, (member (statementWithin bound) className stop ahead).result ≠ .ok (none, rest) := by
  have dispatches := dispatchesInStep_statementWithin (Nat.le_refl bound) (Nat.le_refl bound)
  have ran := (inStep_member dispatches className stop ahead within).2
  rcases outcome : member (statementWithin bound) className stop ahead with
    ⟨script, failure | ⟨_ | found, rest⟩⟩
  · rw [outcome] at ran
    exact ⟨ran.2, nofun⟩
  · obtain ⟨ended | closed, _⟩ := reads_member_none.mp outcome
    · exact absurd ended nonempty
    · exact absurd closed inside
  · rw [outcome] at ran
    exact ⟨⟨Course.suffix ran, (loopsWithin_member dispatches className).takes within outcome⟩,
      nofun⟩

end Steps

section Run

/-- The statement that an event is the beginning of, and where it begins. -/
def Event.dispatched? : Event → Option (Lexeme × Nat)
  | .statement lexeme index => some (lexeme, index)
  | _ => none

/-- A run of statements along tokens takes all of them, or fails at one of them or at their end. -/
structure RanThrough {α : Type} (stop : Terminator) (ahead : List Token) (outcome : Outcome α) :
    Prop where
  marks : ∃ rest, Marks ahead outcome.script rest
  exhausts : ∀ value rest, outcome.result = .ok (value, rest) → rest = []
  isWithin : ∀ error, outcome.result = .error error → error.IsWithin stop ahead

variable {bound : Nat} {stop : Terminator} {ahead rest : List Token} {script : List Step}

theorem Grammar.ItemCourse.marks {item : Item} (course : ItemCourse ahead script item rest) :
    Marks ahead script rest := by
  cases course with
  | opened | closed => exact List.Sublist.refl _
  | whole _ _ _ course => exact (Course.statement _ course).marks

/-- Behind a statement of a program, the others take the tokens that are left. -/
theorem RanThrough.after {α : Type} {front : List Step} {outcome : Outcome α}
    (marks : Marks ahead front rest) (suffix : rest <:+ ahead)
    (ran : RanThrough stop rest outcome) :
    RanThrough stop ahead ⟨front ++ outcome.script, outcome.result⟩ where
  marks := by
    obtain ⟨last, others⟩ := ran.marks
    exact ⟨last, marks.trans others⟩
  exhausts := ran.exhausts
  isWithin error failed := (ran.isWithin error failed).mono suffix

theorem RanThrough.map {α β : Type} {reader : Scripted α} (make : α → β)
    (ran : RanThrough stop ahead (reader stop ahead)) :
    RanThrough stop ahead ((reader >>= fun value => pure (make value)) stop ahead) := by
  rw [bind_pure_eq]
  refine ⟨ran.marks, fun value rest read => ?_, fun error failed => ?_⟩
  · cases outcome : (reader stop ahead).result with
    | error failure =>
        rw [outcome] at read
        cases read
    | ok pair =>
        rw [outcome] at read
        cases read
        exact ran.exhausts pair.1 pair.2 outcome
  · cases outcome : (reader stop ahead).result with
    | error failure =>
        rw [outcome] at failed
        cases failed
        exact ran.isWithin _ outcome
    | ok pair =>
        rw [outcome] at failed
        cases failed

/-- Where no tokens are left, nothing more is done. -/
theorem RanThrough.nil {α : Type} (stop : Terminator) (value : α) :
    RanThrough stop [] ⟨[], .ok (value, [])⟩ where
  marks := ⟨[], List.Sublist.refl _⟩
  exhausts := by
    rintro _ _ ⟨⟩
    rfl
  isWithin := by rintro _ ⟨⟩

theorem ranThrough_collect {inner : Scripted Item}
    (dispatches : DispatchesInStep bound inner inner) {rounds : Nat}
    (within : ahead.length ≤ bound) (enough : ahead.length ≤ rounds) :
    RanThrough stop ahead (collect (topLevel inner) rounds stop ahead) := by
  induction rounds generalizing ahead with
  | zero =>
      obtain rfl : ahead = [] := List.eq_nil_of_length_eq_zero (Nat.le_zero.mp enough)
      exact .nil stop []
  | succ rounds inductionHypothesis =>
      obtain _ | ⟨first, tail⟩ := ahead
      · exact .nil stop []
      have dispatched := (dispatches stop (first :: tail) (List.cons_ne_nil _ _) within).2
      have taken := topLevel_cons inner stop first tail
      rcases outcome : inner stop (first :: tail) with ⟨script, failure | ⟨item, rest⟩⟩
      · rw [outcome] at dispatched
        obtain ⟨⟨rest, course⟩, located⟩ := dispatched
        rw [bind_error outcome] at taken
        rw [collect, bind_error taken]
        refine ⟨⟨rest, course.marks⟩, ?_, ?_⟩
        · rintro _ _ ⟨⟩
        · rintro _ ⟨⟩
          exact located
      · rw [outcome] at dispatched
        have shorter := ItemCourse.length_lt dispatched
        have further : RanThrough stop rest (collect (topLevel inner) rounds stop rest) :=
          inductionHypothesis (by omega) (by omega)
        rw [bind_ok outcome] at taken
        rw [collect_some rounds taken]
        refine RanThrough.after ?_ ?_ (further.map _)
        · exact (List.append_nil script).symm ▸ ItemCourse.marks dispatched
        · exact (ItemCourse.suffix dispatched).trans (List.tail_suffix _)

/-- A program takes all tokens ahead, or fails at one of them or at their end; so does its
reading. -/
theorem ranThrough_program (stop : Terminator) (ahead : List Token) :
    RanThrough stop ahead (program stop ahead) := by
  have dispatches :=
    dispatchesInStep_statementWithin (Nat.le_refl ahead.length) (Nat.le_refl ahead.length)
  have repeats : RanThrough stop ahead
      (repeated (topLevel (statementWithin ahead.length)) stop ahead) :=
    ranThrough_collect dispatches (Nat.le_refl _) (Nat.le_refl _)
  exact repeats.map _

end Run

section Positions

variable {ahead rest : List Token} {script : List Step}

/-- Counted from the front, the tokens stand at the positions of the list. -/
theorem positions_eq_zipIdx (total : Nat) (ahead : List Token) (within : ahead.length ≤ total) :
    (positions ahead).map (fun (lexeme, left) => (lexeme, total - left)) =
      (ahead.map (·.toLexeme)).zipIdx (total - ahead.length) := by
  induction ahead with
  | nil => rfl
  | cons first rest inductionHypothesis =>
      rw [List.length_cons] at within
      have next : total - rest.length = total - (rest.length + 1) + 1 := by omega
      rw [positions, List.map_cons, List.map_cons, List.zipIdx_cons, List.length_cons,
        inductionHypothesis (by omega), next]

/-- The statements in the log of a script are those the script marks. -/
theorem dispatched_events (total : Nat) (session : Session) (script : List Step) :
    (session.events total script).filterMap Event.dispatched? =
      (dispatches script).map (fun (lexeme, left) => (lexeme, total - left)) := by
  induction script generalizing session with
  | nil => rfl
  | cons step script inductionHypothesis =>
      rw [Session.events, List.filterMap_append, inductionHypothesis]
      cases step with
      | declare | check | initial =>
          have quiet (diagnostics : List Diagnostic) :
              (diagnostics.map .diagnosed).filterMap Event.dispatched? = [] := by
            simp [Event.dispatched?]
          rw [Session.observe, quiet]
          · rfl
          all_goals nofun
      | _ => rfl

/-- The statements that are logged begin at tokens of the program, one behind the other. -/
theorem Marks.dispatched (marks : Marks ahead script rest) (session : Session) :
    ((session.events ahead.length script).filterMap Event.dispatched?).Sublist
      (ahead.map (·.toLexeme)).zipIdx := by
  have sublist : (dispatches script).Sublist (positions ahead) :=
    (List.sublist_append_left _ _).trans marks
  have placed := positions_eq_zipIdx ahead.length ahead (Nat.le_refl _)
  rw [Nat.sub_self] at placed
  rw [dispatched_events, ← placed]
  exact sublist.map _

end Positions

section Range

/-- Every number of a scope that a session holds is that of a scope in its table. -/
structure Session.InRange (session : Session) : Prop where
  current : session.current < session.scopes.size
  parents : ∀ id parent, session.scopes.parent? id = some parent →
    id < session.scopes.size ∧ parent < id
  children : ∀ id child, child ∈ session.scopes.children id →
    id < session.scopes.size ∧ child < session.scopes.size
  outward : ∀ id ∈ session.scopes.path session.current, id < session.scopes.size

theorem ScopeTable.lt_size_of_scope_ne {table : ScopeTable} {id : ScopeId}
    (known : table.scope id ≠ .opened .block none) : id < table.size :=
  Nat.lt_of_not_le fun beyond => known (scope_of_size_le beyond)

/-- No script takes a session out of the range of its table. -/
theorem inRange_run (builtins : List Symbol) (script : List Step) :
    ((Session.start builtins).run script).InRange := by
  have rooted := (Session.Rooted.start builtins).run script
  have follows := (Session.Follows.start builtins).run script
  refine ⟨rooted.inside, fun id parent found => ⟨?_, rooted.descending found⟩,
    fun id child member => ⟨?_, ?_⟩, fun id member => ?_⟩
  · refine ScopeTable.lt_size_of_scope_ne fun same => ?_
    rw [ScopeTable.parent?, same] at found
    cases found
  · refine ScopeTable.lt_size_of_scope_ne fun same => ?_
    rw [ScopeTable.children, same] at member
    cases member
  · rw [follows.children] at member
    rw [follows.size]
    exact List.mem_range.mp (List.mem_of_mem_filter member)
  · rw [ScopeTable.path_eq_cons_around] at member
    obtain rfl | around := List.mem_cons.mp member
    · exact rooted.inside
    · exact Nat.lt_trans (rooted.descending.lt_of_mem_around around) rooted.inside

/-- A look ahead looks at a token of the program, at the last one if it would go further. That
one is an end of input, which no test accepts. -/
theorem sees_clamped (distance : Nat) (test : Token → Bool)
    (blind : ∀ token : Token, token.kind = .endOfInput → test token = false) (stop : Terminator)
    (ahead : List Token) :
    let whole := ahead ++ stop.token :: (stop.beyond ++ [stop.token])
    ∃ seen, whole[min distance (whole.length - 1)]? = some seen ∧
      sees distance test stop ahead = .ok (test seen, ahead) := by
  intro whole
  have split : whole = (ahead ++ stop.token :: stop.beyond) ++ [stop.token] := by simp [whole]
  have looked : sees distance test stop ahead =
      .ok (((ahead ++ stop.token :: stop.beyond)[distance]?).any test, ahead) := by
    rw [sees, List.getElem?_append]
    split_ifs with inside
    · rw [List.getElem?_eq_getElem inside]
      rfl
    · rw [List.getElem?_eq_none (Nat.le_of_not_lt inside)]
      rfl
  have length : whole.length - 1 = (ahead ++ stop.token :: stop.beyond).length := by
    rw [split, List.length_append]
    rfl
  rw [looked, length, split]
  by_cases inside : distance < (ahead ++ stop.token :: stop.beyond).length
  · obtain ⟨seen, found⟩ : ∃ seen, (ahead ++ stop.token :: stop.beyond)[distance]? = some seen :=
      ⟨_, List.getElem?_eq_getElem inside⟩
    rw [Nat.min_eq_left (Nat.le_of_lt inside), List.getElem?_append_left inside, found]
    exact ⟨seen, rfl, rfl⟩
  · rw [Nat.min_eq_right (Nat.le_of_not_lt inside), List.getElem?_concat_length,
      List.getElem?_eq_none (Nat.le_of_not_lt inside)]
    exact ⟨stop.token, rfl, by rw [blind stop.token rfl]; rfl⟩

end Range

/-- For all token sequences: no bound decides an outcome. Wherever tokens are left, a statement
or member that is read takes one, and one that fails does so at one of them or at their end.
A program takes all tokens in front of the first end of input or fails within them; the
statements it comes to, inside others too, begin at ever later positions, and no number of a
scope or position of a token it uses on the way is out of range. -/
theorem reading_progresses (builtins : List Symbol) (tokens : List Token) :
    let input := Input.ofTokens tokens
    let reading := Reading.ofTokens tokens
    let dispatched := ((Session.start builtins).events input.ahead.length
      reading.script).filterMap Event.dispatched?
    NestingEnds ∧ (∀ bound, LoopsEnd bound) ∧
      (∀ stop (ahead : List Token) bound, ahead ≠ [] → ahead.length ≤ bound →
        Advances stop ahead (statementWithin bound stop ahead).result) ∧
      (∀ className stop (ahead : List Token) bound, ahead ≠ [] →
        ¬ (Lexeme.op "\x7d").Starts ahead → ahead.length ≤ bound →
          Advances stop ahead (member (statementWithin bound) className stop ahead).result ∧
          ∀ rest, (member (statementWithin bound) className stop ahead).result ≠
            .ok (none, rest)) ∧
      input.ahead = tokens.takeWhile (·.kind ≠ .endOfInput) ∧
      (∀ node rest, (program input.stop input.ahead).result = .ok (node, rest) → rest = []) ∧
      (∀ error, reading.result = .error error → error.IsWithin input.stop input.ahead) ∧
      dispatched.Sublist (input.ahead.map (·.toLexeme)).zipIdx ∧
      dispatched.Pairwise (·.2 < ·.2) ∧
      (∀ before, before <+: reading.script →
        ((Session.start builtins).run before).InRange) ∧
      ∀ distance (test : Token → Bool),
        (∀ token : Token, token.kind = .endOfInput → test token = false) →
        ∀ stop ahead, let whole := ahead ++ stop.token :: (stop.beyond ++ [stop.token])
          ∃ seen, whole[min distance (whole.length - 1)]? = some seen ∧
            sees distance test stop ahead = .ok (test seen, ahead) := by
  intro input reading dispatched
  have ran := ranThrough_program input.stop input.ahead
  obtain ⟨rest, marks⟩ := ran.marks
  have placed := marks.dispatched (Session.start builtins)
  refine ⟨nestingEnds, loopsEnd, fun _ _ _ => statement_advances,
    fun className _ _ _ => member_advances className, Input.ofTokens_ahead tokens, ran.exhausts,
    ?_, placed, ?_, fun before _ => inRange_run builtins before, sees_clamped⟩
  · intro error failed
    refine ran.isWithin error ?_
    change (program input.stop input.ahead).result.map Prod.fst = .error error at failed
    cases read : (program input.stop input.ahead).result with
    | error failure =>
        rw [read] at failed
        obtain rfl := Except.error.inj failed
        rfl
    | ok pair =>
        rw [read] at failed
        cases failed
  · refine List.Pairwise.sublist placed (List.pairwise_map.mp ?_)
    rw [List.zipIdx_map_snd]
    exact List.pairwise_lt_range'

/-- An end of input inside the body of a loop stops the reading there; the brace behind it is
not seen. -/
theorem reading_progresses_cut :
    let tokens := [Lexeme.keyword "while", .op "(", .name "x", .op ")", .op "\x7b",
      .keyword "break", .endOfInput, .op "\x7d"].map (·.token .start)
    let input := Input.ofTokens tokens
    let reading := Reading.ofTokens tokens
    let dispatched := ((Session.start []).events input.ahead.length
      reading.script).filterMap Event.dispatched?
    let failure := ⟨.missing .closeBrace (.after .whileLoop) .endOfInput, .start⟩
    input.ahead.length = 6 ∧ reading.result = .error failure ∧
      failure.IsWithin input.stop input.ahead ∧
      dispatched = [(.keyword "while", 0), (.keyword "break", 5)] ∧
      dispatched.Pairwise (·.2 < ·.2) := by
  intro tokens input reading dispatched failure
  obtain ⟨_, _, _, _, _, _, located, _, increasing, _⟩ := reading_progresses [] tokens
  have failed : reading.result = .error failure := rfl
  exact ⟨rfl, failed, located failure failed, by decide, increasing⟩

end BraceLang
