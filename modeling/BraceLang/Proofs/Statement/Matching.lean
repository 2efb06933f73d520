import BraceLang.Proofs.Lockstep.Loops
import BraceLang.Proofs.Scope.Pairing

/-!
# A body ends at its own brace

The statements of a body count the blocks that lone braces open among them, and the braces of the
constructs inside are taken by their readers. `behindPartner` knows of none of that. It counts
the braces behind an opening one until that one is closed. Both stop at the same brace, so what
stands in a body is what stands between two braces that match.
-/

namespace BraceLang

open Grammar Scripted

/-- The tokens behind the closing brace that matches an opening one in front, with `depth` more
braces still to be closed first. -/
def behindPartner : (depth : Nat) → List Token → Option (List Token)
  | _, [] => none
  | depth, first :: rest =>
    match first.toLexeme.brace? with
    | none => behindPartner depth rest
    | some .opened => behindPartner (depth + 1) rest
    | some .closed => if depth = 0 then some rest else behindPartner (depth - 1) rest

theorem Lexeme.eq_of_brace?_opened {lexeme : Lexeme} (found : lexeme.brace? = some .opened) :
    lexeme = .op "\x7b" := by
  by_contra other
  rw [brace?, if_neg other] at found
  split at found <;> cases found

theorem Lexeme.eq_of_brace?_closed {lexeme : Lexeme} (found : lexeme.brace? = some .closed) :
    lexeme = .op "\x7d" := by
  by_contra other
  rw [brace?, if_neg other] at found
  split at found <;> cases found

/-- Whatever braces are still to be closed, balanced tokens are passed over. -/
theorem Balanced.behindPartner_append {inside : List Token} (balanced : Balanced inside)
    (depth : Nat) (rest : List Token) :
    behindPartner depth (inside ++ rest) = behindPartner depth rest := by
  induction balanced generalizing depth rest with
  | nil => rfl
  | other plain _ inductionHypothesis =>
      rw [List.cons_append, behindPartner, plain]
      exact inductionHypothesis depth rest
  | @nested inside others opening closing _ _ insidePassed othersPassed =>
      calc
        behindPartner depth ((Lexeme.op "\x7b").token opening ::
            (inside ++ (Lexeme.op "\x7d").token closing :: others) ++ rest)
          = behindPartner (depth + 1)
              (inside ++ (Lexeme.op "\x7d").token closing :: (others ++ rest)) := by
            simp [behindPartner]
        _ = behindPartner depth (others ++ rest) := by
            rw [insidePassed]
            simp [behindPartner]
        _ = behindPartner depth rest := othersPassed depth rest

/-- In front of the partner of a brace the tokens are balanced. -/
theorem exists_balanced_of_behindPartner {depth : Nat} {tail rest : List Token}
    (found : behindPartner depth tail = some rest) :
    ∃ inside closing others, tail = inside ++ (Lexeme.op "\x7d").token closing :: others ∧
      Balanced inside ∧
      (if depth = 0 then some others else behindPartner (depth - 1) others) = some rest := by
  induction bound : tail.length using Nat.strong_induction_on generalizing depth tail with
  | h bound inductionHypothesis =>
      subst bound
      obtain _ | ⟨⟨lexeme, place⟩, tail⟩ := tail
      · cases found
      rw [behindPartner] at found
      cases known : lexeme.brace? with
      | none =>
          rw [known] at found
          obtain ⟨inside, closing, others, rfl, balanced, ended⟩ :=
            inductionHypothesis _ (Nat.lt_succ_self _) found rfl
          exact ⟨_, closing, others, rfl, .other known balanced, ended⟩
      | some brace =>
          cases brace with
          | opened =>
              obtain rfl := Lexeme.eq_of_brace?_opened known
              obtain ⟨nested, middleClosing, middle, rfl, balancedNested, further⟩ :=
                inductionHypothesis _ (Nat.lt_succ_self _) found rfl
              obtain ⟨inside, closing, others, rfl, balanced, ended⟩ :=
                inductionHypothesis middle.length (by simp; omega) further rfl
              refine ⟨_, closing, others, ?_, .nested place middleClosing balancedNested balanced,
                ended⟩
              simp [Lexeme.token]
          | closed =>
              obtain rfl := Lexeme.eq_of_brace?_closed known
              exact ⟨[], place, tail, rfl, .nil, found⟩

/-- The partner of an opening brace is the closing one behind balanced tokens. -/
theorem behindPartner_eq_some_iff {tail rest : List Token} :
    behindPartner 0 tail = some rest ↔
      ∃ inside closing, tail = inside ++ (Lexeme.op "\x7d").token closing :: rest ∧
        Balanced inside := by
  constructor
  · intro found
    obtain ⟨inside, closing, others, split, balanced, ended⟩ :=
      exists_balanced_of_behindPartner found
    obtain rfl := Option.some.inj ended
    exact ⟨inside, closing, split, balanced⟩
  · rintro ⟨inside, closing, rfl, balanced⟩
    rw [balanced.behindPartner_append]
    rfl

/-- Braces that close `depth` open ones and those they open themselves, and no others. -/
inductive Closing : (depth : Nat) → List Brace → Prop where
  | done : Closing 0 []
  | opened {depth : Nat} {word : List Brace} (further : Closing (depth + 1) word) :
      Closing depth (.opened :: word)
  | closed {depth : Nat} {word : List Brace} (further : Closing depth word) :
      Closing (depth + 1) (.closed :: word)

/-- A course closes the scopes open in front of it and those it opens itself. -/
theorem Course.closing {openers : List Opener} {ahead rest : List Token} {script : List Step}
    (course : Course openers ahead script rest) : Closing openers.length (moves script) := by
  induction course with
  | done => exact .done
  | @remark _ _ _ _ step remarks _ inductionHypothesis =>
      cases step <;> first | exact inductionHypothesis | exact remarks.elim
  | taken _ _ inductionHypothesis | statement _ _ inductionHypothesis => exact inductionHypothesis
  | enter _ _ inductionHypothesis | openBlock _ inductionHypothesis =>
      exact .opened inductionHypothesis
  | leave _ inductionHypothesis | closeBlock _ inductionHypothesis =>
      exact .closed inductionHypothesis

/-- Behind tokens that close what they open and all that is open inside, the next closing brace is
the partner. -/
theorem Closing.behindPartner_eq {depth : Nat} {inside : List Token}
    (closing : Closing depth (braces inside)) (place : Location) (rest : List Token) :
    behindPartner depth (inside ++ (Lexeme.op "\x7d").token place :: rest) = some rest := by
  induction inside generalizing depth with
  | nil =>
      cases closing
      rfl
  | cons first inside inductionHypothesis =>
      rw [braces_cons] at closing
      rw [List.cons_append, behindPartner]
      cases found : first.toLexeme.brace? with
      | none =>
          rw [found] at closing
          exact inductionHypothesis closing
      | some brace =>
          rw [found] at closing
          cases closing with
          | opened further => exact inductionHypothesis further
          | closed further => exact inductionHypothesis further

/-- Statements or members that are in braces end at the partner of the opening one. -/
theorem Course.behindPartner_eq {ahead last rest : List Token} {script : List Step}
    {place : Location} (course : Course [] ahead script last)
    (suffix : (Lexeme.op "\x7d").token place :: rest <:+ ahead)
    (same : braces ahead = moves script ++ [.closed] ++ braces rest) :
    behindPartner 0 ahead = some rest := by
  obtain ⟨inside, rfl⟩ := suffix
  have word : braces inside = moves script := by simpa using same
  exact Closing.behindPartner_eq (word ▸ course.closing) place rest

section Openers

/-- Who has to close the scopes open behind a step, the innermost first. -/
def Step.openersAfter (openers : List Opener) : Step → List Opener
  | .enter _ => .construct :: openers
  | .openBlock => .brace :: openers
  | .leave => openers.tail
  | .closeBlock => openers.tail
  | _ => openers

/-- Who has to close the scopes that a script leaves open, the innermost first. -/
def openersAfter (openers : List Opener) (script : List Step) : List Opener :=
  script.foldl Step.openersAfter openers

/-- On a course, what closes a block closes the innermost scope that is open, which a lone brace
has opened. -/
theorem Course.head_openersAfter {openers : List Opener} {ahead rest : List Token}
    {script front back : List Step} (course : Course openers ahead script rest)
    (split : script = front ++ .closeBlock :: back) :
    (openersAfter openers front).head? = some .brace := by
  induction course generalizing front with
  | done => simp at split
  | taken _ _ inductionHypothesis => exact inductionHypothesis split
  | closeBlock _ inductionHypothesis =>
      obtain _ | ⟨first, front⟩ := front
      · rfl
      · obtain ⟨rfl, others⟩ := List.cons.inj split
        exact inductionHypothesis others
  | @remark _ _ _ _ step remarks _ inductionHypothesis =>
      obtain _ | ⟨first, front⟩ := front
      · obtain ⟨rfl, -⟩ := List.cons.inj split
        exact remarks.elim
      · obtain ⟨rfl, others⟩ := List.cons.inj split
        have closed := inductionHypothesis others
        cases step <;> first | exact closed | exact remarks.elim
  | statement _ _ inductionHypothesis
  | enter _ _ inductionHypothesis
  | leave _ inductionHypothesis
  | openBlock _ inductionHypothesis =>
      obtain _ | ⟨first, front⟩ := front
      · cases (List.cons.inj split).1
      · obtain ⟨rfl, others⟩ := List.cons.inj split
        have closed := inductionHypothesis others
        exact closed

end Openers

/-- What is read behind an opening brace, with `tail` behind that brace, ends at its partner, or
fails if there is none. Either way the scope and the blocks around it are as they were, and a
block that is closed has been opened by a lone brace inside. -/
structure EndsAtPartner {α : Type} (session : Session) (tail : List Token)
    (outcome : Outcome α) : Prop where
  partner : ∀ value rest, outcome.result = .ok (value, rest) → behindPartner 0 tail = some rest
  failure : behindPartner 0 tail = none → ∃ error, outcome.result = .error error
  current : (session.run outcome.script).current = session.current
  blocks : ∀ blocks : OpenBlocks, blocks.run outcome.script = blocks
  closes : ∀ front back, outcome.script = front ++ .closeBlock :: back →
    (openersAfter [] front).head? = some .brace

theorem EndsAtPartner.of_course {α : Type} {session : Session} {machine : BraceMachine}
    {ahead rest tail : List Token} {outcome : Outcome α} (follows : session.Follows machine)
    (course : Course [] ahead outcome.script rest)
    (partner : ∀ value rest, outcome.result = .ok (value, rest) →
      behindPartner 0 tail = some rest) : EndsAtPartner session tail outcome where
  partner := partner
  failure missing := by
    rcases found : outcome.result with error | ⟨value, rest⟩
    · exact ⟨error, rfl⟩
    · rw [partner value rest found] at missing
      cases missing
  current := by
    have unwinds : session.UnwindsTo 0 [] machine.top outcome.script :=
      course.unwindsTo follows rfl rfl 0
    exact unwinds.2.trans follows.current.symm
  blocks := course.run_openBlocks
  closes _ _ := course.head_openersAfter

theorem Scripted.reads_of_result {α : Type} {reader : Scripted α} {stop : Terminator}
    {ahead rest : List Token} {value : α} (found : (reader stop ahead).result = .ok (value, rest)) :
    Reads reader stop ahead (reader stop ahead).script value rest :=
  congrArg (Outcome.mk _) found

theorem Scripted.Ran.course {α : Type} {openers : List Opener} {stop : Terminator}
    {ahead kept : List Token} {outcome : Outcome α} (ran : Ran openers stop ahead kept outcome) :
    ∃ rest, Course openers kept outcome.script rest := by
  obtain ⟨script, failure | ⟨value, rest⟩⟩ := outcome
  · exact ran.1
  · exact ⟨rest, ran⟩

namespace Grammar

variable {inner : Scripted Item} {bound : Nat} {stop : Terminator} {ahead rest tail : List Token}
  {script : List Step} {nodes : List Node}

/-- The statements of a body are read one after another, up to its closing brace. -/
theorem runs_of_bodyRest (dispatches : DispatchesInStep bound inner inner) {kind : Body}
    {rounds openBlocks : Nat}
    (reads : Reads (bodyRest inner kind rounds openBlocks) stop ahead script nodes rest)
    (enough : ahead.length ≤ rounds) (within : ahead.length ≤ bound) :
    ∃ items closing, (Lexeme.op "\x7d").token closing :: rest <:+ ahead ∧
      Runs (topLevel inner) stop ahead script items ((Lexeme.op "\x7d").token closing :: rest) ∧
      nodes = items.flatMap Item.nodes := by
  induction rounds generalizing openBlocks ahead script nodes with
  | zero =>
      obtain ⟨⟨closing, rfl⟩, _, _⟩ := reads_bodyEnd.mp reads
      exact absurd enough (by simp)
  | succ rounds inductionHypothesis =>
      rcases reads_bodyRest_succ.mp reads with ⟨_, ⟨closing, rfl⟩, rfl, rfl⟩ |
        ⟨nonempty, _, front, item, middle, first, back, ⟨others, further, rfl⟩, rfl⟩
      · exact ⟨[], closing, List.suffix_refl _, .nil, rfl⟩
      · have dispatched := (dispatches stop ahead nonempty within).2
        rw [first] at dispatched
        have shorter := ItemCourse.length_lt dispatched
        obtain ⟨items, closing, suffix, runs, rfl⟩ :=
          inductionHypothesis further (by omega) (by omega)
        have passed : middle <:+ ahead :=
          (ItemCourse.suffix dispatched).trans (List.tail_suffix ahead)
        exact ⟨item :: items, closing, suffix.trans passed,
          .cons (reads_topLevel_some.mpr ⟨nonempty, first⟩) runs, rfl⟩

/-- A body that is read ends at the partner of its opening brace. -/
theorem partner_of_body {kind : Body} {tokens : Nat} {opening : Location}
    (enough : tail.length ≤ tokens)
    (reads : Reads (body (statementWithin tokens) kind) stop
      ((Lexeme.op "\x7b").token opening :: tail) script nodes rest) :
    behindPartner 0 tail = some rest ∧
      ∃ items closing, Runs (topLevel (statementWithin tokens)) stop tail script items
          ((Lexeme.op "\x7d").token closing :: rest) ∧ nodes = items.flatMap Item.nodes := by
  have dispatches := dispatchesInStep_statementWithin enough enough
  obtain ⟨_, inside, split, taken⟩ :=
    takes_of_body (soundWithin_statementWithin tokens) reads (Nat.succ_le_succ enough)
  obtain ⟨_, rfl⟩ := List.cons.inj split
  obtain ⟨_, ⟨_, again⟩, restReads⟩ := reads_body.mp reads
  obtain ⟨_, rfl⟩ := List.cons.inj again
  obtain ⟨items, closing, suffix, runs, equal⟩ :=
    runs_of_bodyRest dispatches restReads (Nat.le_refl _) (Nat.le_refl _)
  have ran := (takesInStep_body dispatches kind stop
    ((Lexeme.op "\x7b").token opening :: tail) (Nat.le_refl _)).2
  rw [reads] at ran
  exact ⟨ran.behindPartner_eq suffix taken.braces, items, closing, runs, equal⟩

/-- The members of a class that is read end at the partner of their opening brace. -/
theorem partner_of_classDeclaration {tokens : Nat} {name : String}
    {word namePlace opening : Location} {node : Node} (enough : tail.length ≤ tokens)
    (reads : Reads (classDeclaration (statementWithin tokens)) stop
      ((Lexeme.keyword "class").token word :: (Lexeme.name name).token namePlace ::
        (Lexeme.op "\x7b").token opening :: tail) script node rest) :
    behindPartner 0 tail = some rest ∧
      ∃ inside members closing, Runs (member (statementWithin tokens) name) stop tail inside
          members ((Lexeme.op "\x7d").token closing :: rest) ∧
        script = .declare ⟨name, "class", .className⟩ namePlace ::
          .enter .classBody :: (inside ++ [.leave]) ∧
        node = .classDecl name (members.filterMap Member.field?)
          (members.filterMap Member.method?) word := by
  obtain ⟨_, _, _, ⟨_, split⟩, inside, ⟨members, ⟨closing, repeats⟩, rfl⟩, rfl⟩ :=
    reads_classDeclaration.mp reads
  obtain ⟨named, split⟩ := List.cons.inj split
  obtain ⟨_, rfl⟩ := List.cons.inj split
  obtain ⟨rfl, rfl⟩ : name = _ ∧ namePlace = _ := by simpa [Lexeme.token, Lexeme.name] using named
  have runs := (Runs.of_collect (fun declined => (reads_member_none.mp declined).2.symm)
    (Scripted.reads_repeated.mp repeats)).1
  have taken := takes_of_members (soundWithin_statementWithin tokens) runs enough
  have dispatches := dispatchesInStep_statementWithin enough enough
  have ran := ((inStep_member dispatches name).repeated stop tail (Nat.le_refl _)).2
  rw [repeats] at ran
  exact ⟨ran.behindPartner_eq ran.suffix taken.braces, inside, members, closing, runs, rfl, rfl⟩

end Grammar

/-- A body and the members of a class, wherever they are read, end at the closing brace that
matches their opening one, and fail if no such brace is in front of the end of input. The scope
and the open blocks are those in front of them again, and a closing brace inside closes the block
that was opened last by a lone one. In between stand the statements, or the members, one after
another. -/
theorem bodies_end_at_own_brace (builtins : List Symbol) (before : List Step) (stop : Terminator)
    {tail : List Token} {tokens : Nat} (enough : tail.length ≤ tokens) (opening : Location) :
    let session := (Session.start builtins).run before
    let brace := (Lexeme.op "\x7b").token opening
    (∀ kind,
      let outcome := body (statementWithin tokens) kind stop (brace :: tail)
      EndsAtPartner session tail outcome ∧
        ∀ nodes rest, outcome.result = .ok (nodes, rest) →
          ∃ items closing, Runs (topLevel (statementWithin tokens)) stop tail outcome.script items
              ((Lexeme.op "\x7d").token closing :: rest) ∧
            nodes = items.flatMap Item.nodes) ∧
      ∀ name word namePlace,
        let outcome := classDeclaration (statementWithin (tokens + 2)) stop
          ((Lexeme.keyword "class").token word :: (Lexeme.name name).token namePlace ::
            brace :: tail)
        EndsAtPartner session tail outcome ∧
          ∀ node rest, outcome.result = .ok (node, rest) →
            ∃ inside members closing, Runs (member (statementWithin (tokens + 2)) name) stop tail
                inside members ((Lexeme.op "\x7d").token closing :: rest) ∧
              outcome.script = .declare ⟨name, "class", .className⟩ namePlace ::
                .enter .classBody :: (inside ++ [.leave]) ∧
              node = .classDecl name (members.filterMap Member.field?)
                (members.filterMap Member.method?) word := by
  intro session brace
  have follows := (Session.Follows.start builtins).run before
  constructor
  · intro kind outcome
    have dispatches := dispatchesInStep_statementWithin enough enough
    obtain ⟨_, course⟩ :=
      (takesInStep_body dispatches kind stop (brace :: tail) (Nat.le_refl _)).2.course
    have found {nodes rest} (ended : outcome.result = .ok (nodes, rest)) :=
      partner_of_body enough (Scripted.reads_of_result ended)
    exact ⟨.of_course follows course fun _ _ ended => (found ended).1,
      fun _ _ ended => (found ended).2⟩
  · intro name word namePlace outcome
    have enoughInside : tail.length + 2 ≤ tokens + 2 := Nat.add_le_add_right enough 2
    have dispatches := dispatchesInStep_statementWithin enoughInside enoughInside
    obtain ⟨_, course⟩ := (takesInStep_classDeclaration dispatches stop
      ((Lexeme.keyword "class").token word :: (Lexeme.name name).token namePlace :: brace :: tail)
      (Nat.le_refl _)).2.course
    have found {node rest} (ended : outcome.result = .ok (node, rest)) :=
      partner_of_classDeclaration (Nat.le_of_add_right_le enoughInside)
        (Scripted.reads_of_result ended)
    exact ⟨.of_course follows course fun _ _ ended => (found ended).1,
      fun _ _ ended => (found ended).2⟩

/-- A body with a block in it, read behind a block that is still open. -/
theorem bodies_end_at_own_brace_nested :
    let tail := [Lexeme.op "\x7b", .keyword "break", .op "\x7d", .op "\x7d", .op "\x7d"].map
      (·.token .start)
    let session := (Session.start []).run [.openBlock]
    let outcome := body (statementWithin 5) .whileLoop ⟨.start, []⟩
      ((Lexeme.op "\x7b").token .start :: tail)
    outcome.result = .ok ([.breakStmt .start], [(Lexeme.op "\x7d").token .start]) ∧
      behindPartner 0 tail = some [(Lexeme.op "\x7d").token .start] ∧
      (session.run outcome.script).current = 1 := by
  intro tail session outcome
  have read : outcome.result = .ok ([.breakStmt .start], [(Lexeme.op "\x7d").token .start]) := rfl
  have enough : tail.length ≤ 5 := Nat.le_refl 5
  have ends := ((bodies_end_at_own_brace [] [.openBlock] ⟨.start, []⟩ enough .start).1 .whileLoop).1
  have current : session.current = 1 := rfl
  exact ⟨read, ends.partner _ _ read, ends.current.trans current⟩

end BraceLang
