import BraceLang.Proofs.Statement.Soundness

/-!
# Every statement is read

Whatever a construct takes, its reader hands over. `Readable` says for each construct
what its reader makes of the tokens, given that the bound on inner statements covers
the tokens behind the first; an induction on how the construct takes them shows it,
one lemma for each construct with inner statements.

An else branch is read by a loop over further arms followed by a last body, so what
is said of it is where that loop ends.
-/

namespace BraceLang.Grammar

open Reader Scripted

/-- Further arms up to where none follows, and the else branch behind them. -/
def ReadsOtherwise (inner : Scripted Item) (stop : Terminator) (ahead : List Token)
    (script : List Step) (other : Option (List Node)) (rest : List Token) : Prop :=
  ∃ front arms middle back last,
    Exhausts (furtherArm inner) stop ahead front arms middle ∧
      Reads (elseBranch inner) stop middle back last rest ∧
      other = arms.foldr (fun arm otherwise => some [arm.node otherwise]) last ∧
      script = front ++ back

/-- What the reader of a construct makes of the tokens that the construct takes. -/
def Readable (stop : Terminator) : (construct : Construct) → List Token → List Step →
    construct.Yield → List Token → Prop
  | .statement, ahead, script, item, rest => ∀ tokens, ahead.length ≤ tokens →
      Reads (statementWithin tokens) stop ahead script item rest
  | .marked, ahead, script, item, rest => ∀ tokens, ahead.length ≤ tokens + 1 →
      ∃ first tail, ahead = first :: tail ∧
        Reads (statementFrom (statementWithin tokens) first) stop ahead script item rest
  | .body openBlocks, ahead, script, nodes, rest => ∀ tokens, ahead.length ≤ tokens →
      ∀ kind rounds, ahead.length ≤ rounds →
        Reads (bodyRest (statementWithin tokens) kind rounds openBlocks) stop ahead script nodes
          rest
  | .conditional, ahead, script, node, rest => ∀ tokens, ahead.length ≤ tokens + 1 →
      ∃ place tail front found middle back other,
        ahead = (Lexeme.keyword "if").token place :: tail ∧
          Reads (arm (statementWithin tokens)) stop ahead front found middle ∧
          middle.length < ahead.length ∧
          ReadsOtherwise (statementWithin tokens) stop middle back other rest ∧
          node = found.node other ∧ script = front ++ back
  | .otherwise, ahead, script, other, rest => ∀ tokens, ahead.length ≤ tokens →
      ReadsOtherwise (statementWithin tokens) stop ahead script other rest
  | .method returnType, ahead, script, node, rest => ∀ tokens, ahead.length ≤ tokens + 1 →
      Reads (methodRest (statementWithin tokens) returnType) stop ahead script node rest
  | .members className, ahead, script, members, rest => ∀ tokens, ahead.length ≤ tokens →
      ∃ closing, Exhausts (member (statementWithin tokens) className) stop ahead script members
        ((Lexeme.op "\x7d").token closing :: rest)

namespace Readable

variable {stop : Terminator} {ahead middle rest : List Token} {script front back : List Step}
  {nodes : List Node}

theorem statement {item : Item} (marked : Readable stop .marked ahead script item rest) :
    Readable stop .statement ahead (mark ahead ++ script) item rest := by
  intro tokens enough
  obtain _ | tokens := tokens
  · obtain ⟨first, tail, rfl, _⟩ := marked 0 (by omega)
    exact absurd enough (by simp)
  · obtain ⟨first, tail, rfl, reads⟩ := marked tokens enough
    exact reads_statement.mpr ⟨script, reads, rfl⟩

theorem body {brace : Location} (readable : Readable stop (.body 0) ahead script nodes rest)
    {tokens : Nat} (enough : ahead.length ≤ tokens) (kind : Body) :
    Reads (Grammar.body (statementWithin tokens) kind) stop
      ((Lexeme.op "\x7b").token brace :: ahead) script nodes rest :=
  reads_body.mpr ⟨ahead, ⟨brace, rfl⟩, readable tokens enough kind ahead.length (Nat.le_refl _)⟩

theorem bodyItem {openBlocks : Nat} {item : Item}
    (inside : openBlocks = 0 → ¬ (Lexeme.op "\x7d").Starts ahead)
    (shorter : middle.length < ahead.length)
    (first : Readable stop .statement ahead front item middle)
    (others : Readable stop (.body (item.openAfter openBlocks)) middle back nodes rest) :
    Readable stop (.body openBlocks) ahead (front ++ back) (item.nodes ++ nodes) rest := by
  intro tokens enough kind rounds roundsEnough
  obtain _ | rounds := rounds
  · omega
  · have nonempty : ahead ≠ [] := List.ne_nil_of_length_pos (by omega)
    have further := others tokens (by omega) kind rounds (by omega)
    exact reads_bodyRest_succ.mpr (.inr ⟨nonempty, inside, front, item, middle,
      first tokens enough, back, ⟨nodes, further, rfl⟩, rfl⟩)

theorem arm {guard : Node} {used : List Token} {otherScript : List Step}
    {other : Option (List Node)} (word opening closing brace : Location)
    (guarded : Derives .expression used guard) (shorter : middle.length < ahead.length)
    (body : Readable stop (.body 0) ahead script nodes middle)
    (others : Readable stop .otherwise middle otherScript other rest) :
    Readable stop .conditional
      ((Lexeme.keyword "if").token word :: (Lexeme.op "(").token opening ::
        (used ++ (Lexeme.op ")").token closing :: (Lexeme.op "\x7b").token brace :: ahead))
      (.check guard :: .enter .block :: (script ++ .leave :: otherScript))
      (.ifStmt guard nodes other word) rest := by
  intro tokens enough
  simp only [List.length_append, List.length_cons] at enough
  have first : Reads (Grammar.arm (statementWithin tokens)) stop
      ((Lexeme.keyword "if").token word :: (Lexeme.op "(").token opening ::
        (used ++ (Lexeme.op ")").token closing :: (Lexeme.op "\x7b").token brace :: ahead))
      (.check guard :: .enter .block :: (script ++ [.leave])) ⟨guard, nodes, word⟩ middle :=
    reads_arm.mpr ⟨guard, _, opening, used, ⟨closing, rfl⟩, guarded, nodes, script,
      body.body (by omega) .thenBranch, rfl, rfl⟩
  refine ⟨word, _, _, _, middle, otherScript, other, rfl, first, ?_, others tokens (by omega), rfl,
    by simp⟩
  simp only [List.length_append, List.length_cons]
  omega

theorem noElse (ended : ¬ (Lexeme.keyword "else").Starts rest) :
    Readable stop .otherwise rest [] none rest := by
  intro tokens _
  have declined : Reads (furtherArm (statementWithin tokens)) stop rest [] none rest :=
    reads_furtherArm_none.mpr ⟨fun follows => ended follows.1, rfl, rfl⟩
  exact ⟨[], [], rest, [], none, .done declined, reads_elseBranch.mpr (.inl ⟨ended, rfl, rfl, rfl⟩),
    rfl, rfl⟩

theorem elseBody (word brace : Location)
    (body : Readable stop (.body 0) ahead script nodes rest) :
    Readable stop .otherwise
      ((Lexeme.keyword "else").token word :: (Lexeme.op "\x7b").token brace :: ahead)
      (.enter .block :: (script ++ [.leave])) (some nodes) rest := by
  intro tokens enough
  simp only [List.length_cons] at enough
  have declined : Reads (furtherArm (statementWithin tokens)) stop
      ((Lexeme.keyword "else").token word :: (Lexeme.op "\x7b").token brace :: ahead) [] none _ :=
    reads_furtherArm_none.mpr ⟨by simp [Lexeme.op, Lexeme.keyword], rfl, rfl⟩
  exact ⟨[], [], _, _, _, .done declined, reads_elseBranch.mpr (.inr ⟨word, _, rfl, nodes, script,
    body.body (by omega) .elseBranch, rfl, rfl⟩), rfl, rfl⟩

theorem elseIf {node : Node} (word : Location)
    (taken : Readable stop .conditional ahead script node rest) :
    Readable stop .otherwise ((Lexeme.keyword "else").token word :: ahead) script (some [node])
      rest := by
  intro tokens enough
  simp only [List.length_cons] at enough
  obtain ⟨place, tail, front, found, middle, _, other, rfl, first, shorter, ⟨further, arms, after,
    last, other, exhausts, reads, rfl, rfl⟩, rfl, rfl⟩ := taken tokens (by omega)
  have follows : Reads (furtherArm (statementWithin tokens)) stop
      ((Lexeme.keyword "else").token word :: (Lexeme.keyword "if").token place :: tail) front
      (some found) middle :=
    reads_furtherArm_some.mpr ⟨by simp, by simp, first⟩
  exact ⟨front ++ further, found :: arms, after, last, other,
    .more follows (by simp only [List.length_cons] at *; omega) exhausts, reads, rfl, by simp⟩

theorem methodRest {returnType : Option Token} (name : String) (namePlace opening brace : Location)
    {inside : List Token} {paramScript : List Step} {params : List Param}
    (paramsTaken : TakesParameters ahead paramScript params
      ((Lexeme.op "\x7b").token brace :: inside))
    (body : Readable stop (.body 0) inside script nodes rest) :
    Readable stop (.method returnType)
      ((Lexeme.name name).token namePlace :: (Lexeme.op "(").token opening :: ahead)
      (.declare ⟨name, (returnType.getD ((Lexeme.name name).token namePlace)).text, .method⟩
        namePlace :: .enter .methodBody :: (paramScript ++ (script ++ [.leave])))
      (.methodDecl (returnType.map (·.text)) name params nodes
        (returnType.getD ((Lexeme.name name).token namePlace)).location) rest := by
  intro tokens enough
  have shorter := paramsTaken.length_lt
  simp only [List.length_cons] at enough shorter
  exact reads_methodRest.mpr ⟨ahead, name, namePlace, ⟨opening, rfl⟩, paramScript, params, script,
    _, paramsTaken, ⟨nodes, body.body (by omega) .method, rfl⟩, rfl⟩

theorem whileLoop {guard : Node} {used : List Token} (word opening closing brace : Location)
    (guarded : Derives .expression used guard)
    (body : Readable stop (.body 0) ahead script nodes rest) :
    Readable stop .marked
      ((Lexeme.keyword "while").token word :: (Lexeme.op "(").token opening ::
        (used ++ (Lexeme.op ")").token closing :: (Lexeme.op "\x7b").token brace :: ahead))
      (.check guard :: .enter .block :: (script ++ [.leave]))
      (.node (.whileStmt guard nodes word)) rest := by
  intro tokens enough
  simp only [List.length_append, List.length_cons] at enough
  refine ⟨_, _, rfl, Scripted.reads_map.mpr ⟨.whileStmt guard nodes word, ?_, rfl⟩⟩
  exact reads_whileStatement.mpr ⟨guard, _, opening, used, ⟨closing, rfl⟩, guarded, nodes, script,
    body.body (by omega) .whileLoop, rfl, rfl⟩

theorem forLoop {init guard update : Option Node} {afterInit afterGuard inside : List Token}
    {initScript guardScript updateScript : List Step} (word opening brace : Location)
    (initTaken : TakesInitializer ahead initScript init afterInit)
    (guardTaken : TakesClause .semicolon afterInit guardScript guard afterGuard)
    (updateTaken : TakesClause (.op ")") afterGuard updateScript update
      ((Lexeme.op "\x7b").token brace :: inside))
    (body : Readable stop (.body 0) inside script nodes rest) :
    Readable stop .marked
      ((Lexeme.keyword "for").token word :: (Lexeme.op "(").token opening :: ahead)
      (.enter .block ::
        (initScript ++ (guardScript ++ (updateScript ++ (script ++ [.leave])))))
      (.node (.forStmt init guard update nodes word)) rest := by
  intro tokens enough
  have shorterInit := initTaken.length_lt
  have shorterGuard := guardTaken.length_lt
  have shorterUpdate := updateTaken.length_lt
  simp only [List.length_cons] at *
  refine ⟨_, _, rfl, Scripted.reads_map.mpr ⟨.forStmt init guard update nodes word, ?_, rfl⟩⟩
  exact reads_forStatement.mpr ⟨ahead, ⟨opening, rfl⟩, initScript, init, afterInit, initTaken,
    guardScript, guard, afterGuard, guardTaken, updateScript, update, script, _, updateTaken,
    ⟨nodes, body.body (by omega) .forLoop, rfl⟩, rfl⟩

theorem classBody {members : List Member} (name : String) (word namePlace brace : Location)
    (taken : Readable stop (.members name) ahead script members rest) :
    Readable stop .marked
      ((Lexeme.keyword "class").token word :: (Lexeme.name name).token namePlace ::
        (Lexeme.op "\x7b").token brace :: ahead)
      (.declare ⟨name, "class", .className⟩ namePlace :: .enter .classBody ::
        (script ++ [.leave]))
      (.node (.classDecl name (members.filterMap Member.field?)
        (members.filterMap Member.method?) word)) rest := by
  intro tokens enough
  simp only [List.length_cons] at enough
  obtain ⟨closing, exhausts⟩ := taken tokens (by omega)
  refine ⟨_, _, rfl, Scripted.reads_map.mpr ⟨.classDecl name (members.filterMap Member.field?)
    (members.filterMap Member.method?) word, ?_, rfl⟩⟩
  exact reads_classDeclaration.mpr ⟨ahead, name, namePlace, ⟨brace, rfl⟩, script,
    ⟨members, ⟨closing, exhausts.reads_repeated⟩, rfl⟩, rfl⟩

/-- A conditional is read with all its further arms in one loop. -/
theorem conditional {node : Node} (taken : Readable stop .conditional ahead script node rest) :
    Readable stop .marked ahead script (.node node) rest := by
  intro tokens enough
  obtain ⟨place, tail, front, found, middle, _, _, rfl, first, _, ⟨further, arms, after, last,
    other, exhausts, reads, rfl, rfl⟩, rfl, rfl⟩ := taken tokens enough
  refine ⟨_, _, rfl, Scripted.reads_map.mpr ⟨_, ?_, rfl⟩⟩
  exact reads_ifStatement.mpr ⟨front, found, middle, first, further, arms, after,
    exhausts.reads_repeated, last, ⟨other, reads, rfl⟩, rfl⟩

theorem jump {word : String} {make : Location → Node} (jumps : Jumps word make) (place : Location)
    (closed : ¬ Lexeme.semicolon.Starts ahead ∧ rest = ahead ∨
      ∃ semicolon, ahead = Lexeme.semicolon.token semicolon :: rest) :
    Readable stop .marked ((Lexeme.keyword word).token place :: ahead) [] (.node (make place))
      rest := by
  intro tokens _
  refine ⟨_, _, rfl, ?_⟩
  cases jumps with
  | «break» => exact Scripted.reads_map.mpr ⟨_, reads_jump.mpr ⟨closed, rfl, rfl⟩, rfl⟩
  | «continue» => exact Scripted.reads_map.mpr ⟨_, reads_jump.mpr ⟨closed, rfl, rfl⟩, rfl⟩

theorem idle {first : Token} (idle : Idle first) (rest : List Token) :
    Readable stop .marked (first :: rest) [] .nothing rest := by
  intro tokens _
  refine ⟨first, rest, rfl, ?_⟩
  obtain ⟨⟨kind, text⟩, place⟩ := first
  obtain ⟨untyped, unnamed, unknown⟩ := idle
  cases kind with
  | dataType => exact absurd rfl untyped
  | identifier => exact absurd rfl unnamed
  | reserved =>
      have passes : statementFrom (statementWithin tokens) ⟨⟨.reserved, text⟩, place⟩ = passOver :=
        reservedStatement_eq_passOver unknown
      rw [passes]
      exact reads_passOver.mpr ⟨rfl, rfl, rfl⟩
  | operator =>
      have lexeme (brace : String) (known : Lexeme.op brace ∈ statementLexemes) : text ≠ brace :=
        fun equal => unknown (equal ▸ known)
      exact reads_loneOperator.mpr
        ⟨rfl, .inr (.inr ⟨lexeme _ (by decide), lexeme _ (by decide), rfl, rfl⟩)⟩
  | _ => exact reads_passOver.mpr ⟨rfl, rfl, rfl⟩

section Members

variable {className : String} {modifiers : List Token} {node : Node} {members : List Member}

theorem membersEnd (className : String) (brace : Location) (rest : List Token) :
    Readable stop (.members className) ((Lexeme.op "\x7d").token brace :: rest) [] [] rest :=
  fun _ _ => ⟨brace, .done (reads_member_none.mpr ⟨.inr (by simp), rfl, rfl⟩)⟩

theorem field (modified : ∀ token ∈ modifiers, Modifies token)
    (taken : TakesVariable ahead front node middle)
    (others : Readable stop (.members className) middle back members rest) :
    Readable stop (.members className) (modifiers ++ ahead) (front ++ back)
      (.field node :: members) rest := by
  intro tokens enough
  have shorter := taken.length_lt
  simp only [List.length_append] at enough
  obtain ⟨closing, exhausts⟩ := others tokens (by omega)
  obtain ⟨type, place, tail, rfl⟩ := taken.starts
  have first : Reads (member (statementWithin tokens) className) stop (modifiers ++ _) front
      (some (.field node)) middle :=
    reads_member_some.mpr ⟨modifiers, _, rfl, modified, .inl ⟨type, place, tail, rfl,
      reads_typedMember.mpr (.inr ⟨node, taken, rfl⟩)⟩⟩
  exact ⟨closing, .more first (by simp only [List.length_append]; omega) exhausts⟩

theorem typedMethod (type : String) (place : Location)
    (modified : ∀ token ∈ modifiers, Modifies token) (shorter : middle.length < ahead.length)
    (taken : Readable stop (.method (some ((Lexeme.type type).token place))) ahead front node
      middle)
    (others : Readable stop (.members className) middle back members rest) :
    Readable stop (.members className) (modifiers ++ (Lexeme.type type).token place :: ahead)
      (front ++ back) (.method node :: members) rest := by
  intro tokens enough
  simp only [List.length_append, List.length_cons] at enough
  obtain ⟨closing, exhausts⟩ := others tokens (by omega)
  have first : Reads (member (statementWithin tokens) className) stop (modifiers ++ _) front
      (some (.method node)) middle :=
    reads_member_some.mpr ⟨modifiers, _, rfl, modified, .inl ⟨type, place, ahead, rfl,
      reads_typedMember.mpr (.inl ⟨node, taken tokens (by omega), rfl⟩)⟩⟩
  exact ⟨closing, .more first (by simp only [List.length_append, List.length_cons]; omega) exhausts⟩

theorem constructor (place : Location)
    (modified : ∀ token ∈ modifiers, Modifies token) (shorter : middle.length ≤ ahead.length)
    (taken : Readable stop (.method none) ((Lexeme.name className).token place :: ahead) front node
      middle)
    (others : Readable stop (.members className) middle back members rest) :
    Readable stop (.members className) (modifiers ++ (Lexeme.name className).token place :: ahead)
      (front ++ back) (.method node :: members) rest := by
  intro tokens enough
  simp only [List.length_append, List.length_cons] at enough
  obtain ⟨closing, exhausts⟩ := others tokens (by omega)
  have method := taken tokens (by simp only [List.length_cons]; omega)
  have first : Reads (member (statementWithin tokens) className) stop (modifiers ++ _) front
      (some (.method node)) middle :=
    reads_member_some.mpr ⟨modifiers, _, rfl, modified, .inr ⟨place, ahead, rfl, node, method, rfl⟩⟩
  exact ⟨closing, .more first (by simp only [List.length_append, List.length_cons]; omega) exhausts⟩

end Members

end Readable

/-- Whatever a construct takes, its reader hands over. -/
theorem Takes.readable {construct : Construct} {ahead rest : List Token} {script : List Step}
    {value : construct.Yield} (stop : Terminator)
    (taken : Takes construct ahead script value rest) :
    Readable stop construct ahead script value rest := by
  induction taken with
  | statement _ inductionHypothesis => exact inductionHypothesis.statement
  | declared taken =>
      intro tokens _
      obtain ⟨type, place, tail, rfl⟩ := taken.starts
      exact ⟨_, _, rfl, Scripted.reads_map.mpr ⟨_, reads_declaration.mpr (.inr taken), rfl⟩⟩
  | method type place taken inductionHypothesis =>
      intro tokens enough
      have reads := inductionHypothesis tokens (Nat.le_of_succ_le enough)
      exact ⟨_, _, rfl, Scripted.reads_map.mpr ⟨_, reads_declaration.mpr (.inl reads), rfl⟩⟩
  | expression name place semicolon derived rest =>
      intro tokens _
      refine ⟨_, _, rfl, Scripted.reads_map.mpr ⟨_, ?_, rfl⟩⟩
      exact reads_expressionStatement.mpr ⟨⟨semicolon, _, rfl, derived⟩, rfl⟩
  | conditional _ inductionHypothesis => exact inductionHypothesis.conditional
  | whileLoop word opening closing brace guarded _ inductionHypothesis =>
      exact .whileLoop word opening closing brace guarded inductionHypothesis
  | forLoop word opening brace initTaken guardTaken updateTaken _ inductionHypothesis =>
      exact .forLoop word opening brace initTaken guardTaken updateTaken inductionHypothesis
  | returned word taken =>
      intro tokens _
      exact ⟨_, _, rfl, Scripted.reads_map.mpr ⟨_, reads_returnStatement.mpr ⟨_, taken, rfl⟩, rfl⟩⟩
  | closedJump jumps place semicolon rest =>
      exact .jump jumps place (.inr ⟨semicolon, rfl⟩)
  | openJump jumps place unclosed =>
      exact .jump jumps place (.inl ⟨unclosed, rfl⟩)
  | classBody name word namePlace brace _ inductionHypothesis =>
      exact inductionHypothesis.classBody name word namePlace brace
  | opened brace rest =>
      exact fun _ _ => ⟨_, _, rfl, reads_loneOperator.mpr ⟨rfl, .inl ⟨rfl, rfl, rfl⟩⟩⟩
  | closed brace rest =>
      exact fun _ _ => ⟨_, _, rfl, reads_loneOperator.mpr ⟨rfl, .inr (.inl ⟨rfl, rfl, rfl⟩)⟩⟩
  | idle idle rest => exact .idle idle rest
  | arm word opening closing brace guarded body others bodyReadable othersReadable =>
      exact .arm word opening closing brace guarded body.length_add_least bodyReadable
        othersReadable
  | noElse ended => exact .noElse ended
  | elseBody word brace _ inductionHypothesis => exact inductionHypothesis.elseBody word brace
  | elseIf word _ inductionHypothesis => exact inductionHypothesis.elseIf word
  | methodRest returnType name namePlace opening brace paramsTaken _ inductionHypothesis =>
      exact .methodRest name namePlace opening brace paramsTaken inductionHypothesis
  | bodyEnd brace rest =>
      intro tokens _ kind rounds enough
      obtain _ | rounds := rounds
      · exact absurd enough (by simp)
      · exact reads_bodyRest_succ.mpr (.inl ⟨rfl, ⟨brace, rfl⟩, rfl, rfl⟩)
  | bodyItem inside first others firstReadable othersReadable =>
      exact .bodyItem inside first.statement_length_lt firstReadable othersReadable
  | membersEnd className brace rest => exact .membersEnd className brace rest
  | field modified taken _ inductionHypothesis => exact .field modified taken inductionHypothesis
  | typedMethod type place modified taken _ readable inductionHypothesis =>
      exact .typedMethod type place modified taken.length_add_least readable inductionHypothesis
  | constructor place modified taken _ readable inductionHypothesis =>
      have shorter := Nat.le_of_succ_le_succ taken.length_add_least
      exact .constructor place modified shorter readable inductionHypothesis

/-- What a program takes is read to the end. -/
theorem TakesProgram.exhausts {ahead : List Token} {script : List Step} {items : List Item}
    {tokens : Nat} (stop : Terminator) (taken : TakesProgram ahead script items)
    (enough : ahead.length ≤ tokens) :
    Exhausts (topLevel (statementWithin tokens)) stop ahead script items [] := by
  induction taken with
  | nil => exact .done (reads_topLevel_none.mpr ⟨rfl, rfl, rfl⟩)
  | cons first _ inductionHypothesis =>
      have shorter := first.statement_length_lt
      have reads := first.readable stop tokens enough
      exact .more (reads_topLevel_some.mpr ⟨List.ne_nil_of_length_pos (by omega), reads⟩) shorter
        (inductionHypothesis (by omega))

/-- A program is read exactly when statements take all tokens ahead. -/
theorem reads_program_iff {stop : Terminator} {ahead rest : List Token} {script : List Step}
    {node : Node} :
    Reads program stop ahead script node rest ↔
      ∃ items, TakesProgram ahead script items ∧ rest = [] ∧
        node = .block (items.flatMap Item.nodes) (ahead.headD stop.token).location := by
  constructor
  · exact takes_of_program
  · rintro ⟨items, taken, rfl, rfl⟩
    have exhausts := taken.exhausts stop (Nat.le_refl _)
    have collected := exhausts.reads_collect (Nat.le_refl _)
    simpa [program, Scripted.reads_repeated] using ⟨items, collected, rfl⟩

end BraceLang.Grammar
