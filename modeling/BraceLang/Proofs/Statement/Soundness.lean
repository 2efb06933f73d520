import BraceLang.Proofs.Expression.Soundness
import BraceLang.Proofs.Statement.Reading

/-!
# Only statements are read

Whatever the reader of a construct hands over, the construct takes. How far inner
statements may reach is bounded, so the soundness of their reader is assumed up to
a bound and shown one token beyond it. What carries the loops is that every
construct but an absent else branch takes a token.
-/

namespace BraceLang.Grammar

open Reader Scripted

section Lengths

variable {ahead rest : List Token} {script : List Step}

theorem TakesClause.length_lt {closing : Lexeme} {value : Option Node}
    (taken : TakesClause closing ahead script value rest) : rest.length < ahead.length := by
  cases taken with
  | absent => simp
  | present =>
      simp only [List.length_append, List.length_cons]
      omega

theorem TakesVariable.length_lt {node : Node} (taken : TakesVariable ahead script node rest) :
    rest.length < ahead.length := by
  cases taken <;> simp only [List.length_append, List.length_cons] <;> omega

theorem TakesInitializer.length_lt {init : Option Node}
    (taken : TakesInitializer ahead script init rest) : rest.length < ahead.length := by
  cases taken with
  | clause taken => exact taken.length_lt
  | declared taken => exact taken.length_lt

theorem TakesFurtherParameters.length_lt {params : List Param}
    (taken : TakesFurtherParameters ahead script params rest) : rest.length < ahead.length := by
  induction taken with
  | closed => simp
  | next =>
      simp only [List.length_cons]
      omega

theorem TakesParameters.length_lt {params : List Param}
    (taken : TakesParameters ahead script params rest) : rest.length < ahead.length := by
  cases taken with
  | none => simp
  | some _ _ _ _ others =>
      have shorter := others.length_lt
      simp only [List.length_cons]
      omega

/-- How many tokens a construct takes at least. -/
def Construct.least : Construct → Nat
  | .otherwise => 0
  | _ => 1

/-- What is left behind a construct is shorter by at least the construct's least tokens. -/
theorem Takes.length_add_least {construct : Construct} {value : construct.Yield}
    (taken : Takes construct ahead script value rest) :
    rest.length + construct.least ≤ ahead.length := by
  induction taken with
  | declared taken => exact taken.length_lt
  | returned _ taken =>
      have shorter := taken.length_lt
      simp only [Construct.least, List.length_cons]
      omega
  | forLoop _ _ _ initTaken guardTaken updateTaken =>
      have shorterInit := initTaken.length_lt
      have shorterGuard := guardTaken.length_lt
      have shorterUpdate := updateTaken.length_lt
      simp only [Construct.least, List.length_cons] at *
      omega
  | methodRest _ _ _ _ _ paramsTaken =>
      have shorter := paramsTaken.length_lt
      simp only [Construct.least, List.length_cons] at *
      omega
  | field _ taken =>
      have shorter := taken.length_lt
      simp only [Construct.least, List.length_append] at *
      omega
  | noElse => exact Nat.le_refl _
  | _ =>
      simp only [Construct.least, List.length_append, List.length_cons] at *
      omega

theorem Takes.statement_length_lt {item : Item} (taken : Takes .statement ahead script item rest) :
    rest.length < ahead.length :=
  taken.length_add_least

end Lengths

/-- A reader of statements only hands over what a statement takes, if it has to take
it from at most `bound` tokens. -/
def SoundWithin (bound : Nat) (inner : Scripted Item) : Prop :=
  ∀ ⦃stop : Terminator⦄ ⦃ahead rest : List Token⦄ ⦃script : List Step⦄ ⦃item : Item⦄,
    Reads inner stop ahead script item rest → ahead ≠ [] → ahead.length ≤ bound →
      Takes .statement ahead script item rest

section Nesting

variable {inner : Scripted Item} {bound : Nat} {stop : Terminator} {ahead rest : List Token}
  {script : List Step} {node : Node} {nodes : List Node}

theorem takes_of_bodyRest (sound : SoundWithin bound inner) {kind : Body} {rounds openBlocks : Nat}
    (reads : Reads (bodyRest inner kind rounds openBlocks) stop ahead script nodes rest)
    (enough : ahead.length ≤ rounds) (within : ahead.length ≤ bound) :
    Takes (.body openBlocks) ahead script nodes rest := by
  induction rounds generalizing openBlocks ahead script nodes with
  | zero =>
      obtain ⟨⟨brace, rfl⟩, _, _⟩ := reads_bodyEnd.mp reads
      exact absurd enough (by simp)
  | succ rounds inductionHypothesis =>
      rcases reads_bodyRest_succ.mp reads with ⟨rfl, ⟨brace, rfl⟩, rfl, rfl⟩ |
        ⟨nonempty, unclosed, front, item, middle, first, back, ⟨others, further, rfl⟩, rfl⟩
      · exact .bodyEnd brace rest
      · have taken := sound first nonempty within
        have shorter := taken.statement_length_lt
        exact .bodyItem unclosed taken (inductionHypothesis further (by omega) (by omega))

theorem takes_of_body (sound : SoundWithin bound inner) {kind : Body}
    (reads : Reads (body inner kind) stop ahead script nodes rest)
    (within : ahead.length ≤ bound + 1) :
    ∃ brace inside, ahead = (Lexeme.op "\x7b").token brace :: inside ∧
      Takes (.body 0) inside script nodes rest := by
  obtain ⟨inside, ⟨brace, rfl⟩, insideReads⟩ := reads_body.mp reads
  have fewer : inside.length ≤ bound := Nat.le_of_succ_le_succ within
  exact ⟨brace, inside, rfl, takes_of_bodyRest sound insideReads (Nat.le_refl _) fewer⟩

/-- An arm and what happens otherwise make a conditional. -/
theorem takes_of_arm (sound : SoundWithin bound inner) {place : Location} {found : Arm}
    {middle : List Token}
    (reads : Reads (arm inner) stop ((Lexeme.keyword "if").token place :: ahead) script found
      middle)
    (within : ahead.length ≤ bound) :
    middle.length ≤ ahead.length ∧
      ∀ {otherScript : List Step} {other : Option (List Node)} {rest : List Token},
        Takes .otherwise middle otherScript other rest →
          Takes .conditional ((Lexeme.keyword "if").token place :: ahead) (script ++ otherScript)
            (found.node other) rest := by
  obtain ⟨guard, afterGuard, opening, used, ⟨closing, rfl⟩, guarded, nodes, inside, bodyReads, rfl,
    rfl⟩ := reads_arm.mp reads
  simp only [List.length_append, List.length_cons] at within
  obtain ⟨brace, after, rfl, body⟩ := takes_of_body sound bodyReads (by omega)
  have shorter := body.length_add_least
  constructor
  · simp only [List.length_append, List.length_cons]
    omega
  · intro otherScript other rest others
    have taken := Takes.arm place opening closing brace guarded body others
    simpa [Arm.node] using taken

theorem takes_of_elseBranch (sound : SoundWithin bound inner) {other : Option (List Node)}
    (reads : Reads (elseBranch inner) stop ahead script other rest)
    (within : ahead.length ≤ bound) : Takes .otherwise ahead script other rest := by
  rcases reads_elseBranch.mp reads with ⟨ended, rfl, rfl, rfl⟩ |
    ⟨word, middle, rfl, nodes, inside, bodyReads, rfl, rfl⟩
  · exact .noElse ended
  · simp only [List.length_cons] at within
    obtain ⟨brace, after, rfl, body⟩ := takes_of_body sound bodyReads (by omega)
    exact .elseBody word brace body

theorem takes_of_jump {word : String} {make : Location → Node} (jumps : Jumps word make)
    {place : Location}
    (reads : Reads (jump make) stop ((Lexeme.keyword word).token place :: ahead) script node rest) :
    Takes .marked ((Lexeme.keyword word).token place :: ahead) script (.node node) rest := by
  obtain ⟨⟨unclosed, rfl⟩ | ⟨semicolon, rfl⟩, rfl, rfl⟩ := reads_jump.mp reads
  · exact .openJump jumps place unclosed
  · exact .closedJump jumps place semicolon rest

/-- Further arms and what happens otherwise nest to the right. -/
theorem takes_of_furtherArms (sound : SoundWithin bound inner) {arms : List Arm}
    {middle : List Token} {otherScript : List Step} {other : Option (List Node)}
    (runs : Runs (furtherArm inner) stop ahead script arms middle)
    (others : middle.length ≤ bound → Takes .otherwise middle otherScript other rest)
    (within : ahead.length ≤ bound) :
    Takes .otherwise ahead (script ++ otherScript)
      (arms.foldr (fun arm otherwise => some [arm.node otherwise]) other) rest := by
  induction runs with
  | nil => exact others within
  | @cons ahead middle _ front back found arms first further inductionHypothesis =>
      obtain ⟨⟨word, _, rfl⟩, ⟨place, tail, rfl⟩, reads⟩ := reads_furtherArm_some.mp first
      simp only [List.length_cons] at within
      obtain ⟨shorter, conditional⟩ := takes_of_arm sound reads (by omega)
      rw [List.append_assoc, List.foldr_cons]
      exact .elseIf word (conditional (inductionHypothesis others (by omega)))

theorem takes_of_ifStatement (sound : SoundWithin bound inner) {place : Location}
    (reads : Reads (ifStatement inner) stop ((Lexeme.keyword "if").token place :: ahead) script node
      rest)
    (within : ahead.length ≤ bound) :
    Takes .conditional ((Lexeme.keyword "if").token place :: ahead) script node rest := by
  obtain ⟨front, found, middle, first, further, arms, after, repeats, back, ⟨other, last, rfl⟩,
    rfl⟩ := reads_ifStatement.mp reads
  have runs := (Runs.of_collect (fun declined => (reads_furtherArm_none.mp declined).2.symm)
    (Scripted.reads_repeated.mp repeats)).1
  obtain ⟨shorter, conditional⟩ := takes_of_arm sound first within
  have others := takes_of_furtherArms sound runs (takes_of_elseBranch sound last) (by omega)
  exact conditional others

theorem takes_of_methodRest (sound : SoundWithin bound inner) {returnType : Option Token}
    (reads : Reads (methodRest inner returnType) stop ahead script node rest)
    (within : ahead.length ≤ bound + 1) : Takes (.method returnType) ahead script node rest := by
  obtain ⟨clauses, name, namePlace, ⟨opening, rfl⟩, paramScript, params, inside, middle,
    paramsTaken, ⟨nodes, bodyReads, rfl⟩, rfl⟩ := reads_methodRest.mp reads
  have shorter := paramsTaken.length_lt
  simp only [List.length_cons] at within
  obtain ⟨brace, after, rfl, body⟩ := takes_of_body sound bodyReads (by omega)
  exact .methodRest returnType name namePlace opening brace paramsTaken body

theorem takes_of_members (sound : SoundWithin bound inner) {className : String} {closing : Location}
    {members : List Member}
    (runs : Runs (member inner className) stop ahead script members
      ((Lexeme.op "\x7d").token closing :: rest))
    (within : ahead.length ≤ bound) : Takes (.members className) ahead script members rest := by
  generalize equal : (Lexeme.op "\x7d").token closing :: rest = behind at runs
  induction runs with
  | nil => exact equal ▸ .membersEnd className closing rest
  | @cons ahead middle _ front back found members first further inductionHypothesis =>
      obtain ⟨taken, after, rfl, modified, ⟨type, place, tail, rfl, reads⟩ |
        ⟨place, tail, rfl, node, reads, rfl⟩⟩ := reads_member_some.mp first
      · simp only [List.length_append, List.length_cons] at within
        rcases reads_typedMember.mp reads with ⟨node, methodReads, rfl⟩ | ⟨node, variable_, rfl⟩
        · have method := takes_of_methodRest sound methodReads (by omega)
          have shorter := method.length_add_least
          exact .typedMethod type place modified method (inductionHypothesis (by omega) equal)
        · have shorter := variable_.length_lt
          simp only [List.length_cons] at shorter
          exact .field modified variable_ (inductionHypothesis (by omega) equal)
      · simp only [List.length_append, List.length_cons] at within
        have method := takes_of_methodRest sound reads (by simp only [List.length_cons]; omega)
        have shorter := method.length_add_least
        simp only [List.length_cons] at shorter
        exact .constructor place modified method (inductionHypothesis (by omega) equal)

theorem takes_of_whileStatement (sound : SoundWithin bound inner) {place : Location}
    (reads : Reads (whileStatement inner) stop ((Lexeme.keyword "while").token place :: ahead)
      script node rest)
    (within : ahead.length ≤ bound) :
    Takes .marked ((Lexeme.keyword "while").token place :: ahead) script (.node node) rest := by
  obtain ⟨guard, middle, opening, used, ⟨closing, rfl⟩, guarded, nodes, inside, bodyReads, rfl,
    rfl⟩ := reads_whileStatement.mp reads
  simp only [List.length_append, List.length_cons] at within
  obtain ⟨brace, after, rfl, body⟩ := takes_of_body sound bodyReads (by omega)
  exact .whileLoop place opening closing brace guarded body

theorem takes_of_forStatement (sound : SoundWithin bound inner) {place : Location}
    (reads : Reads (forStatement inner) stop ((Lexeme.keyword "for").token place :: ahead) script
      node rest)
    (within : ahead.length ≤ bound) :
    Takes .marked ((Lexeme.keyword "for").token place :: ahead) script (.node node) rest := by
  obtain ⟨clauses, ⟨opening, rfl⟩, initScript, init, afterInit, initTaken, guardScript, guard,
    afterGuard, guardTaken, updateScript, update, inside, middle, updateTaken, ⟨nodes, bodyReads,
    rfl⟩, rfl⟩ := reads_forStatement.mp reads
  have shorterInit := initTaken.length_lt
  have shorterGuard := guardTaken.length_lt
  have shorterUpdate := updateTaken.length_lt
  simp only [List.length_cons] at within
  obtain ⟨brace, after, rfl, body⟩ := takes_of_body sound bodyReads (by omega)
  exact .forLoop place opening brace initTaken guardTaken updateTaken body

theorem takes_of_classDeclaration (sound : SoundWithin bound inner) {place : Location}
    (reads : Reads (classDeclaration inner) stop ((Lexeme.keyword "class").token place :: ahead)
      script node rest)
    (within : ahead.length ≤ bound) :
    Takes .marked ((Lexeme.keyword "class").token place :: ahead) script (.node node) rest := by
  obtain ⟨afterBrace, name, namePlace, ⟨brace, rfl⟩, inside, ⟨members, ⟨closing, repeats⟩, rfl⟩,
    rfl⟩ := reads_classDeclaration.mp reads
  have runs := (Runs.of_collect (fun declined => (reads_member_none.mp declined).2.symm)
    (Scripted.reads_repeated.mp repeats)).1
  simp only [List.length_cons] at within
  exact .classBody name place namePlace brace (takes_of_members sound runs (by omega))

theorem takes_of_reserved (sound : SoundWithin bound inner) {word : String} {place : Location}
    {item : Item}
    (reads : Reads (reservedStatement inner word) stop ((Lexeme.keyword word).token place :: ahead)
      script item rest)
    (within : ahead.length ≤ bound) :
    Takes .marked ((Lexeme.keyword word).token place :: ahead) script item rest := by
  unfold reservedStatement at reads
  split at reads
  · obtain ⟨node, found, rfl⟩ := Scripted.reads_map.mp reads
    exact .conditional (takes_of_ifStatement sound found within)
  · obtain ⟨node, found, rfl⟩ := Scripted.reads_map.mp reads
    exact takes_of_whileStatement sound found within
  · obtain ⟨node, found, rfl⟩ := Scripted.reads_map.mp reads
    exact takes_of_forStatement sound found within
  · obtain ⟨node, found, rfl⟩ := Scripted.reads_map.mp reads
    obtain ⟨value, taken, rfl⟩ := reads_returnStatement.mp found
    exact .returned place taken
  · obtain ⟨node, found, rfl⟩ := Scripted.reads_map.mp reads
    exact takes_of_jump .break found
  · obtain ⟨node, found, rfl⟩ := Scripted.reads_map.mp reads
    exact takes_of_jump .continue found
  · obtain ⟨node, found, rfl⟩ := Scripted.reads_map.mp reads
    exact takes_of_classDeclaration sound found within
  · obtain ⟨rfl, rfl, rfl⟩ := reads_passOver.mp reads
    have idle : Idle ((Lexeme.keyword word).token place) := by
      simp_all [Idle, statementLexemes, Lexeme.keyword, Lexeme.op]
    exact .idle idle _

theorem takes_of_loneOperator {text : String} {place : Location} {item : Item}
    (reads : Reads (loneOperator text) stop ((Lexeme.op text).token place :: ahead) script item
      rest) :
    Takes .marked ((Lexeme.op text).token place :: ahead) script item rest := by
  obtain ⟨rfl, ⟨rfl, rfl, rfl⟩ | ⟨rfl, rfl, rfl⟩ | ⟨unopened, unclosed, rfl, rfl⟩⟩ :=
    reads_loneOperator.mp reads
  · exact .opened place _
  · exact .closed place _
  · have idle : Idle ((Lexeme.op text).token place) := by
      simp_all [Idle, statementLexemes, Lexeme.keyword, Lexeme.op]
    exact .idle idle _

theorem takes_of_statementFrom (sound : SoundWithin bound inner) {first : Token} {item : Item}
    (reads : Reads (statementFrom inner first) stop (first :: ahead) script item rest)
    (within : ahead.length ≤ bound) : Takes .marked (first :: ahead) script item rest := by
  obtain ⟨⟨kind, text⟩, place⟩ := first
  cases kind with
  | dataType =>
      obtain ⟨node, found, rfl⟩ := Scripted.reads_map.mp reads
      rcases reads_declaration.mp found with method | declared
      · exact .method text place (takes_of_methodRest sound method (by omega))
      · exact .declared declared
  | identifier =>
      obtain ⟨node, found, rfl⟩ := Scripted.reads_map.mp reads
      obtain ⟨⟨semicolon, used, split, derived⟩, rfl⟩ := reads_expressionStatement.mp found
      obtain ⟨first, tail, rfl, _⟩ := derived.first
      obtain ⟨rfl, rfl⟩ := List.cons.inj split
      exact .expression text place semicolon derived rest
  | reserved => exact takes_of_reserved sound reads within
  | operator => exact takes_of_loneOperator reads
  | _ =>
      obtain ⟨rfl, rfl, rfl⟩ := reads_passOver.mp reads
      exact .idle (by simp [Idle, statementLexemes, Lexeme.keyword, Lexeme.op]) _

/-- Soundness goes from one bound to the next. -/
theorem SoundWithin.statement (sound : SoundWithin bound inner) :
    SoundWithin (bound + 1) (statement inner) := by
  intro stop ahead rest script item reads nonempty within
  obtain ⟨first, tail, rfl⟩ := List.exists_cons_of_ne_nil nonempty
  obtain ⟨back, found, rfl⟩ := reads_statement.mp reads
  exact .statement (takes_of_statementFrom sound found (Nat.le_of_succ_le_succ within))

end Nesting

theorem soundWithin_statementWithin (tokens : Nat) :
    SoundWithin tokens (statementWithin tokens) := by
  induction tokens with
  | zero =>
      intro stop ahead rest script item _ nonempty within
      exact absurd (List.eq_nil_of_length_eq_zero (Nat.le_zero.mp within)) nonempty
  | succ tokens inductionHypothesis => exact inductionHypothesis.statement

section Program

variable {stop : Terminator} {ahead rest : List Token} {script : List Step}

theorem reads_topLevel_none {inner : Scripted Item} :
    Reads (topLevel inner) stop ahead script none rest ↔
      ahead = [] ∧ rest = ahead ∧ script = [] := by
  simp [topLevel, and_assoc]

theorem reads_topLevel_some {inner : Scripted Item} {item : Item} :
    Reads (topLevel inner) stop ahead script (some item) rest ↔
      ahead ≠ [] ∧ Reads inner stop ahead script item rest := by
  simp [topLevel, and_assoc]

/-- Statements take a token each, and all of them when no token is left. -/
theorem takes_of_topLevels {inner : Scripted Item} {bound : Nat} (sound : SoundWithin bound inner)
    {items : List Item} (runs : Runs (topLevel inner) stop ahead script items rest)
    (within : ahead.length ≤ bound) :
    items.length + rest.length ≤ ahead.length ∧ (rest = [] → TakesProgram ahead script items) := by
  induction runs with
  | nil =>
      refine ⟨by simp, ?_⟩
      rintro rfl
      exact .nil
  | cons first further inductionHypothesis =>
      obtain ⟨nonempty, reads⟩ := reads_topLevel_some.mp first
      have taken := sound reads nonempty within
      have shorter := taken.statement_length_lt
      obtain ⟨fewer, others⟩ := inductionHypothesis (by omega)
      refine ⟨by simp only [List.length_cons]; omega, fun ended => .cons taken (others ended)⟩

/-- A program that is read takes all tokens ahead. -/
theorem takes_of_program {node : Node} (reads : Reads program stop ahead script node rest) :
    ∃ items, TakesProgram ahead script items ∧ rest = [] ∧
      node = .block (items.flatMap Item.nodes) (ahead.headD stop.token).location := by
  simp [program, Scripted.reads_repeated] at reads
  obtain ⟨items, collected, rfl⟩ := reads
  obtain ⟨runs, ended⟩ := Runs.of_collect (fun declined =>
    (reads_topLevel_none.mp declined).2.symm) collected
  obtain ⟨fewer, others⟩ :=
    takes_of_topLevels (soundWithin_statementWithin ahead.length) runs (Nat.le_refl _)
  have exhausted : rest = [] := by
    rcases ended with full | declined
    · exact List.eq_nil_of_length_eq_zero (by omega)
    · exact (reads_topLevel_none.mp declined).1
  exact ⟨items, others exhausted, exhausted, by simp⟩

end Program
end BraceLang.Grammar
