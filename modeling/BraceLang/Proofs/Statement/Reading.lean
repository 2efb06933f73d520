import BraceLang.Proofs.Expression.Completeness
import BraceLang.Proofs.Statement.Grammar

/-!
# The readers of statements

One equivalence for each reader of a construct: its success in terms of the tokens
ahead and of the successes of the readers it is made of. Constructs without inner
statements are settled here at once.
-/

namespace BraceLang.Grammar

open Reader Scripted

variable {stop : Terminator} {ahead rest : List Token} {script : List Step}

/-- Whether a lexeme can only stand behind an expression, neither going on with one
nor beginning one. -/
def Closes (closing : Lexeme) : Prop :=
  closing ∈ [Lexeme.semicolon, .op ")"]

theorem closes_semicolon : Closes .semicolon := List.mem_cons_self ..

theorem closes_paren : Closes (.op ")") := List.mem_cons_of_mem _ (List.mem_cons_self ..)

theorem Closes.unmarked {closing : Lexeme} (closes : Closes closing) :
    closing ∉ Phrase.expression.marks := by
  simp only [Closes, List.mem_cons, List.not_mem_nil, or_false] at closes
  rcases closes with rfl | rfl <;> decide

/-- Tokens that derive an expression do not begin with a lexeme that closes one. -/
theorem Closes.not_starts {closing : Lexeme} (closes : Closes closing) {used : List Token}
    {node : Node} (derived : Derives .expression used node) : ¬ closing.Starts (used ++ rest) := by
  obtain ⟨first, tail, rfl, begins⟩ := derived.first
  simp only [Closes, List.mem_cons, List.not_mem_nil, or_false] at closes
  rcases closes with rfl | rfl <;> rcases begins with kind | lexeme <;> rintro equal <;>
    simp_all [Phrase.leadingKinds, Phrase.leadingLexemes, Lexeme.op, Lexeme.semicolon]

/-- In front of a closing lexeme exactly the derived expressions are read. -/
theorem reads_expression_iff {closing : Lexeme} (closes : Closes closing) {place : Location}
    {node : Node} :
    Reader.Reads expression stop ahead node (closing.token place :: rest) ↔
      ∃ used, ahead = used ++ closing.token place :: rest ∧ Derives .expression used node := by
  constructor
  · exact fun reads => sound_expression reads
  · rintro ⟨used, rfl, derived⟩
    exact reads_expression derived (Phrase.ends_token closes.unmarked)

theorem reads_checked {closing : Lexeme} (closes : Closes closing) {place : Location}
    {node : Node} :
    Reads checked stop ahead script node (closing.token place :: rest) ↔
      script = [.check node] ∧ ∃ used, ahead = used ++ closing.token place :: rest ∧
        Derives .expression used node := by
  simp [checked, reads_expression_iff closes, and_comm]

theorem reads_checked_of_derives (stop : Terminator) {closing : Lexeme} (closes : Closes closing)
    {used : List Token} {node : Node} (derived : Derives .expression used node)
    (place : Location) (rest : List Token) :
    Reads checked stop (used ++ closing.token place :: rest) [.check node] node
      (closing.token place :: rest) :=
  (reads_checked closes).mpr ⟨rfl, used, rfl, derived⟩

/-- An optional expression in front of a closing lexeme is a clause. -/
theorem reads_optional {closing : Lexeme} (closes : Closes closing) {value : Option Node} :
    (∃ place, Reads (optional closing) stop ahead script value (closing.token place :: rest)) ↔
      TakesClause closing ahead script value rest := by
  simp only [optional, Scripted.reads_bind, reads_lift, Bool.exists_bool, Scripted.reads_ite,
    Scripted.reads_pure, reads_at_true, reads_at_false]
  constructor
  · rintro ⟨place, _, ⟨_, ⟨rfl, _, rfl⟩, _, ⟨falsity, _⟩ | ⟨_, _, node, _, reads, _,
      ⟨rfl, rfl, rfl⟩, rfl⟩, rfl⟩ | ⟨_, ⟨rfl, _, rfl⟩, _, ⟨_, rfl, rfl, rfl⟩ | ⟨falsity, _⟩, rfl⟩⟩
    · simp at falsity
    · obtain ⟨rfl, used, rfl, derived⟩ := (reads_checked closes).mp reads
      exact .present derived place rest
    · exact .absent place rest
    · simp at falsity
  · rintro (⟨place, rest⟩ | ⟨derived, place, rest⟩)
    · exact ⟨place, [], .inr ⟨_, ⟨rfl, by simp, rfl⟩, [], .inl ⟨trivial, rfl, rfl, rfl⟩, rfl⟩⟩
    · have reads := reads_checked_of_derives stop closes derived place rest
      exact ⟨place, [], .inl ⟨_, ⟨rfl, closes.not_starts derived, rfl⟩, _, .inr ⟨by simp, _, _, _,
        reads, [], ⟨rfl, rfl, rfl⟩, rfl⟩, rfl⟩⟩

/-- A condition in parentheses is an expression in parentheses. -/
theorem reads_condition {before after : Position} {guard : Node} :
    Reads (condition before after) stop ahead script guard rest ↔
      ∃ opening used closing,
        ahead = (Lexeme.op "(").token opening :: (used ++ (Lexeme.op ")").token closing :: rest) ∧
          Derives .expression used guard ∧ script = [.check guard] := by
  simp only [condition, Scripted.reads_bind, reads_lift, reads_expect, Wanted.admits_openParen,
    Wanted.admits_closeParen, Scripted.reads_pure]
  constructor
  · rintro ⟨_, _, _, ⟨rfl, rfl, opening, rfl⟩, _, ⟨_, _, _, reads, _, ⟨_, _, _, ⟨rfl, rfl, closing,
      rfl⟩, _, ⟨rfl, rfl, rfl⟩, rfl⟩, rfl⟩, rfl⟩
    obtain ⟨rfl, used, rfl, derived⟩ := (reads_checked closes_paren).mp reads
    exact ⟨opening, used, closing, rfl, derived, rfl⟩
  · rintro ⟨opening, used, closing, rfl, derived, rfl⟩
    have reads := reads_checked_of_derives stop closes_paren derived closing rest
    exact ⟨[], _, _, ⟨rfl, rfl, opening, rfl⟩, _, ⟨_, guard, _, reads, [], ⟨[], _, _, ⟨rfl, rfl,
      closing, rfl⟩, [], ⟨rfl, rfl, rfl⟩, rfl⟩, rfl⟩, rfl⟩

/-- A next token that is a data type is among the tokens ahead. -/
theorem exists_type_of_kind (kind : (ahead.head?.getD stop.token).kind = .dataType) :
    ∃ type place tail, ahead = (Lexeme.type type).token place :: tail := by
  obtain _ | ⟨⟨⟨_, type⟩, place⟩, tail⟩ := ahead
  · exact absurd kind (by simp [Terminator.token, Lexeme.endOfInput])
  · obtain rfl : _ = Kind.dataType := kind
    exact ⟨type, place, tail, rfl⟩

/-- A next token that is a name is among the tokens ahead. -/
theorem exists_name_of_kind (kind : (ahead.head?.getD stop.token).kind = .identifier) :
    ∃ name place tail, ahead = (Lexeme.name name).token place :: tail := by
  obtain _ | ⟨⟨⟨_, name⟩, place⟩, tail⟩ := ahead
  · exact absurd kind (by simp [Terminator.token, Lexeme.endOfInput])
  · obtain rfl : _ = Kind.identifier := kind
    exact ⟨name, place, tail, rfl⟩

theorem TakesVariable.starts {node : Node} (taken : TakesVariable ahead script node rest) :
    ∃ type place tail, ahead = (Lexeme.type type).token place :: tail := by
  cases taken <;> exact ⟨_, _, _, rfl⟩

theorem Phrase.Begins.kind_ne_dataType {first : Token} (begins : Phrase.expression.Begins first) :
    first.kind ≠ .dataType := by
  rcases begins with kind | lexeme
  · rintro equal
    simp [equal, leadingKinds] at kind
  · simp only [leadingLexemes, List.mem_cons, List.not_mem_nil, or_false] at lexeme
    rcases lexeme with equal | equal | equal <;> simp [equal, Lexeme.op]

theorem reads_initializer {type name : String} {place : Location} {init : Option Node} :
    Reads (initializer type name) stop ahead script init (Lexeme.semicolon.token place :: rest) ↔
      ahead = Lexeme.semicolon.token place :: rest ∧ script = [] ∧ init = none ∨
      ∃ sign used value,
        ahead = (Lexeme.op "=").token sign :: (used ++ Lexeme.semicolon.token place :: rest) ∧
          Derives .expression used value ∧ script = [.initial name type value] ∧
          init = some value := by
  simp [initializer, and_assoc, Option.exists, reads_expression_iff closes_semicolon]
  constructor
  · rintro (⟨_, rfl, rfl, rfl⟩ | ⟨sign, value, used, rfl, derived, rfl, rfl⟩)
    · exact .inl ⟨rfl, rfl, rfl⟩
    · exact .inr ⟨sign, used, rfl, value, derived, rfl, rfl⟩
  · rintro (⟨rfl, rfl, rfl⟩ | ⟨sign, used, rfl, value, derived, rfl, rfl⟩)
    · exact .inl ⟨by simp [Lexeme.op, Lexeme.semicolon], rfl, rfl, rfl⟩
    · exact .inr ⟨sign, value, used, rfl, derived, rfl, rfl⟩

theorem reads_variableDeclaration {type : String} {place : Location} {node : Node} :
    Reads variableDeclaration stop ((Lexeme.type type).token place :: ahead) script node rest ↔
      TakesVariable ((Lexeme.type type).token place :: ahead) script node rest := by
  simp [variableDeclaration, and_assoc, reads_initializer]
  constructor
  · rintro ⟨_, name, namePlace, rfl, _, ⟨_, ⟨semicolon, ⟨rfl, rfl, rfl⟩ | ⟨sign, used, rfl, value,
      derived, rfl, rfl⟩⟩, rfl⟩, rfl⟩
    · exact .plain type name place namePlace semicolon rest
    · exact .initialized type name place namePlace sign semicolon derived rest
  · rintro (⟨_, name, _, namePlace, semicolon⟩ | ⟨_, name, _, namePlace, sign, semicolon, derived⟩)
    · exact ⟨_, name, namePlace, rfl, [], ⟨none, ⟨semicolon, .inl ⟨rfl, rfl, rfl⟩⟩, rfl⟩, rfl⟩
    · exact ⟨_, name, namePlace, rfl, _, ⟨_, ⟨semicolon, .inr ⟨sign, _, rfl, _, derived, rfl,
        rfl⟩⟩, rfl⟩, rfl⟩

theorem reads_expressionStatement {node : Node} :
    Reads expressionStatement stop ahead script node rest ↔
      (∃ semicolon used, ahead = used ++ Lexeme.semicolon.token semicolon :: rest ∧
        Derives .expression used node) ∧ script = [.check node] := by
  simp [expressionStatement, reads_checked closes_semicolon, and_assoc]

theorem reads_returnStatement {place : Location} {node : Node} :
    Reads returnStatement stop ((Lexeme.keyword "return").token place :: ahead) script node rest ↔
      ∃ value, TakesClause .semicolon ahead script value rest ∧ node = .returnStmt value place := by
  simp [returnStatement, reads_optional closes_semicolon, and_assoc]

theorem reads_jump {word : String} {place : Location} {make : Location → Node} {node : Node} :
    Reads (jump make) stop ((Lexeme.keyword word).token place :: ahead) script node rest ↔
      (¬ Lexeme.semicolon.Starts ahead ∧ rest = ahead ∨
        ∃ semicolon, ahead = Lexeme.semicolon.token semicolon :: rest) ∧
          node = make place ∧ script = [] := by
  simp [jump, and_assoc, Option.exists]

theorem reads_forInitializer {init : Option Node} :
    Reads forInitializer stop ahead script init rest ↔ TakesInitializer ahead script init rest := by
  simp [forInitializer, and_assoc, Option.exists]
  constructor
  · rintro (⟨unstarted, ⟨kind, node, reads, rfl⟩ | ⟨kind, node, ⟨semicolon, reads⟩, rfl⟩⟩ |
      ⟨⟨semicolon, rfl⟩, rfl, rfl⟩)
    · obtain ⟨type, place, tail, rfl⟩ := exists_type_of_kind kind
      exact .declared (reads_variableDeclaration.mp reads)
    · obtain ⟨rfl, used, rfl, derived⟩ := (reads_checked closes_semicolon).mp reads
      exact .clause (.present derived semicolon rest)
    · exact .clause (.absent semicolon rest)
  · rintro (⟨⟨place, rest⟩ | ⟨derived, place, rest⟩⟩ | taken)
    · exact .inr ⟨⟨place, rfl⟩, rfl, rfl⟩
    · have reads := reads_checked_of_derives stop closes_semicolon derived place rest
      refine .inl ⟨closes_semicolon.not_starts derived, .inr ⟨?_, _, ⟨place, reads⟩, rfl⟩⟩
      obtain ⟨first, tail, rfl, begins⟩ := derived.first
      exact begins.kind_ne_dataType
    · obtain ⟨type, place, tail, rfl⟩ := taken.starts
      refine .inl ⟨by simp [Lexeme.type, Lexeme.semicolon], .inl ⟨rfl, _, ?_, rfl⟩⟩
      exact reads_variableDeclaration.mpr taken

theorem reads_parameter {param : Param} :
    Reads parameter stop ahead script param rest ↔
      ∃ place namePlace, ahead = (Lexeme.type param.type).token place ::
        (Lexeme.name param.name).token namePlace :: rest ∧
          script = [.declare ⟨param.name, param.type, .parameter⟩ namePlace] := by
  obtain ⟨type, name⟩ := param
  simp [parameter, and_assoc]
  constructor
  · rintro ⟨namePlace, ⟨place, rfl⟩, rfl⟩
    exact ⟨place, namePlace, rfl, rfl⟩
  · rintro ⟨place, namePlace, rfl, rfl⟩
    exact ⟨namePlace, ⟨place, rfl⟩, rfl⟩

theorem reads_furtherParameter_none :
    Reads furtherParameter stop ahead script none rest ↔
      ¬ (Lexeme.op ",").Starts ahead ∧ rest = ahead ∧ script = [] := by
  simp [furtherParameter, and_assoc]

theorem reads_furtherParameter_some {param : Param} :
    Reads furtherParameter stop ahead script (some param) rest ↔
      ∃ comma place namePlace, ahead = (Lexeme.op ",").token comma ::
        (Lexeme.type param.type).token place :: (Lexeme.name param.name).token namePlace :: rest ∧
          script = [.declare ⟨param.name, param.type, .parameter⟩ namePlace] := by
  simp [furtherParameter, and_assoc, Option.exists, reads_parameter]

theorem takesFurtherParameters_of_runs {params : List Param} {closing : Location}
    (runs : Runs furtherParameter stop ahead script params
      ((Lexeme.op ")").token closing :: rest)) :
    TakesFurtherParameters ahead script params rest := by
  generalize equal : (Lexeme.op ")").token closing :: rest = behind at runs
  induction runs with
  | nil => exact equal ▸ .closed closing rest
  | cons first further inductionHypothesis =>
      obtain ⟨comma, place, namePlace, rfl, rfl⟩ := reads_furtherParameter_some.mp first
      exact .next _ _ comma place namePlace (inductionHypothesis equal)

theorem TakesFurtherParameters.exhausts {params : List Param}
    (taken : TakesFurtherParameters ahead script params rest) (stop : Terminator) :
    ∃ closing, Exhausts furtherParameter stop ahead script params
      ((Lexeme.op ")").token closing :: rest) := by
  induction taken with
  | closed closing rest =>
      exact ⟨closing, .done (reads_furtherParameter_none.mpr ⟨by simp, rfl, rfl⟩)⟩
  | @next type name comma place namePlace ahead _ _ _ others inductionHypothesis =>
      obtain ⟨closing, exhausts⟩ := inductionHypothesis
      have first : Reads furtherParameter stop
          ((Lexeme.op ",").token comma :: (Lexeme.type type).token place ::
            (Lexeme.name name).token namePlace :: ahead)
          [.declare ⟨name, type, .parameter⟩ namePlace] (some ⟨type, name⟩) ahead :=
        reads_furtherParameter_some.mpr ⟨comma, place, namePlace, rfl, rfl⟩
      exact ⟨closing, .more first (by simp only [List.length_cons]; omega) exhausts⟩

/-- Reading the parameters in front of a closing parenthesis takes exactly them. -/
theorem reads_parameters {params : List Param} :
    (∃ closing, Reads parameters stop ahead script params ((Lexeme.op ")").token closing :: rest)) ↔
      TakesParameters ahead script params rest := by
  simp [parameters, reads_parameter, and_assoc]
  constructor
  · rintro ⟨closing, ⟨_, ⟨type, name⟩, middle, place, namePlace, rfl, _, ⟨params, reads, rfl⟩,
      rfl⟩ | ⟨_, rfl, rfl, rfl⟩⟩
    · have runs := (Runs.of_collect
        (fun declined => (reads_furtherParameter_none.mp declined).2.symm)
        (Scripted.reads_repeated.mp reads)).1
      exact .some type name place namePlace (takesFurtherParameters_of_runs runs)
    · exact .none closing rest
  · rintro (⟨closing, rest⟩ | ⟨type, name, place, namePlace, others⟩)
    · exact ⟨closing, .inr ⟨by simp, rfl, rfl, rfl⟩⟩
    · obtain ⟨closing, exhausts⟩ := others.exhausts stop
      exact ⟨closing, .inl ⟨by simp [Lexeme.type, Lexeme.op], ⟨type, name⟩, _, place, namePlace,
        rfl, _, ⟨_, exhausts.reads_repeated, rfl⟩, rfl⟩⟩

section Nesting

variable {inner : Scripted Item} {kind : Body} {nodes : List Node} {node : Node}

theorem reads_bodyEnd {openBlocks : Nat} :
    Reads (bodyEnd kind openBlocks) stop ahead script nodes rest ↔
      (∃ brace, ahead = (Lexeme.op "\x7d").token brace :: rest) ∧ nodes = [] ∧ script = [] := by
  simp [bodyEnd, and_assoc]

theorem reads_endsBody_true {openBlocks : Nat} :
    Reader.Reads (endsBody openBlocks) stop ahead true rest ↔
      (ahead = [] ∨ openBlocks = 0 ∧ (Lexeme.op "\x7d").Starts ahead) ∧ rest = ahead := by
  by_cases ended : ahead = [] <;> by_cases closed : openBlocks = 0 <;>
    simp [endsBody, ended, closed]

theorem reads_endsBody_false {openBlocks : Nat} :
    Reader.Reads (endsBody openBlocks) stop ahead false rest ↔
      ahead ≠ [] ∧ (openBlocks = 0 → ¬ (Lexeme.op "\x7d").Starts ahead) ∧ rest = ahead := by
  by_cases ended : ahead = [] <;> by_cases closed : openBlocks = 0 <;>
    simp +contextual [endsBody, ended, closed, and_comm]

theorem reads_bodyRest_succ {rounds openBlocks : Nat} :
    Reads (bodyRest inner kind (rounds + 1) openBlocks) stop ahead script nodes rest ↔
      openBlocks = 0 ∧ (∃ brace, ahead = (Lexeme.op "\x7d").token brace :: rest) ∧ nodes = [] ∧
          script = [] ∨
        ahead ≠ [] ∧ (openBlocks = 0 → ¬ (Lexeme.op "\x7d").Starts ahead) ∧
          ∃ front item middle, Reads inner stop ahead front item middle ∧
            ∃ back, (∃ others, Reads (bodyRest inner kind rounds (item.openAfter openBlocks)) stop
              middle back others rest ∧ nodes = item.nodes ++ others) ∧ script = front ++ back := by
  have ends : (ahead = [] ∨ openBlocks = 0 ∧ (Lexeme.op "\x7d").Starts ahead) ∧
      (∃ brace, ahead = (Lexeme.op "\x7d").token brace :: rest) ∧ nodes = [] ∧ script = [] ↔
        openBlocks = 0 ∧ (∃ brace, ahead = (Lexeme.op "\x7d").token brace :: rest) ∧ nodes = [] ∧
          script = [] := by
    constructor
    · rintro ⟨ended, ⟨brace, rfl⟩, emptied⟩
      exact ⟨by simpa using ended, ⟨brace, rfl⟩, emptied⟩
    · rintro ⟨rfl, ⟨brace, rfl⟩, emptied⟩
      exact ⟨.inr ⟨rfl, by simp⟩, ⟨brace, rfl⟩, emptied⟩
  rw [← ends, or_comm]
  simp [bodyRest, reads_endsBody_true, reads_endsBody_false, reads_bodyEnd, and_assoc]

theorem reads_body :
    Reads (body inner kind) stop ahead script nodes rest ↔
      ∃ inside, (∃ brace, ahead = (Lexeme.op "\x7b").token brace :: inside) ∧
        Reads (bodyRest inner kind inside.length 0) stop inside script nodes rest := by
  simp [body, and_assoc]

theorem reads_arm {place : Location} {found : Arm} :
    Reads (arm inner) stop ((Lexeme.keyword "if").token place :: ahead) script found rest ↔
      ∃ guard middle opening used,
        (∃ closing, ahead =
          (Lexeme.op "(").token opening :: (used ++ (Lexeme.op ")").token closing :: middle)) ∧
          Derives .expression used guard ∧
          ∃ nodes inside, Reads (body inner .thenBranch) stop middle inside nodes rest ∧
            found = ⟨guard, nodes, place⟩ ∧
            script = .check guard :: .enter .block :: (inside ++ [.leave]) := by
  simp [arm, scopedBody, reads_condition, and_assoc]

theorem Lexeme.keyword_kind_ne (word : String) : (Lexeme.keyword word).kind ≠ .endOfInput :=
  Kind.noConfusion

/-- The token at the front, or the terminator behind no token, tells whether tokens start
with a lexeme. -/
theorem front_eq_iff (stop : Terminator) (ahead : List Token) {lexeme : Lexeme}
    (inside : lexeme.kind ≠ .endOfInput) :
    (ahead[0]?.getD stop.token).toLexeme = lexeme ↔ lexeme.Starts ahead := by
  obtain _ | ⟨first, tail⟩ := ahead
  · suffices stop.token.toLexeme ≠ lexeme by simpa using this
    rintro rfl
    exact inside rfl
  · simp

theorem reads_furtherArm_none :
    Reads (furtherArm inner) stop ahead script none rest ↔
      ¬ ((Lexeme.keyword "else").Starts ahead ∧ (Lexeme.keyword "if").Starts ahead.tail) ∧
        rest = ahead ∧ script = [] := by
  obtain _ | ⟨first, tail⟩ := ahead
  · by_cases beyond : stop.beyond[0]?.any (·.is (.keyword "if")) = true <;>
      simp [furtherArm, reads_sees, beyond]
  · have behind := front_eq_iff stop tail (Lexeme.keyword_kind_ne "if")
    by_cases turned : first.toLexeme = .keyword "else" <;>
      by_cases follows : (Lexeme.keyword "if").Starts tail <;>
      simp +contextual [furtherArm, reads_sees, behind, and_assoc, turned, follows]

theorem reads_furtherArm_some {found : Arm} :
    Reads (furtherArm inner) stop ahead script (some found) rest ↔
      (Lexeme.keyword "else").Starts ahead ∧ (Lexeme.keyword "if").Starts ahead.tail ∧
        Reads (arm inner) stop ahead.tail script found rest := by
  obtain _ | ⟨first, tail⟩ := ahead
  · simp [furtherArm]
  · have behind := front_eq_iff stop tail (Lexeme.keyword_kind_ne "if")
    simp [furtherArm, reads_sees, behind]

theorem reads_elseBranch {other : Option (List Node)} :
    Reads (elseBranch inner) stop ahead script other rest ↔
      ¬ (Lexeme.keyword "else").Starts ahead ∧ other = none ∧ rest = ahead ∧ script = [] ∨
        ∃ word middle, ahead = (Lexeme.keyword "else").token word :: middle ∧
          ∃ nodes inside, Reads (body inner .elseBranch) stop middle inside nodes rest ∧
            other = some nodes ∧ script = .enter .block :: (inside ++ [.leave]) := by
  simp [elseBranch, and_assoc, scopedBody, Option.exists]

/-- An `if` is read as its first arm, the further arms and the last else branch. -/
theorem reads_ifStatement :
    Reads (ifStatement inner) stop ahead script node rest ↔
      ∃ front found middle, Reads (arm inner) stop ahead front found middle ∧
        ∃ further arms after, Reads (repeated (furtherArm inner)) stop middle further arms after ∧
          ∃ back, (∃ other, Reads (elseBranch inner) stop after back other rest ∧
            node = found.node
              (arms.foldr (fun arm otherwise => some [arm.node otherwise]) other)) ∧
            script = front ++ (further ++ back) := by
  simp [ifStatement, and_assoc]

theorem reads_whileStatement {place : Location} :
    Reads (whileStatement inner) stop ((Lexeme.keyword "while").token place :: ahead) script node
        rest ↔
      ∃ guard middle opening used,
        (∃ closing, ahead =
          (Lexeme.op "(").token opening :: (used ++ (Lexeme.op ")").token closing :: middle)) ∧
          Derives .expression used guard ∧
          ∃ nodes inside, Reads (body inner .whileLoop) stop middle inside nodes rest ∧
            node = .whileStmt guard nodes place ∧
            script = .check guard :: .enter .block :: (inside ++ [.leave]) := by
  simp [whileStatement, scopedBody, reads_condition, and_assoc]

theorem reads_forStatement {place : Location} :
    Reads (forStatement inner) stop ((Lexeme.keyword "for").token place :: ahead) script node rest ↔
      ∃ clauses, (∃ opening, ahead = (Lexeme.op "(").token opening :: clauses) ∧
        ∃ initScript init afterInit, TakesInitializer clauses initScript init afterInit ∧
        ∃ guardScript guard afterGuard,
          TakesClause .semicolon afterInit guardScript guard afterGuard ∧
        ∃ updateScript update inside middle,
          TakesClause (.op ")") afterGuard updateScript update middle ∧
        (∃ nodes, Reads (body inner .forLoop) stop middle inside nodes rest ∧
          node = .forStmt init guard update nodes place) ∧
        script = .enter .block ::
          (initScript ++ (guardScript ++ (updateScript ++ (inside ++ [.leave])))) := by
  simp [forStatement, reads_forInitializer, reads_optional closes_semicolon,
    reads_optional closes_paren, and_assoc]

theorem reads_methodRest {returnType : Option Token} :
    Reads (methodRest inner returnType) stop ahead script node rest ↔
      ∃ clauses name namePlace, (∃ opening, ahead = (Lexeme.name name).token namePlace ::
          (Lexeme.op "(").token opening :: clauses) ∧
        ∃ paramScript params inside middle, TakesParameters clauses paramScript params middle ∧
        (∃ nodes, Reads (body inner .method) stop middle inside nodes rest ∧
          node = .methodDecl (returnType.map (·.text)) name params nodes
            (returnType.getD ((Lexeme.name name).token namePlace)).location) ∧
        script = .declare ⟨name, (returnType.getD ((Lexeme.name name).token namePlace)).text,
            .method⟩ namePlace :: .enter .methodBody :: (paramScript ++ (inside ++ [.leave])) := by
  simp [methodRest, reads_parameters, and_assoc]

theorem reads_classDeclaration {place : Location} :
    Reads (classDeclaration inner) stop ((Lexeme.keyword "class").token place :: ahead) script node
        rest ↔
      ∃ afterBrace name namePlace, (∃ brace, ahead = (Lexeme.name name).token namePlace ::
          (Lexeme.op "\x7b").token brace :: afterBrace) ∧
        ∃ inside, (∃ members,
          (∃ closing, Reads (repeated (member inner name)) stop afterBrace inside members
            ((Lexeme.op "\x7d").token closing :: rest)) ∧
          node = .classDecl name (members.filterMap Member.field?)
            (members.filterMap Member.method?) place) ∧
        script = .declare ⟨name, "class", .className⟩ namePlace ::
          .enter .classBody :: (inside ++ [.leave]) := by
  simp [classDeclaration, and_assoc]

theorem reads_member_none {className : String} :
    Reads (member inner className) stop ahead script none rest ↔
      (ahead = [] ∨ (Lexeme.op "\x7d").Starts ahead) ∧ rest = ahead ∧ script = [] := by
  by_cases ended : ahead = [] <;> simp [member, and_assoc, ended]

/-- Whether the second token ahead is an opening parenthesis, so that a name in front of it
begins a method. -/
def IsMethodAhead (stop : Terminator) (ahead : List Token) : Prop :=
  (ahead[1]?.or (stop.token :: stop.beyond)[1 - ahead.length]?).any (·.is (.op "(")) = true

theorem isMethodAhead_of_reads {returnType : Option Token}
    (reads : Reads (methodRest inner returnType) stop ahead script node rest) :
    IsMethodAhead stop ahead := by
  obtain ⟨clauses, name, namePlace, ⟨opening, rfl⟩, _⟩ := reads_methodRest.mp reads
  simp [IsMethodAhead]

theorem not_isMethodAhead_of_takes {first : Token}
    (taken : TakesVariable (first :: ahead) script node rest) : ¬ IsMethodAhead stop ahead := by
  cases taken <;> simp [IsMethodAhead, Lexeme.op, Lexeme.semicolon]

/-- A parenthesis behind the name tells a method from a variable. -/
theorem reads_declaration {type : String} {place : Location} :
    Reads (declaration inner) stop ((Lexeme.type type).token place :: ahead) script node rest ↔
      Reads (methodRest inner (some ((Lexeme.type type).token place))) stop ahead script node rest ∨
        TakesVariable ((Lexeme.type type).token place :: ahead) script node rest := by
  have unfolded :
      Reads (declaration inner) stop ((Lexeme.type type).token place :: ahead) script node rest ↔
        IsMethodAhead stop ahead ∧
          Reads (methodRest inner (some ((Lexeme.type type).token place))) stop ahead script node
            rest ∨
        ¬ IsMethodAhead stop ahead ∧
          TakesVariable ((Lexeme.type type).token place :: ahead) script node rest := by
    simp [declaration, methodDeclaration, reads_sees, reads_variableDeclaration, and_assoc,
      IsMethodAhead]
  rw [unfolded]
  constructor
  · exact Or.imp And.right And.right
  · rintro (reads | taken)
    · exact .inl ⟨isMethodAhead_of_reads reads, reads⟩
    · exact .inr ⟨not_isMethodAhead_of_takes taken, taken⟩

theorem reads_typedMember {type : String} {place : Location} {found : Member} :
    Reads (typedMember inner) stop ((Lexeme.type type).token place :: ahead) script found rest ↔
      (∃ node, Reads (methodRest inner (some ((Lexeme.type type).token place))) stop ahead script
        node rest ∧ found = .method node) ∨
      ∃ node, TakesVariable ((Lexeme.type type).token place :: ahead) script node rest ∧
        found = .field node := by
  have unfolded :
      Reads (typedMember inner) stop ((Lexeme.type type).token place :: ahead) script found rest ↔
        (ahead.head?.getD stop.token).kind = .identifier ∧ IsMethodAhead stop ahead ∧
          (∃ node, Reads (methodRest inner (some ((Lexeme.type type).token place))) stop ahead
            script node rest ∧ found = .method node) ∨
        ((ahead.head?.getD stop.token).kind = .identifier → ¬ IsMethodAhead stop ahead) ∧
          ∃ node, TakesVariable ((Lexeme.type type).token place :: ahead) script node rest ∧
            found = .field node := by
    simp [typedMember, methodDeclaration, reads_sees, reads_variableDeclaration, and_assoc,
      IsMethodAhead, List.head?_eq_getElem?]
  rw [unfolded]
  constructor
  · exact Or.imp (And.right ∘ And.right) And.right
  · rintro (⟨node, reads, rfl⟩ | ⟨node, taken, rfl⟩)
    · have parenthesized := isMethodAhead_of_reads reads
      obtain ⟨clauses, name, namePlace, ⟨opening, rfl⟩, _⟩ := reads_methodRest.mp reads
      exact .inl ⟨rfl, parenthesized, node, reads, rfl⟩
    · exact .inr ⟨fun _ => not_isMethodAhead_of_takes taken, node, taken, rfl⟩

theorem Modifies.reserved {token : Token} (modifies : Modifies token) : token.kind = .reserved := by
  obtain ⟨word, _, equal⟩ := modifies
  rw [equal, Lexeme.keyword]

theorem modifies_iff (token : Token) :
    Modifies token ↔ token.kind = .reserved ∧ token.text ∈ modifiers := by
  obtain ⟨⟨kind, text⟩, place⟩ := token
  simp only [Modifies, Lexeme.keyword, Lexeme.mk.injEq]
  constructor
  · rintro ⟨_, known, rfl, rfl⟩
    exact ⟨rfl, known⟩
  · rintro ⟨rfl, known⟩
    exact ⟨text, known, rfl, rfl⟩

/-- The modifiers at the front are taken one and all. -/
theorem splitRun_modifier_snd :
    (splitRun modifier? ahead).2 = rest ↔
      ∃ taken, ahead = taken ++ rest ∧ (∀ token ∈ taken, Modifies token) ∧
        ∀ first ∈ rest.head?, ¬ Modifies first := by
  induction ahead with
  | nil => simp +contextual [splitRun, eq_comm]
  | cons first tail inductionHypothesis =>
      by_cases modifies : Modifies first
      · have classified : modifier? first = some first.text :=
          if_pos ((modifies_iff first).mp modifies)
        simp only [splitRun, classified, inductionHypothesis]
        constructor
        · rintro ⟨taken, rfl, modified, ended⟩
          exact ⟨first :: taken, rfl, by simpa using ⟨modifies, modified⟩, ended⟩
        · rintro ⟨_ | ⟨_, taken⟩, split, modified, ended⟩
          · obtain rfl : first :: tail = rest := split
            exact absurd modifies (ended first rfl)
          · obtain ⟨rfl, rfl⟩ := List.cons.inj split
            exact ⟨taken, rfl, fun token member => modified token (.tail _ member), ended⟩
      · have classified : modifier? first = none := if_neg (mt (modifies_iff first).mpr modifies)
        simp only [splitRun, classified]
        constructor
        · rintro rfl
          exact ⟨[], rfl, by simp, by simpa using modifies⟩
        · rintro ⟨_ | ⟨_, taken⟩, split, modified, ended⟩
          · exact split
          · obtain ⟨rfl, _⟩ := List.cons.inj split
            exact absurd (modified first List.mem_cons_self) modifies

/-- Modifiers are taken up to the first token of another kind. -/
theorem exists_splitRun_modifiers {taken : List Token} (modified : ∀ token ∈ taken, Modifies token)
    (first : Token) (tail : List Token) (unreserved : first.kind ≠ .reserved) :
    ∃ words, splitRun modifier? (taken ++ first :: tail) = (words, first :: tail) := by
  refine ⟨_, Prod.ext rfl (splitRun_modifier_snd.mpr ⟨taken, rfl, modified, ?_⟩)⟩
  rintro _ ⟨⟩ modifies
  exact unreserved modifies.reserved

/-- What modifiers and a token other than a bracket begin is not at a brace. -/
theorem not_starts_of_modifies {taken tail : List Token} {first : Token}
    (modified : ∀ token ∈ taken, Modifies token) (kind : first.kind ≠ .operator) (text : String) :
    ¬ (Lexeme.op text).Starts (taken ++ first :: tail) := by
  rintro starts
  obtain _ | ⟨modifier, others⟩ := taken
  · exact kind (by rw [(Lexeme.starts_cons ..).mp starts, Lexeme.op])
  · have modifies := (modified modifier List.mem_cons_self).reserved
    rw [(Lexeme.starts_cons ..).mp starts] at modifies
    cases modifies

theorem reads_member_some {className : String} {found : Member} :
    Reads (member inner className) stop ahead script (some found) rest ↔
      ∃ taken after, ahead = taken ++ after ∧ (∀ token ∈ taken, Modifies token) ∧
        ((∃ type place tail, after = (Lexeme.type type).token place :: tail ∧
          Reads (typedMember inner) stop after script found rest) ∨
        ∃ place tail, after = (Lexeme.name className).token place :: tail ∧
          ∃ node, Reads (methodRest inner none) stop after script node rest ∧
            found = .method node) := by
  have unfolded :
      Reads (member inner className) stop ahead script (some found) rest ↔
        ahead ≠ [] ∧ ¬ (Lexeme.op "\x7d").Starts ahead ∧
          ∃ words after, splitRun modifier? ahead = (words, after) ∧
            ((after.head?.getD stop.token).kind = .dataType ∧
                Reads (typedMember inner) stop after script found rest ∨
              (after.head?.getD stop.token).kind ≠ .dataType ∧
                ∃ middle, Reader.Reads (sees 1 (·.is (.op "("))) stop after true middle ∧
                  (after.head?.getD stop.token).kind = .identifier ∧
                  (after.head?.getD stop.token).text = className ∧
                  ∃ node, Reads (methodRest inner none) stop middle script node rest ∧
                    found = .method node) := by
    simp [member, constructor, and_assoc]
  rw [unfolded]
  constructor
  · rintro ⟨_, _, words, after, split, choice⟩
    obtain ⟨taken, rfl, modified, _⟩ := splitRun_modifier_snd.mp (congrArg Prod.snd split)
    refine ⟨taken, after, rfl, modified, ?_⟩
    rcases choice with ⟨kind, reads⟩ | ⟨_, middle, seen, kind, named, node, reads, rfl⟩
    · obtain ⟨type, place, tail, rfl⟩ := exists_type_of_kind kind
      exact .inl ⟨type, place, tail, rfl, reads⟩
    · obtain ⟨name, place, tail, rfl⟩ := exists_name_of_kind kind
      obtain rfl : middle = _ := (reads_sees.mp seen).2
      obtain rfl : name = className := named
      exact .inr ⟨place, tail, rfl, node, reads, rfl⟩
  · rintro ⟨taken, after, rfl, modified, ⟨type, place, tail, rfl, reads⟩ | ⟨place, tail, rfl,
      node, reads, rfl⟩⟩
    · obtain ⟨words, split⟩ := exists_splitRun_modifiers modified
        ((Lexeme.type type).token place) tail (by simp)
      exact ⟨by simp, not_starts_of_modifies modified (by simp) _, words, _, split,
        .inl ⟨rfl, reads⟩⟩
    · obtain ⟨clauses, name, namePlace, ⟨opening, equal⟩, _⟩ := reads_methodRest.mp reads
      obtain ⟨_, rfl⟩ := List.cons.inj equal
      obtain ⟨words, split⟩ := exists_splitRun_modifiers modified
        ((Lexeme.name className).token place) ((Lexeme.op "(").token opening :: clauses) (by simp)
      exact ⟨by simp, not_starts_of_modifies modified (by simp) _, words, _, split,
        .inr ⟨by simp, _, reads_sees.mpr ⟨by simp, rfl⟩, rfl, rfl, node, reads, rfl⟩⟩

theorem reads_passOver {first : Token} {tail : List Token} {item : Item} :
    Reads passOver stop (first :: tail) script item rest ↔
      item = .nothing ∧ rest = tail ∧ script = [] := by
  simp [passOver, and_assoc]

/-- A word that begins no statement is passed over. -/
theorem reservedStatement_eq_passOver {word : String}
    (unknown : Lexeme.keyword word ∉ statementLexemes) :
    reservedStatement inner word = passOver := by
  unfold reservedStatement
  split <;> first | rfl | exact absurd (by decide) unknown

theorem reads_loneOperator {text : String} {first : Token} {tail : List Token} {item : Item} :
    Reads (loneOperator text) stop (first :: tail) script item rest ↔
      rest = tail ∧ (text = "\x7b" ∧ item = .opened ∧ script = [.openBlock] ∨
        text = "\x7d" ∧ item = .closed ∧ script = [.closeBlock] ∨
        text ≠ "\x7b" ∧ text ≠ "\x7d" ∧ item = .nothing ∧ script = []) := by
  unfold loneOperator
  split <;> simp_all [and_left_comm, and_assoc]

/-- The reader of a statement that begins with a token. -/
def statementFrom (inner : Scripted Item) (first : Token) : Scripted Item :=
  match first.kind with
  | .dataType => Item.node <$> declaration inner
  | .identifier => Item.node <$> expressionStatement
  | .reserved => reservedStatement inner first.text
  | .operator => loneOperator first.text
  | _ => passOver

theorem reads_statement {first : Token} {tail : List Token} {item : Item} :
    Reads (statement inner) stop (first :: tail) script item rest ↔
      ∃ back, Reads (statementFrom inner first) stop (first :: tail) back item rest ∧
        script = mark (first :: tail) ++ back := by
  simp [statement, mark]
  rfl

end Nesting
end BraceLang.Grammar
