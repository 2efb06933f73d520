import BraceLang.Proofs.Analysis
import BraceLang.Proofs.Blame.Expression
import BraceLang.Proofs.Lockstep.Scripted

/-!
# What a failing statement speaks of

What `Reader.Speaks` is for readers without a script. The names that a class is blamed with were
read in front of its members: its own behind its keyword, that of a method at the member that
lacks a type.
-/

namespace BraceLang

namespace Scripted

variable {α β : Type} {tokens : List Token}

/-- On some of `tokens`, a reader leaves some of them or fails and speaks of them. -/
def Speaks (tokens : List Token) (reader : Scripted α) : Prop :=
  ∀ stop ahead, ahead ⊆ tokens → Reader.SpokenOf tokens (reader stop ahead).result

section Rules

variable {reader : Scripted α} {next : α → Scripted β}

/-- What follows a reading speaks of tokens, given that the reading has taken place. -/
theorem Speaks.bind_reads (speaks : Speaks tokens reader)
    (further : ∀ stop ahead script value rest, ahead ⊆ tokens →
      Reads reader stop ahead script value rest → Speaks tokens (next value)) :
    Speaks tokens (reader >>= next) := by
  intro stop ahead inside
  have first := speaks stop ahead inside
  rcases outcome : reader stop ahead with ⟨script, failure | ⟨value, rest⟩⟩
  · rw [outcome] at first
    rw [bind_error outcome]
    exact first
  · rw [outcome] at first
    rw [bind_ok outcome]
    exact further stop ahead script value rest inside outcome stop rest first

theorem Speaks.bind (speaks : Speaks tokens reader)
    (further : ∀ value, Speaks tokens (next value)) : Speaks tokens (reader >>= next) :=
  speaks.bind_reads fun _ _ _ value _ _ _ => further value

theorem speaks_pure (value : α) : Speaks tokens (pure value) := fun _ _ inside => inside

theorem Speaks.map (change : α → β) (speaks : Speaks tokens reader) :
    Speaks tokens (change <$> reader) :=
  speaks.bind fun value => speaks_pure (change value)

theorem Speaks.lift {reader : Reader α} (speaks : Reader.Speaks tokens reader) :
    Speaks tokens (liftM reader : Scripted α) := speaks

theorem speaks_emit (step : Step) : Speaks tokens (emit step) := fun _ _ inside => inside

theorem Speaks.onFailure (speaks : Speaks tokens reader) (steps : List Step) :
    Speaks tokens (reader.onFailure steps) := by
  intro stop ahead inside
  have first := speaks stop ahead inside
  rcases outcome : reader stop ahead with ⟨script, failure | ⟨value, rest⟩⟩
  · rw [outcome] at first
    rw [onFailure_error _ outcome]
    exact first
  · rw [outcome] at first
    rw [onFailure_ok _ outcome]
    exact first

theorem Speaks.within (kind : ScopeKind) (speaks : Speaks tokens reader) :
    Speaks tokens (within kind reader) :=
  (speaks_emit _).bind fun _ => (speaks.onFailure _).bind fun value =>
    (speaks_emit _).bind fun _ => speaks_pure value

theorem Speaks.collect {item : Scripted (Option α)} (items : Speaks tokens item) (rounds : Nat) :
    Speaks tokens (collect item rounds) := by
  induction rounds with
  | zero => exact speaks_pure []
  | succ rounds inductionHypothesis =>
      refine items.bind fun found => ?_
      cases found with
      | none => exact speaks_pure []
      | some value => exact inductionHypothesis.bind fun values => speaks_pure (value :: values)

theorem Speaks.repeated {item : Scripted (Option α)} (items : Speaks tokens item) :
    Speaks tokens (repeated item) :=
  (Speaks.lift Reader.speaks_remaining).bind fun rounds => items.collect rounds

end Rules

/-- What is wanted is found where it is, so that a name speaks of a token. -/
theorem foundIn_of_reads_expect {position : Position} {stop : Terminator}
    {ahead rest : List Token} {script : List Step} {name : Token} (inside : ahead ⊆ tokens)
    (reads : Reads (liftM (Reader.expect .identifier position)) stop ahead script name rest) :
    (Lexeme.name name.text).FoundIn tokens := by
  obtain ⟨rfl, named⟩ := Reader.reads_expect.mp (reads_lift.mp reads).2
  exact foundIn_name (of_decide_eq_true named) (foundIn_of_mem (inside (List.mem_cons_self ..)))

end Scripted

namespace Grammar

open Reader (speaks_accept speaks_at speaks_atEnd speaks_expect speaks_next speaks_peek
  speaks_refuse speaks_remaining speaks_run speaks_sees speaks_skip)
open Scripted

variable {tokens : List Token}

section Simple

theorem speaks_checked : Speaks tokens checked :=
  (Speaks.lift speaks_expression).bind fun node =>
    (speaks_emit _).bind fun _ => speaks_pure node

theorem speaks_optional (absent : Lexeme) : Speaks tokens (optional absent) := by
  refine (Speaks.lift (speaks_at _)).bind fun closed => ?_
  split_ifs
  · exact speaks_pure none
  · exact speaks_checked.bind fun node => speaks_pure (some node)

theorem speaks_initializer (type name : String) : Speaks tokens (initializer type name) := by
  refine (Speaks.lift (speaks_accept _)).bind fun sign => ?_
  split_ifs
  · exact (Speaks.lift speaks_expression).bind fun value =>
      (speaks_emit _).bind fun _ => speaks_pure (some value)
  · exact speaks_pure none

theorem speaks_variableDeclaration : Speaks tokens variableDeclaration := by
  refine (Speaks.lift speaks_next).bind fun type => ?_
  refine (Speaks.lift (speaks_expect _ _)).bind fun name => ?_
  refine (speaks_emit _).bind fun _ => (speaks_initializer _ _).bind fun init => ?_
  exact (Speaks.lift (speaks_expect _ _)).bind fun _ => speaks_pure _

theorem speaks_expressionStatement : Speaks tokens expressionStatement :=
  speaks_checked.bind fun node => (Speaks.lift (speaks_expect _ _)).bind fun _ => speaks_pure node

theorem speaks_returnStatement : Speaks tokens returnStatement := by
  refine (Speaks.lift speaks_next).bind fun keyword => (speaks_optional _).bind fun value => ?_
  exact (Speaks.lift (speaks_expect _ _)).bind fun _ => speaks_pure _

theorem speaks_jump (node : Location → Node) : Speaks tokens (jump node) :=
  (Speaks.lift speaks_next).bind fun _ => (Speaks.lift (speaks_accept _)).bind fun _ =>
    speaks_pure _

theorem speaks_passOver : Speaks tokens passOver :=
  (Speaks.lift speaks_skip).bind fun _ => speaks_pure _

theorem speaks_loneOperator (text : String) : Speaks tokens (loneOperator text) := by
  refine (Speaks.lift speaks_skip).bind fun _ => ?_
  split
  · exact (speaks_emit _).bind fun _ => speaks_pure _
  · exact (speaks_emit _).bind fun _ => speaks_pure _
  · exact speaks_pure _

theorem speaks_condition (before after : Position) : Speaks tokens (condition before after) :=
  (Speaks.lift (speaks_expect _ _)).bind fun _ => speaks_checked.bind fun node =>
    (Speaks.lift (speaks_expect _ _)).bind fun _ => speaks_pure node

theorem speaks_forInitializer : Speaks tokens forInitializer := by
  refine (Speaks.lift (speaks_accept _)).bind fun semicolon => ?_
  split_ifs
  · exact speaks_pure none
  · refine (Speaks.lift speaks_peek).bind fun token => ?_
    split_ifs
    · exact speaks_variableDeclaration.bind fun node => speaks_pure (some node)
    · exact speaks_checked.bind fun node => (Speaks.lift (speaks_expect _ _)).bind fun _ =>
        speaks_pure (some node)

theorem speaks_parameter : Speaks tokens parameter :=
  (Speaks.lift (speaks_expect _ _)).bind fun _ => (Speaks.lift (speaks_expect _ _)).bind fun _ =>
    (speaks_emit _).bind fun _ => speaks_pure _

theorem speaks_furtherParameter : Speaks tokens furtherParameter := by
  refine (Speaks.lift (speaks_accept _)).bind fun comma => ?_
  split_ifs
  · exact speaks_parameter.bind fun param => speaks_pure (some param)
  · exact speaks_pure none

theorem speaks_parameters : Speaks tokens parameters := by
  refine (Speaks.lift (speaks_at _)).bind fun closed => ?_
  split_ifs
  · exact speaks_pure []
  · exact speaks_parameter.bind fun first => speaks_furtherParameter.repeated.bind fun further =>
      speaks_pure (first :: further)

end Simple

section Nesting

variable {inner : Scripted Item}

theorem speaks_bodyEnd (kind : Body) (openBlocks : Nat) :
    Speaks tokens (bodyEnd kind openBlocks) :=
  ((Speaks.lift (speaks_expect _ _)).onFailure _).bind fun _ => speaks_pure []

theorem speaks_endsBody (openBlocks : Nat) : Reader.Speaks tokens (endsBody openBlocks) := by
  refine speaks_atEnd.bind fun ended => ?_
  split_ifs
  · exact Reader.speaks_pure true
  · exact speaks_at _
  · exact Reader.speaks_pure false

theorem speaks_bodyRest (speaks : Speaks tokens inner) (kind : Body) (rounds openBlocks : Nat) :
    Speaks tokens (bodyRest inner kind rounds openBlocks) := by
  induction rounds generalizing openBlocks with
  | zero => exact speaks_bodyEnd kind openBlocks
  | succ rounds inductionHypothesis =>
      refine (Speaks.lift (speaks_endsBody openBlocks)).bind fun ended => ?_
      split_ifs
      · exact speaks_bodyEnd kind openBlocks
      · exact (speaks.onFailure _).bind fun item => (inductionHypothesis _).bind fun rest =>
          speaks_pure _

theorem speaks_body (speaks : Speaks tokens inner) (kind : Body) :
    Speaks tokens (body inner kind) :=
  (Speaks.lift (speaks_expect _ _)).bind fun _ => (Speaks.lift speaks_remaining).bind fun rounds =>
    speaks_bodyRest speaks kind rounds 0

theorem speaks_scopedBody (speaks : Speaks tokens inner) (kind : Body) :
    Speaks tokens (scopedBody inner kind) :=
  (speaks_body speaks kind).within _

theorem speaks_arm (speaks : Speaks tokens inner) : Speaks tokens (arm inner) :=
  (Speaks.lift speaks_next).bind fun _ => (speaks_condition _ _).bind fun _ =>
    (speaks_scopedBody speaks _).bind fun _ => speaks_pure _

theorem speaks_furtherArm (speaks : Speaks tokens inner) : Speaks tokens (furtherArm inner) := by
  refine (Speaks.lift (speaks_at _)).bind fun other => ?_
  refine (Speaks.lift (speaks_sees _ _)).bind fun again => ?_
  split_ifs
  · exact (Speaks.lift speaks_skip).bind fun _ => (speaks_arm speaks).bind fun arm =>
      speaks_pure (some arm)
  · exact speaks_pure none

theorem speaks_elseBranch (speaks : Speaks tokens inner) : Speaks tokens (elseBranch inner) := by
  refine (Speaks.lift (speaks_accept _)).bind fun other => ?_
  split_ifs
  · exact (speaks_scopedBody speaks _).bind fun statements => speaks_pure (some statements)
  · exact speaks_pure none

theorem speaks_ifStatement (speaks : Speaks tokens inner) : Speaks tokens (ifStatement inner) :=
  (speaks_arm speaks).bind fun _ => (speaks_furtherArm speaks).repeated.bind fun _ =>
    (speaks_elseBranch speaks).bind fun _ => speaks_pure _

theorem speaks_whileStatement (speaks : Speaks tokens inner) :
    Speaks tokens (whileStatement inner) :=
  (Speaks.lift speaks_next).bind fun _ => (speaks_condition _ _).bind fun _ =>
    (speaks_scopedBody speaks _).bind fun _ => speaks_pure _

theorem speaks_forStatement (speaks : Speaks tokens inner) :
    Speaks tokens (forStatement inner) := by
  refine (Speaks.lift speaks_next).bind fun keyword => ?_
  refine (Speaks.lift (speaks_expect _ _)).bind fun _ => Speaks.within _ ?_
  refine speaks_forInitializer.bind fun init => (speaks_optional _).bind fun guard => ?_
  refine (Speaks.lift (speaks_expect _ _)).bind fun _ => (speaks_optional _).bind fun update => ?_
  refine (Speaks.lift (speaks_expect _ _)).bind fun _ => ?_
  exact (speaks_body speaks _).bind fun statements => speaks_pure _

theorem speaks_methodRest (speaks : Speaks tokens inner) (returnType : Option Token) :
    Speaks tokens (methodRest inner returnType) := by
  refine (Speaks.lift (speaks_expect _ _)).bind fun name => (speaks_emit _).bind fun _ => ?_
  refine (Speaks.lift (speaks_expect _ _)).bind fun _ => Speaks.within _ ?_
  refine speaks_parameters.bind fun params => (Speaks.lift (speaks_expect _ _)).bind fun _ => ?_
  exact (speaks_body speaks _).bind fun statements => speaks_pure _

theorem speaks_methodDeclaration (speaks : Speaks tokens inner) :
    Speaks tokens (methodDeclaration inner) :=
  (Speaks.lift speaks_next).bind fun type => speaks_methodRest speaks (some type)

theorem speaks_typedMember (speaks : Speaks tokens inner) : Speaks tokens (typedMember inner) := by
  refine (Speaks.lift (speaks_sees _ _)).bind fun named => ?_
  refine (Speaks.lift (speaks_sees _ _)).bind fun called => ?_
  split_ifs
  · exact (speaks_methodDeclaration speaks).bind fun node => speaks_pure (Member.method node)
  · exact speaks_variableDeclaration.bind fun node => speaks_pure (Member.field node)

theorem speaks_constructor (speaks : Speaks tokens inner) {className name : String}
    (ofClass : (Lexeme.name className).FoundIn tokens)
    (ofMethod : (Lexeme.name name).FoundIn tokens) :
    Speaks tokens (constructor inner className name) := by
  unfold constructor
  split_ifs
  · exact (speaks_methodRest speaks none).bind fun node => speaks_pure (Member.method node)
  · exact Speaks.lift (speaks_refuse fun _ _ => ⟨ofMethod, ofClass⟩)

theorem speaks_member (speaks : Speaks tokens inner) {className : String}
    (ofClass : (Lexeme.name className).FoundIn tokens) :
    Speaks tokens (member inner className) := by
  refine (Speaks.lift speaks_atEnd).bind fun ended => ?_
  refine (Speaks.lift (speaks_at _)).bind fun closed => ?_
  split_ifs
  · exact speaks_pure none
  · refine (Speaks.lift (speaks_run _)).bind fun _ => ?_
    refine (Speaks.lift speaks_peek).bind_reads fun stop ahead _ token _ inside reads => ?_
    obtain ⟨rfl, -⟩ := Reader.reads_peek.mp (reads_lift.mp reads).2
    have found : (ahead.headD stop.token).toLexeme.FoundIn tokens := foundIn_headD inside
    split_ifs with typed
    · exact (speaks_typedMember speaks).bind fun found => speaks_pure (some found)
    · refine (Speaks.lift (speaks_sees _ _)).bind fun called => ?_
      split_ifs with named
      · have ofMethod := foundIn_name (of_decide_eq_true (Bool.and_eq_true_iff.mp named).1) found
        exact (speaks_constructor speaks ofClass ofMethod).bind fun node => speaks_pure (some node)
      · exact Speaks.lift (speaks_refuse fun _ found => ⟨ofClass, found⟩)

theorem speaks_classDeclaration (speaks : Speaks tokens inner) :
    Speaks tokens (classDeclaration inner) := by
  refine (Speaks.lift speaks_next).bind fun keyword => ?_
  refine (Speaks.lift (speaks_expect _ _)).bind_reads fun _ _ _ name _ inside reads => ?_
  have ofClass := foundIn_of_reads_expect inside reads
  refine (speaks_emit _).bind fun _ => (Speaks.lift (speaks_expect _ _)).bind fun _ => ?_
  refine Speaks.within _ ?_
  exact (speaks_member speaks ofClass).repeated.bind fun members =>
    (Speaks.lift (speaks_expect _ _)).bind fun _ => speaks_pure _

theorem speaks_declaration (speaks : Speaks tokens inner) : Speaks tokens (declaration inner) := by
  refine (Speaks.lift (speaks_sees _ _)).bind fun called => ?_
  split_ifs
  · exact speaks_methodDeclaration speaks
  · exact speaks_variableDeclaration

theorem speaks_reservedStatement (speaks : Speaks tokens inner) (word : String) :
    Speaks tokens (reservedStatement inner word) := by
  unfold reservedStatement
  split
  · exact (speaks_ifStatement speaks).map _
  · exact (speaks_whileStatement speaks).map _
  · exact (speaks_forStatement speaks).map _
  · exact speaks_returnStatement.map _
  · exact (speaks_jump _).map _
  · exact (speaks_jump _).map _
  · exact (speaks_classDeclaration speaks).map _
  · exact speaks_passOver

theorem speaks_statement (speaks : Speaks tokens inner) : Speaks tokens (statement inner) := by
  refine (Speaks.lift speaks_peek).bind fun token => ?_
  refine (Speaks.lift speaks_remaining).bind fun left => (speaks_emit _).bind fun _ => ?_
  split
  · exact (speaks_declaration speaks).map _
  · exact speaks_expressionStatement.map _
  · exact speaks_reservedStatement speaks _
  · exact speaks_loneOperator _
  · exact speaks_passOver

end Nesting

theorem speaks_statementWithin (tokens : List Token) (bound : Nat) :
    Speaks tokens (statementWithin bound) := by
  induction bound with
  | zero => exact speaks_pure Item.nothing
  | succ bound inductionHypothesis => exact speaks_statement inductionHypothesis

/-- A program that cannot be read speaks of the tokens ahead. -/
theorem speaks_program : Speaks tokens program := by
  refine (Speaks.lift speaks_peek).bind fun first => ?_
  refine (Speaks.lift speaks_remaining).bind fun bound => ?_
  refine Speaks.bind (Speaks.repeated ?_) fun items => speaks_pure _
  refine (Speaks.lift speaks_atEnd).bind fun ended => ?_
  split_ifs
  · exact speaks_pure none
  · exact (speaks_statementWithin tokens bound).bind fun item => speaks_pure (some item)

end Grammar

/-- An analysis that fails speaks of the tokens it was given. -/
theorem analyzeTokens_speaks {builtins : List Symbol} {tokens : List Token} {error : SyntaxError}
    (failed : analyzeTokens builtins tokens = .error error) : error.cause.SpeaksOf tokens := by
  have inside : (Input.ofTokens tokens).ahead ⊆ tokens := by
    rw [Input.ofTokens_ahead]
    exact (List.takeWhile_sublist _).subset
  have spoken := Grammar.speaks_program (Input.ofTokens tokens).stop _ inside
  have stopped : (Grammar.program (Input.ofTokens tokens).stop
      (Input.ofTokens tokens).ahead).result = .error error :=
    eq_error_of_map_eq_error (eq_error_of_map_eq_error failed)
  rwa [stopped] at spoken

end BraceLang
