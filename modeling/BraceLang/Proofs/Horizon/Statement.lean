import BraceLang.Proofs.Horizon.Scripted

/-!
# How far the reading of a statement looks

No statement is begun or ended by what a word says or by where it stands. The words that are
compared are compared with each other: a constructor has the name of its class.

Two choices look past the token at which they are made. What stands behind an `else` is seen at
once. Whether a type begins a method shows two tokens on, and both a method and a variable take
the type, so a token more has been read by then; where the tokens end behind the type both fail.
-/

namespace BraceLang.Grammar

open Reader Scripted

variable {change : Relabelling}

/-- What a statement leaves behind, in other words at other places. -/
def Item.relabel (change : Relabelling) : Item → Item
  | .node tree => .node (tree.relabel change)
  | item => item

theorem Item.nodes_relabel (item : Item) :
    (item.relabel change).nodes = item.nodes.map (Node.relabel change) := by
  cases item <;> rfl

theorem Item.openAfter_relabel (item : Item) (openBlocks : Nat) :
    (item.relabel change).openAfter openBlocks = item.openAfter openBlocks := by
  cases item <;> rfl

/-- An arm in other words at another place. -/
def Arm.relabel (change : Relabelling) (arm : Arm) : Arm :=
  ⟨arm.condition.relabel change, arm.body.map (Node.relabel change), change.place arm.location⟩

theorem relabel_arm (arm : Arm) (otherwise : Option (List Node)) :
    (arm.node otherwise).relabel change =
      (arm.relabel change).node (otherwise.map (List.map (Node.relabel change))) := by
  rw [Arm.node, Node.relabel, Node.relabelAll_eq_map, Node.relabelElse_eq_map]
  rfl

theorem relabel_furtherArms (further : List Arm) (last : Option (List Node)) :
    (further.foldr (fun arm otherwise => some [arm.node otherwise]) last).map
        (List.map (Node.relabel change)) =
      (further.map (Arm.relabel change)).foldr (fun arm otherwise => some [arm.node otherwise])
        (last.map (List.map (Node.relabel change))) := by
  induction further with
  | nil => rfl
  | cons arm further inductionHypothesis =>
      simp only [List.foldr_cons, List.map_cons, ← inductionHypothesis, ← relabel_arm]
      rfl

/-- A member in other words at another place. -/
def Member.relabel (change : Relabelling) : Member → Member
  | .field node => .field (node.relabel change)
  | .method node => .method (node.relabel change)

theorem relabel_fields (members : List Member) :
    (members.filterMap Member.field?).map (Node.relabel change) =
      (members.map (Member.relabel change)).filterMap Member.field? := by
  rw [List.map_filterMap, List.filterMap_map]
  congr 1
  funext member
  cases member <;> rfl

theorem relabel_methods (members : List Member) :
    (members.filterMap Member.method?).map (Node.relabel change) =
      (members.map (Member.relabel change)).filterMap Member.method? := by
  rw [List.map_filterMap, List.filterMap_map]
  congr 1
  funext member
  cases member <;> rfl

theorem modifier_relabel (token : Token) :
    modifier? (token.relabel change) = (modifier? token).map id := by
  rw [Option.map_id, id, modifier?, modifier?, Token.relabel_kind]
  by_cases reserved : token.kind = .reserved
  · have unnamed : ¬ token.IsWord := by
      rw [Lexeme.IsWord, reserved]
      decide
    rw [Token.relabel_text_of_not_isWord unnamed]
  · rw [if_neg fun both => reserved both.1, if_neg fun both => reserved both.1]

section Simple

variable {bound : Nat}

theorem settles_checked : Settles change bound (Node.relabel change) checked checked :=
  (Settles.lift (settles_expression change bound)).bind fun node =>
    (settles_emit (.check node)).bind fun _ => settles_pure node

theorem settles_optional {absent : Lexeme} (unnamed : ¬ absent.IsWord) :
    Settles change bound (Option.map (Node.relabel change)) (optional absent)
      (optional absent) := by
  refine (Settles.lift (settles_at unnamed)).bind fun closed => ?_
  cases closed with
  | true => exact Scripted.settles_pure none
  | false => exact settles_checked.bind fun node => Scripted.settles_pure (some node)

theorem settles_initializer (type name : String) :
    Settles change bound (Option.map (Node.relabel change)) (initializer type name)
      (initializer (change.word type) (change.word name)) := by
  refine (Settles.lift (settles_accept (by decide))).bind fun sign => ?_
  cases sign with
  | none => exact Scripted.settles_pure none
  | some _ =>
      exact (Settles.lift (settles_expression change bound)).bind fun value =>
        (settles_emit (.initial name type value)).bind fun _ => Scripted.settles_pure (some value)

/-- A variable behind its type. -/
def variableBehind (type : Token) : Scripted Node := do
  let name ← expect .identifier .afterType
  emit (.declare ⟨name.text, type.text, .variable⟩ name.location)
  let init ← initializer type.text name.text
  let _ ← expect .semicolon .afterVariableDeclaration
  return .variableDecl type.text name.text init type.location

theorem settles_variableBehind (type : Token) :
    Settles change bound (Node.relabel change) (variableBehind type)
      (variableBehind (type.reword change)) := by
  refine (Settles.lift (settles_expect_name _)).bind fun name => ?_
  refine (settles_emit (.declare ⟨name.text, type.text, .variable⟩ name.location)).bind fun _ => ?_
  refine (settles_initializer type.text name.text).bind fun init => ?_
  refine (Settles.lift (settles_expect _ _)).bind fun _ => ?_
  refine Scripted.settles_pure_of (Node.variableDecl type.text name.text init
    type.location) ?_
  rw [Node.relabel, Node.relabelOption_eq_map]
  rfl

theorem settled_variableDeclaration (change : Relabelling) (stop : Terminator) {first : Token}
    {tail : List Token} (typed : first.kind = .dataType) (within : tail.length ≤ bound) :
    ∃ taken, Scripted.Settled change (Node.relabel change) (taken + 1) stop (first :: tail)
      (variableDeclaration stop (first :: tail)) variableDeclaration := by
  obtain ⟨taken, settled⟩ := settles_variableBehind first stop tail within
  refine ⟨taken, settled.cons fun other others => ?_⟩
  rw [Token.relabel_eq_reword (.inr typed)]
  rfl

theorem settles_expressionStatement :
    Settles change bound (Node.relabel change) expressionStatement expressionStatement :=
  settles_checked.bind fun node => (Settles.lift (settles_expect _ _)).bind fun _ =>
    Scripted.settles_pure node

theorem settles_returnStatement :
    Settles change bound (Node.relabel change) returnStatement returnStatement := by
  refine (Settles.lift settles_next).bind fun keyword => ?_
  refine (settles_optional (by decide)).bind fun value => ?_
  refine (Settles.lift (settles_expect _ _)).bind fun _ => ?_
  refine Scripted.settles_pure_of (Node.returnStmt value keyword.location) ?_
  rw [Node.relabel, Node.relabelOption_eq_map]
  rfl

theorem settles_jump {node : Location → Node}
    (moves : ∀ location, (node location).relabel change = node (change.place location)) :
    Settles change bound (Node.relabel change) (jump node) (jump node) :=
  (Settles.lift settles_next).bind fun keyword =>
    (Settles.lift (settles_accept (by decide))).bind fun _ =>
      Scripted.settles_pure_of _ (moves keyword.location)

theorem settles_passOver : Settles change bound (Item.relabel change) passOver passOver :=
  (Settles.lift settles_skip).bind fun _ => Scripted.settles_pure Item.nothing

theorem settles_loneOperator (text : String) :
    Settles change bound (Item.relabel change) (loneOperator text) (loneOperator text) := by
  refine (Settles.lift settles_skip).bind fun _ => ?_
  split
  · exact (settles_emit .openBlock).bind fun _ => Scripted.settles_pure Item.opened
  · exact (settles_emit .closeBlock).bind fun _ => Scripted.settles_pure Item.closed
  · exact Scripted.settles_pure Item.nothing

theorem settles_condition (before after : Position) :
    Settles change bound (Node.relabel change) (condition before after)
      (condition before after) :=
  (Settles.lift (settles_expect _ _)).bind fun _ => settles_checked.bind fun node =>
    (Settles.lift (settles_expect _ _)).bind fun _ => Scripted.settles_pure node

/-- The first clause of a counting loop, where it has one. -/
def clause : Scripted (Option Node) := do
  if (← peek).kind = .dataType then
    return some (← variableDeclaration)
  else
    let node ← checked
    let _ ← expect .semicolon .afterForInitializer
    return some node

theorem settles_clause :
    Settles change bound (Option.map (Node.relabel change)) clause clause := by
  intro stop ahead within
  have peeks : Scripted.Settles change bound (Token.relabel change) (liftM peek) (liftM peek) :=
    Settles.lift settles_peek
  obtain ⟨taken, settled⟩ := peeks stop ahead within
  refine settled_bind settled fun script token rest read => ?_
  obtain ⟨rfl, rfl⟩ := Reader.reads_peek.mp (Scripted.reads_lift.mp read).2
  rw [Token.relabel_kind]
  split
  · next typed =>
      obtain ⟨first, tail, rfl⟩ : ∃ first tail, rest = first :: tail := by
        cases rest with
        | nil => cases typed
        | cons first tail => exact ⟨first, tail, rfl⟩
      obtain ⟨taken, declared⟩ := settled_variableDeclaration change stop typed
        (Nat.le_of_succ_le within)
      exact settled_bind declared fun _ node left _ =>
        Scripted.settles_pure (some node) stop left (Nat.le_refl _)
  · exact (settles_checked.bind fun node => (Settles.lift (settles_expect _ _)).bind fun _ =>
      Scripted.settles_pure (some node)) stop rest within

theorem settles_forInitializer :
    Settles change bound (Option.map (Node.relabel change)) forInitializer forInitializer := by
  refine (Settles.lift (settles_accept (by decide))).bind fun semicolon => ?_
  cases semicolon with
  | some _ => exact Scripted.settles_pure none
  | none => exact settles_clause

theorem settles_parameter :
    Settles change bound (Param.relabel change) parameter parameter := by
  refine (Settles.lift (settles_expect_type _)).bind fun type => ?_
  refine (Settles.lift (settles_expect_name _)).bind fun name => ?_
  refine (settles_emit (.declare ⟨name.text, type.text, .parameter⟩ name.location)).bind fun _ => ?_
  exact Scripted.settles_pure (Param.mk type.text name.text)

theorem settles_furtherParameter :
    Settles change bound (Option.map (Param.relabel change)) furtherParameter
      furtherParameter := by
  refine (Settles.lift (settles_accept (by decide))).bind fun comma => ?_
  cases comma with
  | none => exact Scripted.settles_pure none
  | some _ => exact settles_parameter.bind fun param => Scripted.settles_pure (some param)

theorem settles_parameters :
    Settles change bound (List.map (Param.relabel change)) parameters parameters := by
  refine (Settles.lift (settles_at (by decide))).bind fun closed => ?_
  cases closed with
  | true => exact Scripted.settles_pure []
  | false =>
      refine settles_parameter.bind fun first => ?_
      exact (settles_furtherParameter.repeated loopsWithin_furtherParameter fun _ =>
        loopsWithin_furtherParameter).bind fun further => Scripted.settles_pure (first :: further)

end Simple

/-- A statement that may hold as many statements inside one another as tokens are ahead. -/
def anyStatement : Scripted Item := fun stop ahead => statementWithin ahead.length stop ahead

theorem dispatchesInStep_anyStatement (bound : Nat) :
    DispatchesInStep bound anyStatement anyStatement :=
  fun stop ahead nonempty _ =>
    dispatchesInStep_statementWithin (Nat.le_refl _) (Nat.le_refl _) stop ahead nonempty
      (Nat.le_refl _)

/-- No bound that allows for all tokens ahead shows in a statement. -/
theorem dispatchesInStep_statementWithin_any (tokens : Nat) :
    DispatchesInStep tokens (statementWithin tokens) anyStatement :=
  fun stop ahead nonempty within =>
    dispatchesInStep_statementWithin within (Nat.le_refl _) stop ahead nonempty (Nat.le_refl _)

theorem anyStatement_cons (stop : Terminator) (first : Token) (tail : List Token) :
    anyStatement stop (first :: tail) = statement anyStatement stop (first :: tail) :=
  (statement_dispatched (dispatchesInStep_statementWithin_any tail.length) stop (first :: tail)
    (List.cons_ne_nil _ _) (Nat.le_refl _)).1

/-- On at most `bound` tokens, but not on none, the outcome of a statement is settled. -/
def SettlesStatements (change : Relabelling) (bound : Nat) : Prop :=
  ∀ stop ahead, ahead ≠ [] → ahead.length ≤ bound →
    ∃ taken, Scripted.Settled change (Item.relabel change) taken stop ahead
      (anyStatement stop ahead) anyStatement

section Bodies

variable {bound : Nat} {stop : Terminator} {ahead : List Token}

/-- The rest of a body in which `openBlocks` lone braces are open. -/
def behindStatements (kind : Body) (openBlocks : Nat) : Scripted (List Node) :=
  fun stop ahead => bodyRest anyStatement kind ahead.length openBlocks stop ahead

/-- The rest of a body that goes on with a statement. -/
def moreStatements (kind : Body) (openBlocks : Nat) : Scripted (List Node) := do
  let item ← anyStatement.onFailure (List.replicate openBlocks .closeBlock)
  let rest ← behindStatements kind (item.openAfter openBlocks)
  return item.nodes ++ rest

theorem bodyRest_eq_behindStatements (kind : Body) {rounds : Nat} (openBlocks : Nat)
    (enough : ahead.length ≤ rounds) :
    bodyRest anyStatement kind rounds openBlocks stop ahead =
      behindStatements kind openBlocks stop ahead :=
  (bodyRest_inStep (dispatchesInStep_anyStatement _) kind (Nat.le_refl _) enough
    (Nat.le_refl _)).1

/-- Behind a statement fewer tokens are ahead. -/
theorem length_lt_of_reads_anyStatement {script : List Step} {item : Item} {rest : List Token}
    (nonempty : ahead ≠ []) (reads : anyStatement.Reads stop ahead script item rest) :
    rest.length < ahead.length := by
  have dispatched := (dispatchesInStep_anyStatement _ stop ahead nonempty (Nat.le_refl _)).2
  rw [show anyStatement stop ahead = ⟨script, .ok (item, rest)⟩ from reads] at dispatched
  exact ItemCourse.length_lt dispatched

/-- A body ends, or goes on with a statement. -/
theorem behindStatements_eq (kind : Body) (openBlocks : Nat) :
    behindStatements kind openBlocks = (do
      if ← endsBody openBlocks then
        bodyEnd kind openBlocks
      else
        moreStatements kind openBlocks) := by
  funext stop ahead
  rcases endsBody_eq openBlocks stop ahead with ⟨ends, _⟩ | ⟨continues, nonempty, _⟩
  · rw [bind_ok (lift_eq ends), behindStatements, bodyRest_of_ends _ _ _ ends]
    rfl
  obtain ⟨first, tail, rfl⟩ := List.exists_cons_of_ne_nil nonempty
  have steps : behindStatements kind openBlocks stop (first :: tail) =
      bodyStep anyStatement kind tail.length openBlocks stop (first :: tail) :=
    bodyRest_of_continues _ _ _ continues
  have more : bodyStep anyStatement kind tail.length openBlocks stop (first :: tail) =
      moreStatements kind openBlocks stop (first :: tail) := by
    rw [bodyStep, moreStatements]
    rcases outcome : anyStatement stop (first :: tail) with ⟨front, failure | ⟨item, rest⟩⟩
    · rw [bind_error (onFailure_error _ outcome), bind_error (onFailure_error _ outcome)]
    · have shorter := length_lt_of_reads_anyStatement nonempty outcome
      rw [bind_ok (onFailure_ok _ outcome), bind_ok (onFailure_ok _ outcome), bind_congr_left
        (bodyRest_eq_behindStatements kind _ (Nat.le_of_lt_succ shorter))]
  rw [bind_ok (lift_eq continues), steps, more]
  rfl

theorem settles_endsBody (openBlocks : Nat) :
    Reader.Settles change bound id (endsBody openBlocks) (endsBody openBlocks) := by
  refine settles_atEnd.bind fun ended => ?_
  rw [id]
  split_ifs
  · exact Reader.settles_pure true
  · exact settles_at (by decide)
  · exact Reader.settles_pure false

theorem stays_closeBlocks (openBlocks : Nat) :
    (unmarked (List.replicate openBlocks .closeBlock)).map (Step.relabel change) =
      unmarked (List.replicate openBlocks .closeBlock) := by
  have unchanged : unmarked (List.replicate openBlocks .closeBlock) =
      List.replicate openBlocks .closeBlock := List.filter_replicate_of_pos rfl
  rw [unchanged, List.map_replicate]
  rfl

theorem settles_bodyEnd (kind : Body) (openBlocks : Nat) :
    Settles change bound (List.map (Node.relabel change)) (bodyEnd kind openBlocks)
      (bodyEnd kind openBlocks) := by
  have closing : Settles change bound (Token.relabel change)
      (onFailure (expect .closeBrace (.after kind)) (List.replicate openBlocks .closeBlock))
      (onFailure (expect .closeBrace (.after kind)) (List.replicate openBlocks .closeBlock)) := by
    intro stop ahead within
    obtain ⟨taken, settled⟩ := Settles.lift (settles_expect _ _) stop ahead within
    exact ⟨taken, settled.onFailure (stays_closeBlocks openBlocks)⟩
  exact closing.bind fun _ => Scripted.settles_pure []

/-- A body is settled by its statements, one behind the other. -/
theorem settles_behindStatements (statements : SettlesStatements change bound) (kind : Body)
    (openBlocks : Nat) :
    Settles change bound (List.map (Node.relabel change)) (behindStatements kind openBlocks)
      (behindStatements kind openBlocks) := by
  intro stop ahead within
  induction size : ahead.length using Nat.strongRecOn generalizing ahead openBlocks with
  | ind _ inductionHypothesis =>
      subst size
      rw [behindStatements_eq]
      obtain ⟨taken, settled⟩ := Settles.lift (settles_endsBody openBlocks) stop ahead within
      refine settled_bind settled fun script ended rest read => ?_
      cases ended with
      | true =>
          obtain ⟨_, rfl⟩ := reads_endsBody_true.mp (Scripted.reads_lift.mp read).2
          exact settles_bodyEnd kind openBlocks stop rest within
      | false =>
          obtain ⟨nonempty, _, rfl⟩ := reads_endsBody_false.mp (Scripted.reads_lift.mp read).2
          obtain ⟨more, first⟩ := statements stop rest nonempty within
          refine settled_bind (first.onFailure (stays_closeBlocks openBlocks))
            fun _ item left reads => ?_
          have shorter :=
            length_lt_of_reads_anyStatement nonempty (Scripted.reads_onFailure.mp reads)
          obtain ⟨_, further⟩ := inductionHypothesis left.length shorter
            (item.openAfter openBlocks) left (by omega) rfl
          rw [Item.openAfter_relabel]
          refine settled_bind further fun _ nodes last _ => ?_
          refine Scripted.settles_pure_of (item.nodes ++ nodes) ?_ stop last
            (Nat.le_refl _)
          rw [List.map_append, Item.nodes_relabel]

theorem settles_body (statements : SettlesStatements change bound) (kind : Body) :
    Settles change bound (List.map (Node.relabel change)) (body anyStatement kind)
      (body anyStatement kind) :=
  (Settles.lift (settles_expect _ _)).bind fun _ => settles_behindStatements statements kind 0

theorem settles_scopedBody (statements : SettlesStatements change bound) (kind : Body) :
    Settles change bound (List.map (Node.relabel change)) (scopedBody anyStatement kind)
      (scopedBody anyStatement kind) :=
  (settles_body statements kind).within .block

end Bodies

section Lookahead

variable {stop : Terminator}

theorem sees_one (test : Token → Bool) (stop : Terminator) (first : Token) (tail : List Token) :
    sees 1 test stop (first :: tail) = .ok (test (tail.headD stop.token), first :: tail) := by
  cases tail <;> rfl

theorem sees_two (test : Token → Bool) (stop : Terminator) (first second : Token)
    (tail : List Token) :
    sees 2 test stop (first :: second :: tail) =
      .ok (test (tail.headD stop.token), first :: second :: tail) := by
  cases tail <;> rfl

/-- The token behind the next one is seen at once. -/
theorem settled_sees {test : Token → Bool}
    (same : ∀ token, test (token.relabel change) = test token) (first : Token)
    (tail : List Token) :
    Scripted.Settled change id 0 stop (first :: tail)
      ((liftM (sees 1 test) : Scripted Bool) stop (first :: tail)) (liftM (sees 1 test)) := by
  rw [lift_eq (sees_one test stop first tail)]
  refine ⟨.still fun other others mirrors => ?_, fun _ _ _ => rfl⟩
  cases mirrors with
  | @token _ _ others _ behind =>
      rw [lift_eq (sees_one test other _ others), behind.headD, same]
      rfl

/-- What is chosen by a look two tokens on is settled if either choice takes a token. -/
theorem settled_choice {α : Type} {image : α → α} {whole yes no : Scripted α}
    (test : Token → Token → Bool)
    (same : ∀ second third,
      test (second.relabel change) (third.relabel change) = test second third)
    (chosen : ∀ stop first second tail, whole stop (first :: second :: tail) =
      if test second (tail.headD stop.token) then yes stop (first :: second :: tail)
      else no stop (first :: second :: tail))
    {first second : Token} {tail : List Token} {taken takenNo : Nat}
    (yesSettled : Scripted.Settled change image taken stop (first :: second :: tail)
      (yes stop (first :: second :: tail)) yes) (yesTakes : 1 ≤ taken)
    (noSettled : Scripted.Settled change image takenNo stop (first :: second :: tail)
      (no stop (first :: second :: tail)) no) (noTakes : 1 ≤ takenNo) :
    ∃ taken, Scripted.Settled change image taken stop (first :: second :: tail)
      (whole stop (first :: second :: tail)) whole := by
  have mirrored {count : Nat} {other : Terminator} {others : List Token} (enough : 1 ≤ count)
      (mirrors : Mirrors change stop other (count + 2) (first :: second :: tail) others) :
      whole other others = if test second (tail.headD stop.token) then yes other others
        else no other others := by
    have three : Mirrors change stop other 3 (first :: second :: tail) others :=
      mirrors.mono (by omega)
    cases three with
    | token _ behind =>
      cases behind with
      | token _ behind => rw [chosen, behind.headD, same]
  rw [chosen]
  split
  · next answer =>
      refine ⟨taken, yesSettled.congr fun _ _ mirrors => ?_⟩
      rw [mirrored yesTakes mirrors, if_pos answer]
  · next answer =>
      refine ⟨takenNo, noSettled.congr fun _ _ mirrors => ?_⟩
      rw [mirrored noTakes mirrors, if_neg answer]

end Lookahead

section Nesting

variable {bound : Nat} (statements : SettlesStatements change bound)
include statements

theorem settles_arm :
    Settles change (bound + 1) (Arm.relabel change) (arm anyStatement) (arm anyStatement) := by
  refine (Settles.lift settles_next).bind_takes (.lift takesInStep_next) fun keyword => ?_
  refine (settles_condition _ _).bind fun guard => ?_
  refine (settles_scopedBody statements _).bind fun nodes => ?_
  exact Scripted.settles_pure (Arm.mk guard nodes keyword.location)

theorem settles_furtherArm :
    Settles change bound (Option.map (Arm.relabel change)) (furtherArm anyStatement)
      (furtherArm anyStatement) := by
  intro stop ahead within
  obtain _ | ⟨first, tail⟩ := ahead
  · exact ⟨0, .still fun other others mirrors => by cases mirrors; rfl,
      fun other others mirrors => by cases mirrors; rfl⟩
  have unnamed : ¬ (Lexeme.keyword "else").IsWord := by decide
  obtain ⟨taken, settled⟩ := Settles.lift (settles_at unnamed) stop (first :: tail) within
  refine settled_bind settled fun _ word rest read => ?_
  obtain rfl : rest = first :: tail := by
    cases (Scripted.reads_lift.mp read).2
    rfl
  refine settled_bind (settled_sees (fun token => Token.relabel_is token (by decide)) first tail)
    fun _ conditional rest read => ?_
  obtain ⟨_, rfl⟩ := Reader.reads_sees.mp (Scripted.reads_lift.mp read).2
  rw [id, id]
  split_ifs
  · exact ((Settles.lift settles_skip).bind fun _ =>
      ((settles_arm statements).mono (Nat.le_succ bound)).bind fun found =>
        Scripted.settles_pure (some found)) stop (first :: tail) within
  · exact Scripted.settles_pure none stop (first :: tail) within

theorem settles_elseBranch :
    Settles change bound (Option.map (List.map (Node.relabel change))) (elseBranch anyStatement)
      (elseBranch anyStatement) := by
  refine (Settles.lift (settles_accept (by decide))).bind fun word => ?_
  cases word with
  | none => exact Scripted.settles_pure none
  | some _ =>
      exact (settles_scopedBody statements _).bind fun nodes => Scripted.settles_pure (some nodes)

theorem settles_ifStatement :
    Settles change (bound + 1) (Node.relabel change) (ifStatement anyStatement)
      (ifStatement anyStatement) := by
  refine (settles_arm statements).bind_takes (takesInStep_arm (dispatchesInStep_anyStatement _))
    fun first => ?_
  have loops (bound : Nat) : Scripted.LoopsWithin bound (furtherArm anyStatement) :=
    loopsWithin_furtherArm (dispatchesInStep_anyStatement bound)
  refine ((settles_furtherArm statements).repeated (loops bound) loops).bind fun further => ?_
  refine (settles_elseBranch statements).bind fun last => Scripted.settles_pure_of _ ?_
  rw [relabel_arm, relabel_furtherArms]

theorem settles_whileStatement :
    Settles change (bound + 1) (Node.relabel change) (whileStatement anyStatement)
      (whileStatement anyStatement) := by
  refine (Settles.lift settles_next).bind_takes (.lift takesInStep_next) fun keyword => ?_
  refine (settles_condition _ _).bind fun guard => ?_
  refine (settles_scopedBody statements _).bind fun nodes => ?_
  refine Scripted.settles_pure_of (Node.whileStmt guard nodes keyword.location) ?_
  rw [Node.relabel, Node.relabelAll_eq_map]
  rfl

theorem settles_forStatement :
    Settles change (bound + 1) (Node.relabel change) (forStatement anyStatement)
      (forStatement anyStatement) := by
  refine (Settles.lift settles_next).bind_takes (.lift takesInStep_next) fun keyword => ?_
  refine (Settles.lift (settles_expect _ _)).bind fun _ => Settles.within .block ?_
  refine settles_forInitializer.bind fun init => ?_
  refine (settles_optional (by decide)).bind fun guard => ?_
  refine (Settles.lift (settles_expect _ _)).bind fun _ => ?_
  refine (settles_optional (by decide)).bind fun update => ?_
  refine (Settles.lift (settles_expect _ _)).bind fun _ => ?_
  refine (settles_body statements _).bind fun nodes => ?_
  refine Scripted.settles_pure_of
    (Node.forStmt init guard update nodes keyword.location) ?_
  simp only [Node.relabel, Node.relabelAll_eq_map, Node.relabelOption_eq_map]
  rfl

theorem settles_methodRest (returnType : Option Token) :
    Settles change bound (Node.relabel change) (methodRest anyStatement returnType)
      (methodRest anyStatement (returnType.map (Token.reword change))) := by
  refine (Settles.lift (settles_expect_name _)).bind fun name => ?_
  have typed : (returnType.map (Token.reword change)).getD (name.reword change) =
      (returnType.getD name).reword change := by
    cases returnType <;> rfl
  rw [typed]
  refine (settles_emit (.declare ⟨name.text, (returnType.getD name).text, .method⟩
    name.location)).bind fun _ => ?_
  refine (Settles.lift (settles_expect _ _)).bind fun _ => Settles.within .methodBody ?_
  refine settles_parameters.bind fun params => ?_
  refine (Settles.lift (settles_expect _ _)).bind fun _ => ?_
  refine (settles_body statements _).bind fun nodes => ?_
  refine Scripted.settles_pure_of (Node.methodDecl (returnType.map (·.text)) name.text
    params nodes (returnType.getD name).location) ?_
  rw [Node.relabel, Node.relabelAll_eq_map]
  cases returnType <;> rfl

theorem settled_methodDeclaration (stop : Terminator) {first : Token} {tail : List Token}
    (typed : first.kind = .dataType) (within : tail.length ≤ bound) :
    ∃ taken, Scripted.Settled change (Node.relabel change) (taken + 1) stop (first :: tail)
      (methodDeclaration anyStatement stop (first :: tail)) (methodDeclaration anyStatement) := by
  obtain ⟨taken, settled⟩ := settles_methodRest statements (some first) stop tail within
  refine ⟨taken, settled.cons fun other others => ?_⟩
  rw [Option.map_some, ← Token.relabel_eq_reword (.inr typed)]
  rfl

theorem settles_constructor (className name : String) :
    Settles change bound (Member.relabel change) (constructor anyStatement className name)
      (constructor anyStatement (change.word className) (change.word name)) := by
  simp only [constructor, change.injective.eq_iff]
  split_ifs
  · exact (settles_methodRest statements none).bind fun node =>
      Scripted.settles_pure (Member.method node)
  · refine Settles.lift (settles_refuse fun keeps _ => ?_)
    rw [keeps]
    rfl

theorem settled_typedMember (stop : Terminator) {first : Token} {tail : List Token}
    (typed : first.kind = .dataType) (within : tail.length ≤ bound) :
    ∃ taken, Scripted.Settled change (Member.relabel change) taken stop (first :: tail)
      (typedMember anyStatement stop (first :: tail)) (typedMember anyStatement) := by
  obtain ⟨_, declared⟩ := settled_variableDeclaration change stop typed within
  obtain ⟨_, field⟩ := declared.map Member.field (Member.relabel change) fun _ => rfl
  obtain ⟨_, declared⟩ := settled_methodDeclaration statements stop typed within
  obtain ⟨_, method⟩ := declared.map Member.method (Member.relabel change) fun _ => rfl
  obtain _ | ⟨second, tail⟩ := tail
  · refine ⟨_, field.congr fun other others mirrors => ?_⟩
    cases mirrors.mono (Nat.le_add_left 2 _) with
    | token _ behind =>
        cases behind
        rfl
  · refine settled_choice (fun second third => second.kind = .identifier && third.is (.op "("))
      (fun second third => ?_) (fun stop first second tail => ?_) method (by omega) field
      (by omega)
    · rw [Token.relabel_kind, Token.relabel_is _ (by decide)]
    · rw [typedMember, bind_ok (lift_eq (sees_one _ stop first (second :: tail))),
        bind_ok (lift_eq (sees_two _ stop first second tail)), List.headD_cons]
      split <;> rfl

omit statements in
theorem settles_noMember {image : Option Member → Option Member} (className : String) :
    Scripted.Settles change bound image (liftM (refuse (α := Option Member) (.noMember className)))
      (liftM (refuse (α := Option Member) (.noMember (change.word className)))) := by
  refine Settles.lift (settles_refuse fun keeps _ => ?_)
  rw [keeps]
  rfl

/-- A member behind its modifiers. -/
def memberBehind (className : String) : Scripted (Option Member) := do
  let token ← peek
  if token.kind = .dataType then
    return some (← typedMember anyStatement)
  else if token.kind = .identifier && (← sees 1 (·.is (.op "("))) then
    return some (← constructor anyStatement className token.text)
  else
    refuse (.noMember className)

theorem settles_memberBehind (className : String) :
    Settles change bound (Option.map (Member.relabel change)) (memberBehind className)
      (memberBehind (change.word className)) := by
  intro stop ahead within
  obtain _ | ⟨first, tail⟩ := ahead
  · obtain ⟨taken, settled⟩ := settles_noMember className stop [] within
    refine ⟨taken, settled.congr fun other others mirrors => ?_⟩
    cases mirrors.mono (Nat.le_add_left 2 _)
    rfl
  obtain ⟨taken, settled⟩ := Settles.lift settles_peek stop (first :: tail) within
  refine settled_bind settled fun _ token rest read => ?_
  obtain ⟨rfl, rfl⟩ := Reader.reads_peek.mp (Scripted.reads_lift.mp read).2
  rw [Token.relabel_kind]
  split
  · next typed =>
      obtain ⟨_, typedSettled⟩ :=
        settled_typedMember statements stop typed (Nat.le_of_succ_le within)
      exact settled_bind typedSettled fun _ found left _ =>
        Scripted.settles_pure (some found) stop left (Nat.le_refl _)
  refine settled_bind (settled_sees (fun token => Token.relabel_is token (by decide)) token tail)
    fun _ opened rest read => ?_
  obtain ⟨_, rfl⟩ := Reader.reads_sees.mp (Scripted.reads_lift.mp read).2
  rw [id]
  split
  · next named =>
      have isName : token.kind = .identifier :=
        of_decide_eq_true ((Bool.and_eq_true _ _).mp named).1
      rw [Token.relabel_eq_reword (.inl isName)]
      exact ((settles_constructor statements className token.text).bind fun found =>
        Scripted.settles_pure (some found)) stop (token :: tail) within
  · exact settles_noMember className stop (token :: tail) within

theorem settles_member (className : String) :
    Settles change bound (Option.map (Member.relabel change)) (member anyStatement className)
      (member anyStatement (change.word className)) := by
  refine (Settles.lift settles_atEnd).bind fun ended => ?_
  refine (Settles.lift (settles_at (by decide))).bind fun closed => ?_
  rw [id, id]
  split_ifs
  · exact Scripted.settles_pure none
  · exact (Settles.lift (settles_run modifier_relabel)).bind fun _ =>
      settles_memberBehind statements className

theorem settles_classDeclaration :
    Settles change (bound + 1) (Node.relabel change) (classDeclaration anyStatement)
      (classDeclaration anyStatement) := by
  refine (Settles.lift settles_next).bind_takes (.lift takesInStep_next) fun keyword => ?_
  refine (Settles.lift (settles_expect_name _)).bind fun name => ?_
  have declares : (Step.declare ⟨name.text, "class", .className⟩ name.location).relabel change =
      .declare ⟨change.word name.text, "class", .className⟩ (change.place name.location) := by
    rw [Step.relabel, Symbol.relabel, change.fixes_class]
  refine (declares ▸ settles_emit (.declare ⟨name.text, "class", .className⟩
    name.location)).bind fun _ => ?_
  refine (Settles.lift (settles_expect _ _)).bind fun _ => Settles.within .classBody ?_
  have loops (className : String) (bound : Nat) :
      Scripted.LoopsWithin bound (member anyStatement className) :=
    loopsWithin_member (dispatchesInStep_anyStatement bound) className
  refine ((settles_member statements name.text).repeated (loops _ bound) (loops _)).bind
    fun members => ?_
  refine (Settles.lift (settles_expect _ _)).bind fun _ => ?_
  refine Scripted.settles_pure_of (Node.classDecl name.text
    (members.filterMap Member.field?) (members.filterMap Member.method?) keyword.location) ?_
  simp only [Node.relabel, Node.relabelAll_eq_map, relabel_fields, relabel_methods]
  rfl

omit statements in
/-- A type that is all there is in front of the end begins a method or a variable according to
what stands behind the end, and either lacks a name. -/
theorem declaration_last (stop : Terminator) (first : Token) :
    declaration anyStatement stop [first] = ⟨[], .error ⟨.missing .identifier
      (if stop.opens then .methodName else .afterType) .endOfInput, stop.location⟩⟩ := by
  have seen : sees 2 (·.is (.op "(")) stop [first] = .ok (stop.opens, [first]) := by
    cases stop with
    | mk location beyond => cases beyond <;> rfl
  rw [declaration, bind_ok (lift_eq seen)]
  split <;> rfl

theorem settled_declaration (stop : Terminator) {first : Token} {tail : List Token}
    (typed : first.kind = .dataType) (within : tail.length ≤ bound) :
    ∃ taken, Scripted.Settled change (Node.relabel change) taken stop (first :: tail)
      (declaration anyStatement stop (first :: tail)) (declaration anyStatement) := by
  obtain _ | ⟨second, tail⟩ := tail
  · have mirrored {other : Terminator} {others : List Token}
        (mirrors : Mirrors change stop other (1 + 2) [first] others) :
        declaration anyStatement other others = ⟨[], .error ⟨.missing .identifier
          (if other.opens then .methodName else .afterType) .endOfInput,
          change.place stop.location⟩⟩ := by
      cases mirrors with
      | token _ behind =>
        cases behind with
        | ended _ placed => rw [declaration_last, placed]
    rw [declaration_last]
    refine ⟨1, ⟨Nat.le_refl _, rfl, fun other others mirrors => ?_⟩, fun other others mirrors => ?_⟩
    · rw [mirrored mirrors]
      refine .error _ fun ⟨_, alike⟩ => ?_
      have same : stop.opens = other.opens := by
        obtain inside | same | last := alike
        · exact absurd inside (Nat.lt_irrefl 1)
        · exact same
        · exact absurd typed (last first rfl)
      rw [same]
    · rw [mirrored mirrors]
      rfl
  · obtain ⟨_, plain⟩ := settled_variableDeclaration change stop typed within
    obtain ⟨_, method⟩ := settled_methodDeclaration statements stop typed within
    refine settled_choice (fun _ third => third.is (.op "("))
      (fun _ third => Token.relabel_is third (by decide)) (fun stop first second tail => ?_)
      method (Nat.le_add_left 1 _) plain (Nat.le_add_left 1 _)
    rw [declaration, bind_ok (lift_eq (sees_two _ stop first second tail))]
    split <;> rfl

theorem settles_reservedStatement (word : String) :
    Settles change (bound + 1) (Item.relabel change) (reservedStatement anyStatement word)
      (reservedStatement anyStatement word) := by
  unfold reservedStatement
  split
  · exact (settles_ifStatement statements).map _ _ fun _ => rfl
  · exact (settles_whileStatement statements).map _ _ fun _ => rfl
  · exact (settles_forStatement statements).map _ _ fun _ => rfl
  · exact settles_returnStatement.map _ _ fun _ => rfl
  · exact (settles_jump fun _ => rfl).map _ _ fun _ => rfl
  · exact (settles_jump fun _ => rfl).map _ _ fun _ => rfl
  · exact (settles_classDeclaration statements).map _ _ fun _ => rfl
  · exact settles_passOver

/-- What the first token of a statement begins is settled. -/
theorem settled_statementFrom (stop : Terminator) (first : Token) {tail : List Token}
    (within : tail.length ≤ bound) :
    ∃ taken, Scripted.Settled change (Item.relabel change) taken stop (first :: tail)
      (statementFrom anyStatement first stop (first :: tail))
      (statementFrom anyStatement (first.relabel change)) := by
  have fits : (first :: tail).length ≤ bound + 1 := Nat.succ_le_succ within
  obtain ⟨⟨kind, text⟩, place⟩ := first
  cases kind with
  | dataType =>
      have typed : (Token.mk ⟨.dataType, text⟩ place).kind = .dataType := rfl
      obtain ⟨_, settled⟩ := settled_declaration statements stop typed within
      obtain ⟨_, made⟩ := settled.map Item.node (Item.relabel change) fun _ => rfl
      exact ⟨_, made⟩
  | identifier =>
      exact settles_expressionStatement.map Item.node (Item.relabel change) (fun _ => rfl) stop _
        fits
  | reserved => exact settles_reservedStatement statements text stop _ fits
  | operator => exact settles_loneOperator text stop _ fits
  | _ => exact settles_passOver stop _ fits

/-- A statement is settled but for its mark. -/
theorem SettlesStatements.succ : SettlesStatements change (bound + 1) := by
  intro stop ahead nonempty within
  obtain ⟨first, tail, rfl⟩ := List.exists_cons_of_ne_nil nonempty
  obtain ⟨taken, settled⟩ :=
    settled_statementFrom statements stop first (Nat.le_of_succ_le_succ within)
  rw [anyStatement_cons, statement_eq]
  refine ⟨taken, settled.written fun other others mirrors => ?_⟩
  cases mirrors with
  | @token _ _ others _ _ =>
      refine ⟨mark (first.relabel change :: others), rfl, ?_⟩
      rw [anyStatement_cons, statement_eq]

end Nesting

/-- What a statement comes to depends on the tokens it takes and the two behind them. -/
theorem settlesStatements (change : Relabelling) (bound : Nat) :
    SettlesStatements change bound := by
  induction bound with
  | zero =>
      intro stop ahead nonempty within
      exact absurd (List.eq_nil_of_length_eq_zero (Nat.le_zero.mp within)) nonempty
  | succ bound inductionHypothesis => exact inductionHypothesis.succ

theorem settles_topLevel (change : Relabelling) (bound : Nat) :
    Settles change bound (Option.map (Item.relabel change)) (topLevel anyStatement)
      (topLevel anyStatement) := by
  intro stop ahead within
  obtain _ | ⟨first, tail⟩ := ahead
  · exact ⟨0, .still fun other others mirrors => by cases mirrors; rfl,
      fun other others mirrors => by cases mirrors; rfl⟩
  obtain ⟨taken, settled⟩ :=
    settlesStatements change bound stop (first :: tail) (List.cons_ne_nil _ _) within
  obtain ⟨more, made⟩ := settled.map some (Option.map (Item.relabel change)) fun _ => rfl
  refine ⟨taken + more, made.congr fun other others mirrors => ?_⟩
  cases mirrors.mono (Nat.le_add_left 2 _) with
  | token => rfl

/-- A program is its statements, in a block at the place of its first token. -/
theorem program_eq_repeated : program = (do
    let first ← peek
    let items ← repeated (topLevel anyStatement)
    return .block (items.flatMap Item.nodes) first.location) := by
  funext stop ahead
  have readers := dispatchesInStep_statementWithin_any ahead.length
  have loops : Scripted.LoopsWithin ahead.length (topLevel (statementWithin ahead.length)) :=
    loopsWithin_topLevel (dispatchesInStep_statementWithin (Nat.le_refl _) (Nat.le_refl _))
  have same : repeated (topLevel (statementWithin ahead.length)) stop ahead =
      repeated (topLevel anyStatement) stop ahead :=
    loops.collect_eq (topLevel_congr readers) (Nat.le_refl _) (Nat.le_refl _) (Nat.le_refl _)
  exact bind_congr_left same

/-- What a program comes to depends on the tokens it takes and the two behind them. -/
theorem settles_program (change : Relabelling) (bound : Nat) :
    Settles change bound (Node.relabel change) program program := by
  rw [program_eq_repeated]
  refine (Settles.lift settles_peek).bind fun first => ?_
  have loops (bound : Nat) : Scripted.LoopsWithin bound (topLevel anyStatement) :=
    loopsWithin_topLevel (dispatchesInStep_anyStatement bound)
  refine ((settles_topLevel change bound).repeated (loops bound) loops).bind fun items => ?_
  refine Scripted.settles_pure_of
    (Node.block (items.flatMap Item.nodes) first.location) ?_
  rw [Node.relabel, Node.relabelAll_eq_map, List.map_flatMap, List.flatMap_map]
  simp only [Item.nodes_relabel]
  rfl

end BraceLang.Grammar
