import Mathlib.Tactic.SplitIfs
import BraceLang.Proofs.Lockstep.Scripted
import BraceLang.Proofs.Statement.Reading

/-!
# Statements in lockstep

The readers of statements take the reader of inner statements as an argument. They come
to the same outcome with any two of them that agree on fewer tokens, so the bound on the
nesting is never what decides; and they have a course whenever the inner ones have.

Only a brace that stands alone leaves the blocks open as it did not find them. What the
reader of a single statement does is therefore told apart from a course: `ItemCourse`
says which blocks are open behind it.
-/

namespace BraceLang.Grammar

open Reader Scripted

/-- What a statement at the first of the tokens ahead writes on its way, what it leaves
behind, and the tokens left. A lone brace opens or closes one block; whatever else is read
closes what it opens. -/
inductive ItemCourse : List Token → List Step → Item → List Token → Prop where
  | opened {first : Token} (rest : List Token) (brace : first.toLexeme = .op "\x7b") :
      ItemCourse (first :: rest) (mark (first :: rest) ++ [.openBlock]) .opened rest
  | closed {first : Token} (rest : List Token) (brace : first.toLexeme = .op "\x7d") :
      ItemCourse (first :: rest) (mark (first :: rest) ++ [.closeBlock]) .closed rest
  | whole {first : Token} {tail rest : List Token} {script : List Step} {item : Item}
      (unopened : first.toLexeme ≠ .op "\x7b") (unclosed : first.toLexeme ≠ .op "\x7d")
      (keeps : ∀ openBlocks, item.openAfter openBlocks = openBlocks)
      (course : Course [] tail script rest) :
      ItemCourse (first :: tail) (mark (first :: tail) ++ script) item rest

namespace ItemCourse

variable {ahead middle rest : List Token} {front back : List Step} {item : Item}

theorem suffix (course : ItemCourse ahead front item rest) : rest <:+ ahead.tail := by
  cases course with
  | opened => exact List.suffix_refl _
  | closed => exact List.suffix_refl _
  | whole _ _ _ course => exact course.suffix

theorem length_lt (course : ItemCourse ahead front item rest) : rest.length < ahead.length := by
  have shorter := course.suffix.length_le
  cases course <;> exact Nat.lt_succ_of_le shorter

/-- A statement inside a body is followed by the rest of the body, which closes the blocks
open behind it. -/
theorem append {openBlocks : Nat} (first : ItemCourse ahead front item middle)
    (inside : openBlocks = 0 → ¬ (Lexeme.op "\x7d").Starts ahead)
    (others : Course (List.replicate (item.openAfter openBlocks) .brace) middle back rest) :
    Course (List.replicate openBlocks .brace) ahead (front ++ back) rest := by
  cases first with
  | opened => exact .statement _ (.openBlock others)
  | closed _ brace =>
      obtain _ | openBlocks := openBlocks
      · exact absurd ((Lexeme.starts_cons ..).mpr brace) (inside rfl)
      · exact .statement _ (.closeBlock others)
  | whole _ _ keeps course =>
      rw [keeps] at others
      exact .statement _ (course.trans others)

end ItemCourse

/-- The outcome of a statement at the first of the tokens ahead. -/
def Dispatched (stop : Terminator) (ahead : List Token) : Outcome Item → Prop
  | ⟨script, .ok (item, rest)⟩ => ItemCourse ahead script item rest
  | ⟨script, .error error⟩ =>
      (∃ rest, Course [] ahead script rest) ∧ error.IsWithin stop ahead

/-- On at most `bound` tokens, but not on none, two readers of a statement come to the same
outcome, which is that of a statement. -/
def DispatchesInStep (bound : Nat) (first second : Scripted Item) : Prop :=
  ∀ stop ahead, ahead ≠ [] → ahead.length ≤ bound →
    first stop ahead = second stop ahead ∧ Dispatched stop ahead (first stop ahead)

section Simple

variable {bound : Nat}

theorem takesInStep_checked : TakesInStep bound checked checked :=
  (TakesInStep.lift (takesInStep_expression bound)).bind fun _ =>
    (inStep_emit (by trivial)).bind fun _ => inStep_pure _

theorem inStep_expect (wanted : Wanted) (position : Position) :
    Scripted.InStep bound (liftM (expect wanted position)) (liftM (expect wanted position)) :=
  (TakesInStep.lift (takesInStep_expect wanted position)).inStep_le

theorem inStep_optional (absent : Lexeme) :
    Scripted.InStep bound (optional absent) (optional absent) := by
  refine (InStep.lift (inStep_at _)).bind fun closed => ?_
  cases closed with
  | true => exact inStep_pure none
  | false => exact takesInStep_checked.inStep_le.bind fun node => inStep_pure (some node)

theorem inStep_initializer (type name : String) :
    Scripted.InStep bound (initializer type name) (initializer type name) := by
  refine (InStep.lift (inStep_accept _)).bind fun sign => ?_
  cases sign with
  | none => exact inStep_pure none
  | some _ =>
      exact (TakesInStep.lift (takesInStep_expression bound)).inStep_le.bind fun value =>
        (inStep_emit (by trivial)).bind fun _ => inStep_pure (some value)

theorem takesInStep_variableDeclaration :
    TakesInStep bound variableDeclaration variableDeclaration := by
  refine (TakesInStep.lift takesInStep_next).bind fun type => ?_
  refine (inStep_expect _ _).bind fun name => ?_
  refine (inStep_emit (by trivial)).bind fun _ => ?_
  refine (inStep_initializer _ _).bind fun init => ?_
  exact (inStep_expect _ _).bind fun _ => inStep_pure _

theorem takesInStep_expressionStatement :
    TakesInStep bound expressionStatement expressionStatement :=
  takesInStep_checked.bind fun _ => (inStep_expect _ _).bind fun _ => inStep_pure _

theorem takesInStep_returnStatement : TakesInStep bound returnStatement returnStatement := by
  refine (TakesInStep.lift takesInStep_next).bind fun keyword => ?_
  refine (inStep_optional _).bind fun value => ?_
  exact (inStep_expect _ _).bind fun _ => inStep_pure _

theorem takesInStep_jump (node : Location → Node) : TakesInStep bound (jump node) (jump node) :=
  (TakesInStep.lift takesInStep_next).bind fun _ =>
    (InStep.lift (inStep_accept _)).bind fun _ => inStep_pure _

theorem takesInStep_passOver : TakesInStep bound passOver passOver :=
  (TakesInStep.lift takesInStep_skip).bind fun _ => inStep_pure _

/-- An operator other than a brace is passed over. -/
theorem loneOperator_eq_passOver {text : String} (unopened : text ≠ "\x7b")
    (unclosed : text ≠ "\x7d") : loneOperator text = passOver := by
  unfold loneOperator
  split <;> first | rfl | contradiction

theorem takesInStep_condition (before after : Position) :
    TakesInStep bound (condition before after) (condition before after) := by
  refine (TakesInStep.lift (takesInStep_expect _ _)).bind fun _ => ?_
  refine takesInStep_checked.inStep_le.bind fun node => ?_
  exact (inStep_expect _ _).bind fun _ => inStep_pure node

theorem inStep_forInitializer : Scripted.InStep bound forInitializer forInitializer := by
  refine (InStep.lift (inStep_accept _)).bind fun semicolon => ?_
  cases semicolon with
  | some _ => exact inStep_pure none
  | none =>
      refine (InStep.lift inStep_peek).bind fun token => ?_
      split_ifs
      · exact takesInStep_variableDeclaration.inStep_le.bind fun node => inStep_pure (some node)
      · refine takesInStep_checked.inStep_le.bind fun node => ?_
        exact (inStep_expect _ _).bind fun _ => inStep_pure (some node)

theorem takesInStep_parameter : TakesInStep bound parameter parameter := by
  refine (TakesInStep.lift (takesInStep_expect _ _)).bind fun type => ?_
  refine (inStep_expect _ _).bind fun name => ?_
  exact (inStep_emit (by trivial)).bind fun _ => inStep_pure _

theorem inStep_furtherParameter :
    Scripted.InStep bound furtherParameter furtherParameter := by
  refine (InStep.lift (inStep_accept _)).bind fun comma => ?_
  cases comma with
  | none => exact inStep_pure none
  | some _ => exact takesInStep_parameter.inStep_le.bind fun param => inStep_pure (some param)

theorem inStep_parameters : Scripted.InStep bound parameters parameters := by
  refine (InStep.lift (inStep_at _)).bind fun closed => ?_
  cases closed with
  | true => exact inStep_pure []
  | false =>
      refine takesInStep_parameter.inStep_le.bind fun first => ?_
      exact inStep_furtherParameter.repeated.bind fun further => inStep_pure (first :: further)

end Simple

section Bodies

variable {bound : Nat} {inner innerSecond : Scripted Item} {kind : Body} {openBlocks : Nat}
  {stop : Terminator} {ahead : List Token}

/-- The statements of a body are at an end where no tokens are left, or at a closing brace if
no block is open. -/
theorem endsBody_eq (openBlocks : Nat) (stop : Terminator) (ahead : List Token) :
    endsBody openBlocks stop ahead = .ok (true, ahead) ∧ (openBlocks = 0 ∨ ahead = []) ∨
      endsBody openBlocks stop ahead = .ok (false, ahead) ∧ ahead ≠ [] ∧
        (openBlocks = 0 → ¬ (Lexeme.op "\x7d").Starts ahead) := by
  rcases reads : endsBody openBlocks stop ahead with failure | ⟨_ | _, rest⟩
  · cases ahead <;> cases openBlocks <;> simp [endsBody, bind, atEnd, at?, pure] at reads
  · obtain ⟨nonempty, unclosed, rfl⟩ := reads_endsBody_false.mp reads
    exact .inr ⟨rfl, nonempty, unclosed⟩
  · obtain ⟨ended | ⟨closed, _⟩, rfl⟩ := reads_endsBody_true.mp reads
    · exact .inl ⟨rfl, .inr ended⟩
    · exact .inl ⟨rfl, .inl closed⟩

/-- What a body is where its statements go on. -/
def bodyStep (inner : Scripted Item) (kind : Body) (rounds openBlocks : Nat) :
    Scripted (List Node) := do
  let item ← inner.onFailure (List.replicate openBlocks .closeBlock)
  let rest ← bodyRest inner kind rounds (item.openAfter openBlocks)
  return item.nodes ++ rest

theorem bodyRest_of_ends (inner : Scripted Item) (kind : Body) (rounds : Nat)
    (ends : endsBody openBlocks stop ahead = .ok (true, ahead)) :
    bodyRest inner kind rounds openBlocks stop ahead = bodyEnd kind openBlocks stop ahead := by
  cases rounds with
  | zero => rfl
  | succ rounds => exact bind_ok (lift_eq ends)

theorem bodyRest_of_continues (inner : Scripted Item) (kind : Body) (rounds : Nat)
    (continues : endsBody openBlocks stop ahead = .ok (false, ahead)) :
    bodyRest inner kind (rounds + 1) openBlocks stop ahead =
      bodyStep inner kind rounds openBlocks stop ahead :=
  bind_ok (lift_eq continues)

/-- The rest of a body behind one of its statements. -/
theorem Ran.behindItem {front : List Step} {item : Item} {rest : List Token}
    {outcome : Outcome (List Node)} (first : ItemCourse ahead front item rest)
    (inside : openBlocks = 0 → ¬ (Lexeme.op "\x7d").Starts ahead)
    (ran : Ran (List.replicate (item.openAfter openBlocks) .brace) stop rest rest outcome) :
    Ran (List.replicate openBlocks .brace) stop ahead ahead
      ⟨front ++ outcome.script, outcome.result⟩ := by
  obtain ⟨back, failure | ⟨nodes, last⟩⟩ := outcome
  · obtain ⟨⟨last, course⟩, located⟩ := ran
    exact ⟨⟨last, first.append inside course⟩,
      located.mono (first.suffix.trans (List.tail_suffix ahead))⟩
  · exact first.append inside ran

/-- Where the statements of a body are at an end, its closing brace is missing only if all
tokens are taken, and then the blocks are closed. -/
theorem ran_bodyEnd (kind : Body) (ended : openBlocks = 0 ∨ ahead = []) :
    Ran (List.replicate openBlocks .brace) stop ahead ahead
      (bodyEnd kind openBlocks stop ahead) := by
  have ranged := (takesInStep_expect .closeBrace (.after kind) stop ahead (Nat.le_succ _)).2
  rcases outcome : expect .closeBrace (.after kind) stop ahead with failure | ⟨brace, rest⟩
  · rw [outcome] at ranged
    rw [bodyEnd, bind_error (onFailure_error _ (lift_eq outcome))]
    exact ⟨⟨ahead, Course.closeBlocks openBlocks ahead⟩, ranged⟩
  · rw [outcome] at ranged
    rw [bodyEnd, bind_ok (onFailure_ok _ (lift_eq outcome))]
    obtain rfl | rfl := ended
    · exact Course.of_tail (Course.of_suffix ranged)
    · cases outcome

/-- No body depends on how many statements its reader allows for, if they are not fewer
than the tokens ahead. -/
theorem bodyRest_inStep (readers : DispatchesInStep bound inner innerSecond) (kind : Body)
    {rounds others : Nat} (within : ahead.length ≤ bound) (enough : ahead.length ≤ rounds)
    (alsoEnough : ahead.length ≤ others) :
    bodyRest inner kind rounds openBlocks stop ahead =
        bodyRest innerSecond kind others openBlocks stop ahead ∧
      Ran (List.replicate openBlocks .brace) stop ahead ahead
        (bodyRest inner kind rounds openBlocks stop ahead) := by
  induction rounds generalizing others openBlocks ahead with
  | zero =>
      obtain rfl : ahead = [] := List.eq_nil_of_length_eq_zero (Nat.le_zero.mp enough)
      have ends : endsBody openBlocks stop [] = .ok (true, []) := rfl
      rw [bodyRest_of_ends _ _ _ ends, bodyRest_of_ends _ _ _ ends]
      exact ⟨rfl, ran_bodyEnd kind (.inr rfl)⟩
  | succ rounds inductionHypothesis =>
      rcases endsBody_eq openBlocks stop ahead with ⟨ends, ended⟩ | ⟨continues, nonempty, inside⟩
      · rw [bodyRest_of_ends _ _ _ ends, bodyRest_of_ends _ _ _ ends]
        exact ⟨rfl, ran_bodyEnd kind ended⟩
      · obtain _ | others := others
        · exact absurd (List.eq_nil_of_length_eq_zero (Nat.le_zero.mp alsoEnough)) nonempty
        rw [bodyRest_of_continues _ _ _ continues, bodyRest_of_continues _ _ _ continues]
        obtain ⟨same, dispatched⟩ := readers stop ahead nonempty within
        rcases outcome : inner stop ahead with ⟨front, failure | ⟨item, rest⟩⟩
        · rw [outcome] at dispatched
          obtain ⟨⟨rest, course⟩, located⟩ := dispatched
          rw [bodyStep, bodyStep, bind_error (onFailure_error _ outcome),
            bind_error (onFailure_error _ (same.symm.trans outcome))]
          exact ⟨rfl, ⟨rest, course.trans (Course.closeBlocks openBlocks rest)⟩, located⟩
        · rw [outcome] at dispatched
          have shorter := ItemCourse.length_lt dispatched
          have further : bodyRest inner kind rounds (item.openAfter openBlocks) stop rest =
              bodyRest innerSecond kind others (item.openAfter openBlocks) stop rest ∧ _ :=
            inductionHypothesis (by omega) (by omega) (by omega)
          obtain ⟨sameRest, ranRest⟩ := further
          rw [bodyStep, bodyStep, bind_ok (onFailure_ok _ outcome),
            bind_ok (onFailure_ok _ (same.symm.trans outcome)), bind_congr_left sameRest]
          exact ⟨rfl, Ran.behindItem dispatched inside (bind_congr_left sameRest ▸ ranRest.map _)⟩

theorem takesInStep_body (readers : DispatchesInStep bound inner innerSecond) (kind : Body) :
    TakesInStep bound (body inner kind) (body innerSecond kind) := by
  refine (TakesInStep.lift (takesInStep_expect _ _)).bind fun _ => ?_
  exact fun stop ahead within =>
    bodyRest_inStep readers kind within (Nat.le_refl _) (Nat.le_refl _)

theorem takesInStep_scopedBody (readers : DispatchesInStep bound inner innerSecond) (kind : Body) :
    TakesInStep bound (scopedBody inner kind) (scopedBody innerSecond kind) :=
  (takesInStep_body readers kind).within .block

end Bodies

section Nesting

variable {bound : Nat} {inner innerSecond : Scripted Item}
  (readers : DispatchesInStep bound inner innerSecond)
include readers

theorem takesInStep_arm : TakesInStep bound (arm inner) (arm innerSecond) := by
  refine (TakesInStep.lift takesInStep_next).bind fun keyword => ?_
  refine (takesInStep_condition _ _).inStep_le.bind fun guard => ?_
  exact (takesInStep_scopedBody readers _).inStep_le.bind fun nodes => inStep_pure _

theorem inStep_furtherArm : Scripted.InStep bound (furtherArm inner) (furtherArm innerSecond) := by
  refine (InStep.lift (inStep_at _)).bind fun word => ?_
  refine (InStep.lift (inStep_sees _ _)).bind fun conditional => ?_
  split_ifs
  · refine (TakesInStep.lift takesInStep_skip).inStep_le.bind fun _ => ?_
    exact (takesInStep_arm readers).inStep_le.bind fun found => inStep_pure (some found)
  · exact inStep_pure none

theorem inStep_elseBranch : Scripted.InStep bound (elseBranch inner) (elseBranch innerSecond) := by
  refine (InStep.lift (inStep_accept _)).bind fun word => ?_
  cases word with
  | none => exact inStep_pure none
  | some _ =>
      exact (takesInStep_scopedBody readers _).inStep_le.bind fun nodes => inStep_pure (some nodes)

theorem takesInStep_ifStatement :
    TakesInStep bound (ifStatement inner) (ifStatement innerSecond) := by
  refine (takesInStep_arm readers).bind fun first => ?_
  refine (inStep_furtherArm readers).repeated.bind fun further => ?_
  exact (inStep_elseBranch readers).bind fun last => inStep_pure _

theorem takesInStep_whileStatement :
    TakesInStep bound (whileStatement inner) (whileStatement innerSecond) := by
  refine (TakesInStep.lift takesInStep_next).bind fun keyword => ?_
  refine (takesInStep_condition _ _).inStep_le.bind fun guard => ?_
  exact (takesInStep_scopedBody readers _).inStep_le.bind fun nodes => inStep_pure _

theorem takesInStep_forStatement :
    TakesInStep bound (forStatement inner) (forStatement innerSecond) := by
  refine (TakesInStep.lift takesInStep_next).bind fun keyword => ?_
  refine (inStep_expect _ _).bind fun _ => InStep.within .block ?_
  refine inStep_forInitializer.bind fun init => ?_
  refine (inStep_optional _).bind fun guard => ?_
  refine (inStep_expect _ _).bind fun _ => ?_
  refine (inStep_optional _).bind fun update => ?_
  refine (inStep_expect _ _).bind fun _ => ?_
  exact (takesInStep_body readers _).inStep_le.bind fun nodes => inStep_pure _

theorem takesInStep_methodRest (returnType : Option Token) :
    TakesInStep bound (methodRest inner returnType) (methodRest innerSecond returnType) := by
  refine (TakesInStep.lift (takesInStep_expect _ _)).bind fun name => ?_
  refine (inStep_emit (by trivial)).bind fun _ => ?_
  refine (inStep_expect _ _).bind fun _ => InStep.within .methodBody ?_
  refine inStep_parameters.bind fun params => ?_
  refine (inStep_expect _ _).bind fun _ => ?_
  exact (takesInStep_body readers _).inStep_le.bind fun nodes => inStep_pure _

theorem takesInStep_methodDeclaration :
    TakesInStep bound (methodDeclaration inner) (methodDeclaration innerSecond) :=
  (TakesInStep.lift takesInStep_next).bind fun type =>
    (takesInStep_methodRest readers (some type)).inStep_le

theorem takesInStep_typedMember :
    TakesInStep bound (typedMember inner) (typedMember innerSecond) := by
  refine .look (inStep_sees _ _) fun named => .look (inStep_sees _ _) fun opened => ?_
  split_ifs
  · exact (takesInStep_methodDeclaration readers).bind fun node => inStep_pure _
  · exact takesInStep_variableDeclaration.bind fun node => inStep_pure _

theorem takesInStep_constructor (className name : String) :
    TakesInStep bound (constructor inner className name)
      (constructor innerSecond className name) := by
  unfold constructor
  split_ifs
  · exact (takesInStep_methodRest readers none).bind fun node => inStep_pure _
  · exact TakesInStep.lift (takesInStep_refuse _)

theorem inStep_member (className : String) :
    Scripted.InStep bound (member inner className) (member innerSecond className) := by
  refine (InStep.lift inStep_atEnd).bind fun ended => ?_
  refine (InStep.lift (inStep_at _)).bind fun closed => ?_
  split_ifs
  · exact inStep_pure none
  · refine (InStep.lift (inStep_run _)).bind fun words => ?_
    refine (InStep.lift inStep_peek).bind fun token => ?_
    split_ifs
    · exact (takesInStep_typedMember readers).inStep_le.bind fun found => inStep_pure (some found)
    · refine (InStep.lift (inStep_sees _ _)).bind fun opened => ?_
      split_ifs
      · exact (takesInStep_constructor readers _ _).inStep_le.bind fun found =>
          inStep_pure (some found)
      · exact (TakesInStep.lift (takesInStep_refuse _)).inStep_le

theorem takesInStep_classDeclaration :
    TakesInStep bound (classDeclaration inner) (classDeclaration innerSecond) := by
  refine (TakesInStep.lift takesInStep_next).bind fun keyword => ?_
  refine (inStep_expect _ _).bind fun name => ?_
  refine (inStep_emit (by trivial)).bind fun _ => ?_
  refine (inStep_expect _ _).bind fun _ => InStep.within .classBody ?_
  refine (inStep_member readers _).repeated.bind fun members => ?_
  exact (inStep_expect _ _).bind fun _ => inStep_pure _

theorem takesInStep_declaration :
    TakesInStep bound (declaration inner) (declaration innerSecond) := by
  refine .look (inStep_sees _ _) fun opened => ?_
  split_ifs
  · exact takesInStep_methodDeclaration readers
  · exact takesInStep_variableDeclaration

theorem takesInStep_reservedStatement (word : String) :
    TakesInStep bound (reservedStatement inner word) (reservedStatement innerSecond word) := by
  unfold reservedStatement
  split
  · exact (takesInStep_ifStatement readers).map _
  · exact (takesInStep_whileStatement readers).map _
  · exact (takesInStep_forStatement readers).map _
  · exact takesInStep_returnStatement.map _
  · exact (takesInStep_jump _).map _
  · exact (takesInStep_jump _).map _
  · exact (takesInStep_classDeclaration readers).map _
  · exact takesInStep_passOver

/-- What any token but a brace begins takes that token and closes what it opens. -/
theorem takesInStep_statementFrom {first : Token} (unopened : first.toLexeme ≠ .op "\x7b")
    (unclosed : first.toLexeme ≠ .op "\x7d") :
    TakesInStep bound (statementFrom inner first) (statementFrom innerSecond first) := by
  obtain ⟨⟨kind, text⟩, place⟩ := first
  cases kind with
  | dataType => exact (takesInStep_declaration readers).map _
  | identifier => exact takesInStep_expressionStatement.map _
  | reserved => exact takesInStep_reservedStatement readers _
  | operator =>
      have passes : loneOperator text = passOver := by
        refine loneOperator_eq_passOver ?_ ?_ <;> rintro rfl <;> contradiction
      change TakesInStep bound (loneOperator text) (loneOperator text)
      rw [passes]
      exact takesInStep_passOver
  | _ => exact takesInStep_passOver

end Nesting

section Dispatch

variable {inner : Scripted Item} {first : Token} {stop : Terminator} {tail rest : List Token}
  {script : List Step} {item : Item}

/-- Only lone braces change how many blocks are open. -/
theorem openAfter_of_statementFrom (unopened : first.toLexeme ≠ .op "\x7b")
    (unclosed : first.toLexeme ≠ .op "\x7d")
    (reads : Reads (statementFrom inner first) stop (first :: tail) script item rest)
    (openBlocks : Nat) : item.openAfter openBlocks = openBlocks := by
  obtain ⟨⟨kind, text⟩, place⟩ := first
  have of_node {reader : Scripted Node} {ahead : List Token}
      (found : Reads (Item.node <$> reader) stop ahead script item rest) :
      item.openAfter openBlocks = openBlocks := by
    obtain ⟨node, _, rfl⟩ := Scripted.reads_map.mp found
    rfl
  have of_passOver {last : Token}
      (found : Reads passOver stop (last :: tail) script item rest) :
      item.openAfter openBlocks = openBlocks := by
    obtain ⟨rfl, _⟩ := reads_passOver.mp found
    rfl
  cases kind with
  | dataType => exact of_node reads
  | identifier => exact of_node reads
  | reserved =>
      change Reads (reservedStatement inner text) stop _ script item rest at reads
      unfold reservedStatement at reads
      split at reads <;> first | exact of_node reads | exact of_passOver reads
  | operator =>
      obtain ⟨_, ⟨rfl, _⟩ | ⟨rfl, _⟩ | ⟨_, _, rfl, _⟩⟩ := reads_loneOperator.mp reads
      · exact absurd rfl unopened
      · exact absurd rfl unclosed
      · rfl
  | _ => exact of_passOver reads

/-- A statement marks its first token and goes on with the reader for it. -/
theorem statement_eq (inner : Scripted Item) (stop : Terminator) (first : Token)
    (tail : List Token) :
    statement inner stop (first :: tail) =
      ⟨mark (first :: tail) ++ (statementFrom inner first stop (first :: tail)).script,
        (statementFrom inner first stop (first :: tail)).result⟩ := rfl

theorem Ran.dispatched {outcome : Outcome Item} (unopened : first.toLexeme ≠ .op "\x7b")
    (unclosed : first.toLexeme ≠ .op "\x7d")
    (keeps : ∀ {script item rest}, outcome = ⟨script, .ok (item, rest)⟩ →
      ∀ openBlocks, item.openAfter openBlocks = openBlocks)
    (ran : Ran [] stop (first :: tail) tail outcome) :
    Dispatched stop (first :: tail) ⟨mark (first :: tail) ++ outcome.script, outcome.result⟩ := by
  obtain ⟨back, failure | ⟨item, rest⟩⟩ := outcome
  · obtain ⟨⟨rest, course⟩, located⟩ := ran
    exact ⟨⟨rest, .statement first course⟩, located⟩
  · exact .whole unopened unclosed (keeps rfl) ran

theorem statement_dispatched {bound : Nat} {innerSecond : Scripted Item}
    (readers : DispatchesInStep bound inner innerSecond) :
    DispatchesInStep (bound + 1) (statement inner) (statement innerSecond) := by
  intro stop ahead nonempty within
  obtain ⟨first, tail, rfl⟩ := List.exists_cons_of_ne_nil nonempty
  rw [statement_eq, statement_eq]
  by_cases unopened : first.toLexeme = .op "\x7b"
  · obtain ⟨_, place⟩ := first
    obtain rfl := unopened
    exact ⟨rfl, .opened tail rfl⟩
  by_cases unclosed : first.toLexeme = .op "\x7d"
  · obtain ⟨_, place⟩ := first
    obtain rfl := unclosed
    exact ⟨rfl, .closed tail rfl⟩
  obtain ⟨same, ran⟩ :=
    takesInStep_statementFrom readers unopened unclosed stop (first :: tail) within
  rw [← same]
  exact ⟨rfl, Ran.dispatched unopened unclosed
    (openAfter_of_statementFrom unopened unclosed) ran⟩

/-- As many statements inside one another as tokens are ahead are enough, whatever stands
inside the innermost. -/
theorem dispatchesInStep_iterate_statement {bound layers others : Nat}
    (base otherBase : Scripted Item) (enough : bound ≤ layers) (alsoEnough : bound ≤ others) :
    DispatchesInStep bound (statement^[layers] base) (statement^[others] otherBase) := by
  induction bound generalizing layers others with
  | zero =>
      intro stop ahead nonempty within
      exact absurd (List.eq_nil_of_length_eq_zero (Nat.le_zero.mp within)) nonempty
  | succ bound inductionHypothesis =>
      obtain _ | layers := layers
      · omega
      obtain _ | others := others
      · omega
      rw [Function.iterate_succ_apply', Function.iterate_succ_apply']
      exact statement_dispatched (inductionHypothesis (Nat.le_of_succ_le_succ enough)
        (Nat.le_of_succ_le_succ alsoEnough))

theorem statementWithin_eq_iterate (tokens : Nat) :
    statementWithin tokens = statement^[tokens] (pure .nothing) := by
  induction tokens with
  | zero => rfl
  | succ tokens inductionHypothesis =>
      rw [Function.iterate_succ_apply', ← inductionHypothesis]
      rfl

/-- Bounds that allow for all tokens ahead make no difference. -/
theorem dispatchesInStep_statementWithin {bound tokens others : Nat} (enough : bound ≤ tokens)
    (alsoEnough : bound ≤ others) :
    DispatchesInStep bound (statementWithin tokens) (statementWithin others) := by
  rw [statementWithin_eq_iterate, statementWithin_eq_iterate]
  exact dispatchesInStep_iterate_statement _ _ enough alsoEnough

end Dispatch
end BraceLang.Grammar
