import BraceLang.Proofs.Expression.Reading

/-!
# Writing expressions out as tokens

An expression is written with as few parentheses as its tree allows: an operand is
enclosed exactly when its outermost operator binds too loosely for where it stands.
Each token that gives a node its place stands at that place, and so do the brackets,
commas and names that leave no trace in the tree.

`Derives.written` is the whole point: what is written out derives the tree again.
-/

namespace BraceLang

/-- How tightly an operator between two operands binds. -/
def BinaryOp.tightness : BinaryOp → Nat
  | .eq => 1
  | .ne => 1
  | .lt => 2
  | .le => 2
  | .gt => 2
  | .ge => 2
  | .add => 3
  | .sub => 3
  | .mul => 4
  | .div => 4

/-- The lexeme of an operator between two operands. -/
def BinaryOp.lexeme (op : BinaryOp) : Lexeme :=
  ⟨if op.tightness < 3 then .comparison else .operator, op.symbol⟩

/-- Put tokens in parentheses if that is needed. -/
def enclose (needed : Bool) (place : Location) (tokens : List Token) : List Token :=
  if needed then
    (Lexeme.op "(").token place :: (tokens ++ [(Lexeme.op ")").token place])
  else tokens

namespace Node

/-- How tightly the outermost operator of an expression binds. An assignment binds loosest;
names, literals and what is attached to a name need no operator. -/
def tightness : Node → Nat
  | .assignment _ _ _ => 0
  | .binary op _ _ _ => op.tightness
  | .unary _ _ _ => 5
  | .step _ _ _ => 6
  | _ => 7

/-- Whether an expression is a name with what is attached to it. -/
def isChain : Node → Bool
  | .reference _ _ => true
  | .field _ _ _ => true
  | .call _ _ _ => true
  | _ => false

mutual

/-- Whether a tree is an expression of the shape that can be written. -/
def isExpression : Node → Bool
  | .assignment target value _ =>
    Grammar.isTarget target && target.isExpression && value.isExpression
  | .binary _ left right _ => left.isExpression && right.isExpression
  | .unary _ operand _ => operand.isExpression
  | .step _ operand _ => operand.isExpression
  | .call callee args _ => callee.isChain && callee.isExpression && areExpressions args
  | .field object _ _ => object.isChain && object.isExpression
  | .reference _ _ => true
  | .number _ _ => true
  | .string _ _ => true
  | _ => false

/-- Whether all trees are expressions. -/
def areExpressions : List Node → Bool
  | [] => true
  | node :: nodes => node.isExpression && areExpressions nodes

end

mutual

/-- The tokens of an expression. -/
def written : Node → List Token
  | .assignment target value place =>
    target.written ++ (Lexeme.op "=").token place :: value.written
  | .binary op left right place =>
    enclose (left.tightness < op.tightness) place left.written ++
      op.lexeme.token place :: enclose (right.tightness ≤ op.tightness) place right.written
  | .unary op operand place =>
    (Lexeme.op op.symbol).token place :: enclose (operand.tightness < 5) place operand.written
  | .step op operand place =>
    enclose (operand.tightness < 6) place operand.written ++ [(Lexeme.op op.symbol).token place]
  | .call callee args place =>
    callee.written ++ (Lexeme.op "(").token place ::
      (writtenArgs place args ++ [(Lexeme.op ")").token place])
  | .field object name place =>
    object.written ++ [(Lexeme.op ".").token place, (Lexeme.name name).token place]
  | .reference name place => [(Lexeme.name name).token place]
  | .number digits place => [(Lexeme.mk .number digits).token place]
  | .string body place => [(Lexeme.mk .string body).token place]
  | _ => []

/-- The tokens of arguments with commas between them. -/
def writtenArgs (place : Location) : List Node → List Token
  | [] => []
  | arg :: args => arg.written ++ writtenFurtherArgs place args

/-- The tokens of arguments with a comma in front of each. -/
def writtenFurtherArgs (place : Location) : List Node → List Token
  | [] => []
  | arg :: args =>
    (Lexeme.op ",").token place :: (arg.written ++ writtenFurtherArgs place args)

end

end Node

namespace Grammar

/-- Tokens derive a tree as a phrase that binds at least as tightly as a number says. -/
def DerivesTightly : (tightness : Nat) → List Token → Node → Prop
  | 0 => Derives .expression
  | 1 => Derives (.operation [.equality, .relational, .additive, .multiplicative])
  | 2 => Derives (.operation [.relational, .additive, .multiplicative])
  | 3 => Derives (.operation [.additive, .multiplicative])
  | 4 => Derives (.operation [.multiplicative])
  | 5 => Derives .unary
  | 6 => Derives .stepped
  | _ => Derives .primary

variable {tokens : List Token} {node : Node}

theorem DerivesTightly.of_primary (derived : Derives .primary tokens node) (tightness : Nat) :
    DerivesTightly tightness tokens node := by
  have unary : Derives .unary tokens node := .unsigned (.unstepped derived)
  match tightness with
  | 0 => exact .operation (.operand (.operand (.operand (.operand (.innermost unary)))))
  | 1 => exact .operand (.operand (.operand (.operand (.innermost unary))))
  | 2 => exact .operand (.operand (.operand (.innermost unary)))
  | 3 => exact .operand (.operand (.innermost unary))
  | 4 => exact .operand (.innermost unary)
  | 5 => exact unary
  | 6 => exact .unstepped derived
  | _ + 7 => exact derived

/-- Every phrase is also a phrase that binds less tightly. -/
theorem DerivesTightly.loosen_succ {tightness : Nat}
    (derived : DerivesTightly (tightness + 1) tokens node) :
    DerivesTightly tightness tokens node := by
  match tightness with
  | 0 => exact .operation derived
  | 1 => exact .operand derived
  | 2 => exact .operand derived
  | 3 => exact .operand derived
  | 4 => exact .operand (.innermost derived)
  | 5 => exact .unsigned derived
  | 6 => exact .unstepped derived
  | _ + 7 => exact derived

theorem DerivesTightly.loosen {tightness looser : Nat}
    (derived : DerivesTightly tightness tokens node) (le : looser ≤ tightness) :
    DerivesTightly looser tokens node := by
  induction le with
  | refl => exact derived
  | step _ inductionHypothesis => exact inductionHypothesis derived.loosen_succ

/-- Enclosing what binds too loosely makes it bind as tightly as needed. -/
theorem DerivesTightly.enclose {tightness : Nat} (derived : DerivesTightly tightness tokens node)
    (needed : Nat) (loose : Bool) (place : Location)
    (covers : loose = false → needed ≤ tightness) :
    DerivesTightly needed (BraceLang.enclose loose place tokens) node := by
  cases loose with
  | true => exact .of_primary (.parenthesized place place (derived.loosen (Nat.zero_le _))) needed
  | false => exact derived.loosen (covers rfl)

/-- An operator joins operands that bind as tightly as it does to its left and more tightly to
its right. -/
theorem DerivesTightly.joined {left right : List Token} {front back : Node} (op : BinaryOp)
    (place : Location) (leaning : DerivesTightly op.tightness left front)
    (last : DerivesTightly (op.tightness + 1) right back) :
    DerivesTightly op.tightness (left ++ op.lexeme.token place :: right)
      (.binary op front back place) := by
  cases op with
  | eq => exact Derives.joined place .eq leaning last
  | ne => exact Derives.joined place .ne leaning last
  | lt => exact Derives.joined place .lt leaning last
  | le => exact Derives.joined place .le leaning last
  | gt => exact Derives.joined place .gt leaning last
  | ge => exact Derives.joined place .ge leaning last
  | add => exact Derives.joined place .add leaning last
  | sub => exact Derives.joined place .sub leaning last
  | mul => exact Derives.joined place .mul leaning (.innermost last)
  | div => exact Derives.joined place .div leaning (.innermost last)

/-- What is written out for an expression derives it, and a name with what is attached to it
is derived as a chain. -/
def DerivedAsWritten (node : Node) : Prop :=
  node.isExpression = true →
    DerivesTightly node.tightness node.written node ∧
      (node.isChain = true → Derives .chain node.written node)

theorem DerivedAsWritten.of_chain
    (chain : node.isExpression = true → Derives .chain node.written node) :
    DerivedAsWritten node := fun shaped =>
  ⟨.of_primary (.chained (chain shaped)) _, fun _ => chain shaped⟩

theorem DerivedAsWritten.assignment {target value : Node} (place : Location)
    (targetDerived : DerivedAsWritten target) (valueDerived : DerivedAsWritten value) :
    DerivedAsWritten (.assignment target value place) := by
  intro shaped
  simp only [Node.isExpression, Bool.and_eq_true] at shaped
  obtain ⟨⟨assignable, targetShaped⟩, valueShaped⟩ := shaped
  have assigned : DerivesTightly 1 target.written target := by
    cases (isTarget_iff target).mp assignable with
    | reference | field => exact (targetDerived targetShaped).1.loosen (by simp [Node.tightness])
  have given := (valueDerived valueShaped).1.loosen (Nat.zero_le _)
  rw [Node.written]
  exact ⟨.assignment place assigned ((isTarget_iff target).mp assignable) given, nofun⟩

theorem DerivedAsWritten.binary {left right : Node} (op : BinaryOp) (place : Location)
    (leftDerived : DerivedAsWritten left) (rightDerived : DerivedAsWritten right) :
    DerivedAsWritten (.binary op left right place) := by
  intro shaped
  simp only [Node.isExpression, Bool.and_eq_true] at shaped
  obtain ⟨leftShaped, rightShaped⟩ := shaped
  have leaning := (leftDerived leftShaped).1.enclose op.tightness
    (left.tightness < op.tightness) place (by simp)
  have last := (rightDerived rightShaped).1.enclose (op.tightness + 1)
    (right.tightness ≤ op.tightness) place fun bare => by
      have looser := of_decide_eq_false bare
      omega
  rw [Node.written]
  exact ⟨.joined op place leaning last, nofun⟩

theorem DerivedAsWritten.unary {operand : Node} (op : UnaryOp) (place : Location)
    (derived : DerivedAsWritten operand) : DerivedAsWritten (.unary op operand place) := by
  intro shaped
  have inside := (derived shaped).1.enclose 5 (operand.tightness < 5) place (by simp)
  rw [Node.written]
  refine ⟨?_, nofun⟩
  cases op with
  | negate => exact Derives.negated place inside
  | invert => exact Derives.inverted place inside

theorem DerivedAsWritten.step {operand : Node} (op : StepOp) (place : Location)
    (derived : DerivedAsWritten operand) : DerivedAsWritten (.step op operand place) := by
  intro shaped
  have inside := (derived shaped).1.enclose 6 (operand.tightness < 6) place (by simp)
  rw [Node.written]
  refine ⟨?_, nofun⟩
  cases op with
  | increment => exact Derives.incremented place inside
  | decrement => exact Derives.decremented place inside

mutual

theorem derivedAsWritten : (node : Node) → DerivedAsWritten node
  | .assignment target value place =>
      .assignment place (derivedAsWritten target) (derivedAsWritten value)
  | .binary op left right place => .binary op place (derivedAsWritten left) (derivedAsWritten right)
  | .unary op operand place => .unary op place (derivedAsWritten operand)
  | .step op operand place => .step op place (derivedAsWritten operand)
  | .call callee args place => by
      refine .of_chain fun shaped => ?_
      simp only [Node.isExpression, Bool.and_eq_true] at shaped
      obtain ⟨⟨chain, calleeShaped⟩, argsShaped⟩ := shaped
      have called := (derivedAsWritten callee calleeShaped).2 chain
      rw [Node.written]
      exact .call place place called (derives_writtenArgs place args argsShaped)
  | .field object name place => by
      refine .of_chain fun shaped => ?_
      simp only [Node.isExpression, Bool.and_eq_true] at shaped
      rw [Node.written]
      exact .field place name place ((derivedAsWritten object shaped.2).2 shaped.1)
  | .reference name place => .of_chain fun _ => .name name place
  | .number digits place => fun _ => ⟨.of_primary (.number digits place) _, nofun⟩
  | .string body place => fun _ => ⟨.of_primary (.string body place) _, nofun⟩
  | .variableDecl _ _ _ _ => nofun
  | .methodDecl _ _ _ _ _ => nofun
  | .classDecl _ _ _ _ => nofun
  | .block _ _ => nofun
  | .ifStmt _ _ _ _ => nofun
  | .whileStmt _ _ _ => nofun
  | .forStmt _ _ _ _ _ => nofun
  | .returnStmt _ _ => nofun
  | .breakStmt _ => nofun
  | .continueStmt _ => nofun

theorem derives_writtenArgs (place : Location) :
    (args : List Node) → Node.areExpressions args = true →
      Derives .arguments (Node.writtenArgs place args) args
  | [], _ => .noArguments
  | arg :: args, shaped => by
      simp only [Node.areExpressions, Bool.and_eq_true] at shaped
      have first := (derivedAsWritten arg shaped.1).1.loosen (Nat.zero_le _)
      rw [Node.writtenArgs]
      exact .arguments first (derives_writtenFurtherArgs place args shaped.2)

theorem derives_writtenFurtherArgs (place : Location) :
    (args : List Node) → Node.areExpressions args = true →
      Derives .furtherArguments (Node.writtenFurtherArgs place args) args
  | [], _ => .noFurtherArguments
  | arg :: args, shaped => by
      simp only [Node.areExpressions, Bool.and_eq_true] at shaped
      have first := (derivedAsWritten arg shaped.1).1.loosen (Nat.zero_le _)
      rw [Node.writtenFurtherArgs]
      exact .furtherArguments place first (derives_writtenFurtherArgs place args shaped.2)

end

/-- What is written out for an expression derives it. -/
theorem derives_written (shaped : node.isExpression = true) :
    Derives .expression node.written node :=
  (derivedAsWritten node shaped).1.loosen (Nat.zero_le _)

end Grammar

end BraceLang
