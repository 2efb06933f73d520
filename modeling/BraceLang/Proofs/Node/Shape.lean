import BraceLang.Proofs.Node.Declarations
import BraceLang.Proofs.Rendering.Expression

/-!
# Where the nodes of a tree may stand

The type of program trees lets any node stand anywhere. `Fits` says of one node which nodes its
parts may be, and looks no further than them: where a value is needed there is an expression,
and where a statement is needed there is none that could not begin with its name. All nodes
of the trees that constructs yield fit.

A part of a node that fits is never a block, so the only block of a program is its root.
-/

namespace BraceLang

namespace Node

/-- Whether a tree is an expression. -/
def hasValue : Node → Bool
  | .assignment _ _ _ => true
  | .binary _ _ _ _ => true
  | .unary _ _ _ => true
  | .step _ _ _ => true
  | .call _ _ _ => true
  | .field _ _ _ => true
  | .reference _ _ => true
  | .number _ _ => true
  | .string _ _ => true
  | _ => false

/-- The expressions that lead to a name from each to the part with which it begins. No literal
and no operator in front of an operand is met on the way. -/
inductive LedByName : Node → Prop where
  | reference (name : String) (location : Location) : LedByName (.reference name location)
  | assignment {target : Node} (led : LedByName target) (value : Node) (location : Location) :
      LedByName (.assignment target value location)
  | binary (op : BinaryOp) {left : Node} (led : LedByName left) (right : Node)
      (location : Location) : LedByName (.binary op left right location)
  | step (op : StepOp) {operand : Node} (led : LedByName operand) (location : Location) :
      LedByName (.step op operand location)
  | call {callee : Node} (led : LedByName callee) (args : List Node) (location : Location) :
      LedByName (.call callee args location)
  | field {object : Node} (led : LedByName object) (name : String) (location : Location) :
      LedByName (.field object name location)

/-- Declarations of variables. -/
inductive IsVariable : Node → Prop where
  | variableDecl (type name : String) (init : Option Node) (location : Location) :
      IsVariable (.variableDecl type name init location)

/-- Methods with a return type. -/
inductive IsTyped : Node → Prop where
  | methodDecl (type name : String) (params : List Param) (body : List Node)
      (location : Location) : IsTyped (.methodDecl (some type) name params body location)

/-- Methods without a return type that have the name of a class. -/
inductive IsConstructorOf (className : String) : Node → Prop where
  | methodDecl (params : List Param) (body : List Node) (location : Location) :
      IsConstructorOf className (.methodDecl none className params body location)

/-- Whether a tree may stand among statements. There are no blocks among them and no constructors,
and the expressions are those that lead to a name. -/
def Stands : Node → Prop
  | .block _ _ => False
  | .methodDecl returnType _ _ _ _ => returnType.isSome = true
  | node => node.hasValue = true → node.LedByName

/-- Whether the parts of a node are such as it may have. -/
def Fits : Node → Prop
  | .variableDecl _ _ init _ => ∀ value ∈ init, value.hasValue = true
  | .methodDecl _ _ _ body _ => ∀ statement ∈ body, statement.Stands
  | .classDecl name fields methods _ =>
    (∀ field ∈ fields, field.IsVariable) ∧
      ∀ method ∈ methods, method.IsTyped ∨ method.IsConstructorOf name
  | .block statements _ => ∀ statement ∈ statements, statement.Stands
  | .ifStmt condition thenBranch elseBranch _ =>
    condition.hasValue = true ∧ (∀ statement ∈ thenBranch, statement.Stands) ∧
      ∀ statement ∈ elseBranch.getD [], statement.Stands
  | .whileStmt condition body _ =>
    condition.hasValue = true ∧ ∀ statement ∈ body, statement.Stands
  | .forStmt init condition update body _ =>
    (∀ first ∈ init, first.hasValue = true ∨ first.IsVariable) ∧
      (∀ value ∈ condition, value.hasValue = true) ∧
      (∀ value ∈ update, value.hasValue = true) ∧ ∀ statement ∈ body, statement.Stands
  | .returnStmt value _ => ∀ returned ∈ value, returned.hasValue = true
  | .assignment target value _ => Grammar.Assignable target ∧ value.hasValue = true
  | .binary _ left right _ => left.hasValue = true ∧ right.hasValue = true
  | .unary _ operand _ => operand.hasValue = true
  | .step _ operand _ => operand.hasValue = true
  | .call callee args _ => callee.isChain = true ∧ ∀ arg ∈ args, arg.hasValue = true
  | .field object _ _ => object.isChain = true
  | .breakStmt _ => True
  | .continueStmt _ => True
  | .reference _ _ => True
  | .number _ _ => True
  | .string _ _ => True

section Stands

variable {node : Node}

theorem LedByName.stands (led : node.LedByName) : node.Stands := by
  have whole := led
  cases led <;> exact fun _ => whole

theorem IsVariable.stands (declares : node.IsVariable) : node.Stands := by
  cases declares
  exact fun value => absurd value Bool.false_ne_true

theorem IsTyped.stands (typed : node.IsTyped) : node.Stands := by
  cases typed
  rfl

end Stands

section Parts

variable {node : Node}

/-- Whether all nodes of a tree have such parts as they may have. -/
def FitsThroughout (node : Node) : Prop := ∀ part ∈ node.preorder, part.Fits

/-- Whether all nodes of a tree are expressions besides. -/
def IsValue (node : Node) : Prop := ∀ part ∈ node.preorder, part.hasValue = true ∧ part.Fits

theorem FitsThroughout.of_children (fits : node.Fits)
    (below : ∀ child ∈ node.children, child.FitsThroughout) : node.FitsThroughout :=
  forall_preorder fits below

namespace IsValue

theorem of_children (expression : node.hasValue = true) (fits : node.Fits)
    (below : ∀ child ∈ node.children, child.IsValue) : node.IsValue :=
  forall_preorder ⟨expression, fits⟩ below

theorem hasValue (value : node.IsValue) : node.hasValue = true :=
  (value node (List.mem_cons_self ..)).1

theorem fitsThroughout (value : node.IsValue) : node.FitsThroughout :=
  fun part member => (value part member).2

end IsValue

theorem hasValue_of_isChain (chain : node.isChain = true) : node.hasValue = true := by
  cases node <;> first | rfl | cases chain

theorem hasValue_of_assignable (assignable : Grammar.Assignable node) :
    node.hasValue = true := by
  cases assignable <;> rfl

/-- A part of a node that fits is an expression or may stand among statements, but for the
constructors of a class, which are its own parts. -/
theorem Fits.of_mem_children {child : Node} (fits : node.Fits) (member : child ∈ node.children) :
    child.hasValue = true ∨ child.Stands ∨ ∃ name fields methods location,
      node = .classDecl name fields methods location ∧ child.IsConstructorOf name := by
  cases node with
  | variableDecl | returnStmt => exact .inl (fits child (Option.mem_toList.mp member))
  | methodDecl | block => exact .inr (.inl (fits child member))
  | classDecl name fields methods location =>
      rcases List.mem_append.mp member with member | member
      · exact .inr (.inl (fits.1 child member).stands)
      · exact .inr ((fits.2 child member).imp IsTyped.stands fun own => ⟨_, _, _, _, rfl, own⟩)
  | ifStmt =>
      obtain ⟨guard, body, others⟩ := fits
      rcases List.mem_cons.mp member with rfl | member
      · exact .inl guard
      · exact .inr (.inl ((List.mem_append.mp member).elim (body child) (others child)))
  | whileStmt =>
      rcases List.mem_cons.mp member with rfl | member
      · exact .inl fits.1
      · exact .inr (.inl (fits.2 child member))
  | forStmt =>
      obtain ⟨first, guard, update, body⟩ := fits
      simp only [children, List.mem_append, Option.mem_toList] at member
      rcases member with member | member | member | member
      · exact (first child member).imp_right fun declares => .inl declares.stands
      · exact .inl (guard child member)
      · exact .inl (update child member)
      · exact .inr (.inl (body child member))
  | assignment =>
      simp only [children, List.mem_cons, List.not_mem_nil, or_false] at member
      rcases member with rfl | rfl
      · exact .inl (hasValue_of_assignable fits.1)
      · exact .inl fits.2
  | binary =>
      simp only [children, List.mem_cons, List.not_mem_nil, or_false] at member
      rcases member with rfl | rfl
      · exact .inl fits.1
      · exact .inl fits.2
  | unary | step => exact .inl (List.mem_singleton.mp member ▸ fits)
  | call =>
      rcases List.mem_cons.mp member with rfl | member
      · exact .inl (hasValue_of_isChain fits.1)
      · exact .inl (fits.2 child member)
  | field => exact .inl (hasValue_of_isChain (List.mem_singleton.mp member ▸ fits))
  | breakStmt | continueStmt | reference | number | string => cases member

/-- No part of a node that fits is a block. -/
theorem Fits.ne_block (fits : node.Fits) (statements : List Node) (location : Location) :
    .block statements location ∉ node.children := by
  intro member
  rcases fits.of_mem_children member with value | stands | ⟨_, _, _, _, -, ⟨⟩⟩
  · cases value
  · exact stands.elim

end Parts
end Node

namespace Grammar

/-- Whether a phrase stands for trees that begin with a name. Arguments stand for none. -/
def Phrase.LedByName : (phrase : Phrase) → phrase.Tree → Prop
  | .arguments, _ => True
  | .furtherArguments, _ => True
  | .expression, node => node.LedByName
  | .operation _, node => node.LedByName
  | .unary, node => node.LedByName
  | .stepped, node => node.LedByName
  | .primary, node => node.LedByName
  | .chain, node => node.LedByName

/-- Whether tokens begin with a name. -/
def BeginsWithName (tokens : List Token) : Prop := ∃ first ∈ tokens.head?, first.kind = .identifier

theorem BeginsWithName.of_append {front back : List Token} {sign : Token}
    (begins : BeginsWithName (front ++ sign :: back)) (other : sign.kind ≠ .identifier) :
    BeginsWithName front := by
  obtain ⟨first, found, named⟩ := begins
  cases front with
  | nil =>
      obtain rfl := Option.some.inj found
      exact absurd named other
  | cons => exact ⟨first, found, named⟩

/-- Tokens that begin with something other than a name do not begin with a name. -/
theorem not_beginsWithName {first : Token} {rest : List Token} (other : first.kind ≠ .identifier) :
    ¬ BeginsWithName (first :: rest) := by
  rintro ⟨_, found, named⟩
  obtain rfl := Option.some.inj found
  exact other named

theorem Joins.kind_ne {level : Level} {lexeme : Lexeme} {op : BinaryOp}
    (joins : Joins level lexeme op) : lexeme.kind ≠ .identifier := by
  cases joins <;> exact Kind.noConfusion

/-- An expression whose first token is a name is led by a name: neither parentheses nor
operators in front of an operand come in between. -/
theorem Derives.ledByName {phrase : Phrase} {used : List Token} {value : phrase.Tree}
    (derived : Derives phrase used value) (begins : BeginsWithName used) :
    phrase.LedByName value := by
  induction derived with
  | operation _ inductionHypothesis
  | operand _ inductionHypothesis
  | innermost _ inductionHypothesis
  | unsigned _ inductionHypothesis
  | unstepped _ inductionHypothesis
  | chained _ inductionHypothesis => exact inductionHypothesis begins
  | assignment sign _ _ _ inductionHypothesis =>
      exact .assignment (inductionHypothesis (begins.of_append Kind.noConfusion)) _ sign
  | joined sign joins _ _ inductionHypothesis =>
      exact .binary _ (inductionHypothesis (begins.of_append joins.kind_ne)) _ sign
  | negated | inverted | number | string | parenthesized =>
      exact absurd begins (not_beginsWithName Kind.noConfusion)
  | incremented sign _ inductionHypothesis
  | decremented sign _ inductionHypothesis =>
      exact .step _ (inductionHypothesis (begins.of_append Kind.noConfusion)) sign
  | name text location => exact .reference text location
  | field point name location _ inductionHypothesis =>
      exact .field (inductionHypothesis (begins.of_append Kind.noConfusion)) name point
  | call opening closing _ _ inductionHypothesis =>
      exact .call (inductionHypothesis (begins.of_append Kind.noConfusion)) _ opening
  | noArguments | arguments | noFurtherArguments | furtherArguments => trivial

theorem Derives.isChain {used : List Token} {node : Node} (derived : Derives .chain used node) :
    node.isChain = true := by
  cases derived <;> rfl

/-- Expressions stand for values through and through. -/
theorem Derives.isValue_of_mem {phrase : Phrase} {used : List Token} {value : phrase.Tree}
    (derived : Derives phrase used value) : ∀ node ∈ phrase.nodes value, node.IsValue := by
  induction derived with
  | operation _ inductionHypothesis
  | operand _ inductionHypothesis
  | innermost _ inductionHypothesis
  | unsigned _ inductionHypothesis
  | unstepped _ inductionHypothesis
  | parenthesized _ _ _ inductionHypothesis
  | chained _ inductionHypothesis => exact inductionHypothesis
  | noArguments | noFurtherArguments => exact List.forall_mem_nil _
  | arguments _ _ firstValue othersValues
  | furtherArguments _ _ _ firstValue othersValues =>
      exact List.forall_mem_cons.mpr ⟨List.forall_mem_singleton.mp firstValue, othersValues⟩
  | number | string | name =>
      exact List.forall_mem_singleton.mpr (.of_children rfl trivial (List.forall_mem_nil _))
  | assignment sign _ assignable _ targetValue valueValue =>
      have given := List.forall_mem_singleton.mp valueValue
      exact List.forall_mem_singleton.mpr (.of_children rfl ⟨assignable, given.hasValue⟩
        (List.forall_mem_cons.mpr ⟨List.forall_mem_singleton.mp targetValue, valueValue⟩))
  | joined sign _ _ _ leftValue rightValue =>
      have left := List.forall_mem_singleton.mp leftValue
      have right := List.forall_mem_singleton.mp rightValue
      exact List.forall_mem_singleton.mpr (.of_children rfl ⟨left.hasValue, right.hasValue⟩
        (List.forall_mem_cons.mpr ⟨left, rightValue⟩))
  | negated _ _ operandValue
  | inverted _ _ operandValue
  | incremented _ _ operandValue
  | decremented _ _ operandValue =>
      have operand := List.forall_mem_singleton.mp operandValue
      exact List.forall_mem_singleton.mpr (.of_children rfl operand.hasValue operandValue)
  | field _ _ _ base baseValue =>
      exact List.forall_mem_singleton.mpr (.of_children rfl base.isChain baseValue)
  | call _ _ base _ baseValue argsValues =>
      exact List.forall_mem_singleton.mpr (.of_children rfl
        ⟨base.isChain, fun arg member => (argsValues arg member).hasValue⟩
        (List.forall_mem_cons.mpr ⟨List.forall_mem_singleton.mp baseValue, argsValues⟩))

theorem Derives.isValue {used : List Token} {node : Node}
    (derived : Derives .expression used node) : node.IsValue :=
  List.forall_mem_singleton.mp derived.isValue_of_mem

end Grammar
end BraceLang
