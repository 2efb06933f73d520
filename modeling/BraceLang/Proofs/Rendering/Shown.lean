import BraceLang.Proofs.Rendering.Expression
import BraceLang.Proofs.Token.Class

/-!
# Expressions as they are shown

The text of an expression encloses each operation between two operands, and nothing else. So not
every tree can be told from its text: an assignment, or an operator in front of its operand, may
be enclosed where it stands in a tree and is shown without parentheses. `Legible` are the trees
that need none but those that are shown, and `shown` are the tokens of their texts, each that
gives a node its place at that place.

`derives_shown` is the whole point: what is shown derives the tree again.
-/

namespace BraceLang

namespace Node

/-- Whether a tree is an assignment. -/
def isAssignment : Node → Bool
  | .assignment _ _ _ => true
  | _ => false

/-- Whether a tree is an operator in front of its operand. -/
def isUnary : Node → Bool
  | .unary _ _ _ => true
  | _ => false

/-- Whether a tree is a minus sign in front of its operand. -/
def isNegation : Node → Bool
  | .unary .negate _ _ => true
  | _ => false

/-- The expressions that are told by their texts. Names, numbers and strings are lexemes of their
classes. Only a name with what is attached to it is called or has fields, and only a name or a
field is assigned to. An assignment is no operand, nothing with an operator in front has one
behind it, and no minus sign is in front of another. -/
inductive Legible : Node → Prop where
  | reference {name : String} (place : Location) (valid : (Lexeme.name name).Valid) :
      Legible (.reference name place)
  | number {digits : String} (place : Location) (valid : (Lexeme.mk .number digits).Valid) :
      Legible (.number digits place)
  | string {body : String} (place : Location) (unquoted : '"' ∉ body.toList) :
      Legible (.string body place)
  | field {object : Node} {name : String} (place : Location) (chain : object.isChain = true)
      (inside : object.Legible) (valid : (Lexeme.name name).Valid) :
      Legible (.field object name place)
  | call {callee : Node} {args : List Node} (place : Location) (chain : callee.isChain = true)
      (inside : callee.Legible) (given : ∀ arg ∈ args, arg.Legible) :
      Legible (.call callee args place)
  | step {operand : Node} (op : StepOp) (place : Location)
      (bare : operand.isAssignment = false) (unsigned : operand.isUnary = false)
      (inside : operand.Legible) : Legible (.step op operand place)
  | unary {operand : Node} (op : UnaryOp) (place : Location)
      (bare : operand.isAssignment = false)
      (single : op = .negate → operand.isNegation = false) (inside : operand.Legible) :
      Legible (.unary op operand place)
  | binary {left right : Node} (op : BinaryOp) (place : Location)
      (leftBare : left.isAssignment = false) (rightBare : right.isAssignment = false)
      (leftInside : left.Legible) (rightInside : right.Legible) :
      Legible (.binary op left right place)
  | assignment {target value : Node} (place : Location)
      (assignable : Grammar.isTarget target = true) (assigned : target.Legible)
      (given : value.Legible) : Legible (.assignment target value place)

mutual

/-- The tokens that are shown of an expression. -/
def shown : Node → List Token
  | .reference name place => [(Lexeme.name name).token place]
  | .number digits place => [(Lexeme.mk .number digits).token place]
  | .string body place => [(Lexeme.mk .string body).token place]
  | .field object name place =>
    object.shown ++ [(Lexeme.op ".").token place, (Lexeme.name name).token place]
  | .call callee args place =>
    callee.shown ++ (Lexeme.op "(").token place ::
      (shownArgs place args ++ [(Lexeme.op ")").token place])
  | .step op operand place => operand.shown ++ [(Lexeme.op op.symbol).token place]
  | .unary op operand place => (Lexeme.op op.symbol).token place :: operand.shown
  | .binary op left right place =>
    enclose true place (left.shown ++ op.lexeme.token place :: right.shown)
  | .assignment target value place =>
    target.shown ++ (Lexeme.op "=").token place :: value.shown
  | _ => []

/-- The tokens that are shown of arguments. -/
def shownArgs (place : Location) : List Node → List Token
  | [] => []
  | [arg] => arg.shown
  | arg :: next :: args =>
    arg.shown ++ (Lexeme.op ",").token place :: shownArgs place (next :: args)

end

/-- How tightly an expression binds as it is shown: an operation between two operands is
enclosed. -/
def shownTightness : Node → Nat
  | .binary _ _ _ _ => 7
  | node => node.tightness

variable {node : Node}

/-- Only assignments bind more loosely than operators in front of an operand. -/
theorem five_le_shownTightness (bare : node.isAssignment = false) : 5 ≤ node.shownTightness := by
  cases node <;> simp_all [isAssignment, shownTightness, tightness]

/-- Behind what is neither assigned nor has an operator in front another one may stand. -/
theorem six_le_shownTightness (bare : node.isAssignment = false) (unsigned : node.isUnary = false) :
    6 ≤ node.shownTightness := by
  cases node <;> simp_all [isAssignment, isUnary, shownTightness, tightness]

end Node

/-- Only names and fields are assigned to. -/
theorem Node.isChain_of_isTarget {node : Node} (target : Grammar.isTarget node = true) :
    node.isChain = true := by
  cases (Grammar.isTarget_iff node).mp target <;> rfl

theorem BinaryOp.tightness_le (op : BinaryOp) : op.tightness ≤ 4 := by
  cases op <;> decide

namespace Grammar

variable {node : Node}

/-- What is shown of an expression derives it as tightly as it binds, and a name with what is
attached to it is derived as a chain. -/
def DerivedAsShown (node : Node) : Prop :=
  DerivesTightly node.shownTightness node.shown node ∧
    (node.isChain = true → Derives .chain node.shown node)

namespace DerivedAsShown

theorem of_chain (chain : Derives .chain node.shown node) : DerivedAsShown node :=
  ⟨.of_primary (.chained chain) _, fun _ => chain⟩

theorem of_unchained (primary : Derives .primary node.shown node)
    (unchained : node.isChain ≠ true) : DerivedAsShown node :=
  ⟨.of_primary primary _, fun chain => absurd chain unchained⟩

theorem expression (derived : DerivedAsShown node) : Derives .expression node.shown node :=
  derived.1.loosen (Nat.zero_le _)

theorem field {object : Node} (name : String) (place : Location) (derived : DerivedAsShown object)
    (chain : object.isChain = true) : DerivedAsShown (.field object name place) := by
  refine of_chain ?_
  rw [Node.shown]
  exact .field place name place (derived.2 chain)

theorem step {operand : Node} (op : StepOp) (place : Location) (derived : DerivedAsShown operand)
    (bare : operand.isAssignment = false) (unsigned : operand.isUnary = false) :
    DerivedAsShown (.step op operand place) := by
  have inside : DerivesTightly 6 operand.shown operand :=
    derived.1.loosen (Node.six_le_shownTightness bare unsigned)
  rw [DerivedAsShown, Node.shown]
  refine ⟨?_, nofun⟩
  cases op with
  | increment => exact Derives.incremented place inside
  | decrement => exact Derives.decremented place inside

theorem unary {operand : Node} (op : UnaryOp) (place : Location) (derived : DerivedAsShown operand)
    (bare : operand.isAssignment = false) : DerivedAsShown (.unary op operand place) := by
  have inside : DerivesTightly 5 operand.shown operand :=
    derived.1.loosen (Node.five_le_shownTightness bare)
  rw [DerivedAsShown, Node.shown]
  refine ⟨?_, nofun⟩
  cases op with
  | negate => exact Derives.negated place inside
  | invert => exact Derives.inverted place inside

theorem binary {left right : Node} (op : BinaryOp) (place : Location)
    (leftDerived : DerivedAsShown left) (rightDerived : DerivedAsShown right)
    (leftBare : left.isAssignment = false) (rightBare : right.isAssignment = false) :
    DerivedAsShown (.binary op left right place) := by
  have loose := op.tightness_le
  have leaning : DerivesTightly op.tightness left.shown left :=
    leftDerived.1.loosen (Nat.le_trans (by omega) (Node.five_le_shownTightness leftBare))
  have last : DerivesTightly (op.tightness + 1) right.shown right :=
    rightDerived.1.loosen (Nat.le_trans (by omega) (Node.five_le_shownTightness rightBare))
  rw [DerivedAsShown, Node.shown]
  exact ⟨(DerivesTightly.joined op place leaning last).enclose _ true place nofun, nofun⟩

theorem assignment {target value : Node} (place : Location)
    (targetDerived : DerivedAsShown target) (valueDerived : DerivedAsShown value)
    (assignable : isTarget target = true) :
    DerivedAsShown (.assignment target value place) := by
  have chain := targetDerived.2 (Node.isChain_of_isTarget assignable)
  have assigned : DerivesTightly 1 target.shown target := .of_primary (.chained chain) 1
  rw [DerivedAsShown, Node.shown]
  exact ⟨.assignment place assigned ((isTarget_iff target).mp assignable) valueDerived.expression,
    nofun⟩

end DerivedAsShown

/-- Arguments with a comma in front are further arguments. -/
theorem Derives.furtherArguments_of {used : List Token} {arg : Node} {args : List Node}
    (comma : Location) (derived : Derives .arguments used (arg :: args)) :
    Derives .furtherArguments ((Lexeme.op ",").token comma :: used) (arg :: args) := by
  cases derived with
  | arguments first others => exact .furtherArguments comma first others

theorem derives_shownArgs (place : Location) {args : List Node}
    (derived : ∀ arg ∈ args, DerivedAsShown arg) :
    Derives .arguments (Node.shownArgs place args) args := by
  induction args with
  | nil => exact .noArguments
  | cons arg args inductionHypothesis =>
      obtain ⟨first, others⟩ := List.forall_mem_cons.mp derived
      cases args with
      | nil =>
          have only := Derives.arguments first.expression .noFurtherArguments
          rwa [List.append_nil] at only
      | cons next args =>
          have further := inductionHypothesis others
          exact .arguments first.expression (further.furtherArguments_of place)

theorem derivedAsShown (legible : node.Legible) : DerivedAsShown node := by
  induction legible with
  | @reference name place _ => exact .of_chain (.name name place)
  | @number digits place _ => exact .of_unchained (.number digits place) Bool.false_ne_true
  | @string body place _ => exact .of_unchained (.string body place) Bool.false_ne_true
  | @field _ name place chain _ _ inductionHypothesis =>
      exact inductionHypothesis.field name place chain
  | @call callee args place chain _ _ calleeHypothesis argsHypothesis =>
      have called := calleeHypothesis.2 chain
      refine .of_chain ?_
      rw [Node.shown]
      exact .call place place called (derives_shownArgs place argsHypothesis)
  | step op place bare unsigned _ inductionHypothesis =>
      exact inductionHypothesis.step op place bare unsigned
  | unary op place bare _ _ inductionHypothesis => exact inductionHypothesis.unary op place bare
  | binary op place leftBare rightBare _ _ leftHypothesis rightHypothesis =>
      exact leftHypothesis.binary op place rightHypothesis leftBare rightBare
  | assignment place assignable _ _ targetHypothesis valueHypothesis =>
      exact targetHypothesis.assignment place valueHypothesis assignable

/-- What is shown of a legible expression derives it. -/
theorem derives_shown (legible : node.Legible) : Derives .expression node.shown node :=
  (derivedAsShown legible).expression

end Grammar

end BraceLang
