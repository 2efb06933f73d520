import BraceLang.Node.Typing

/-!
# The rules of typing, one node at a time

`Node.typed` states the type rules as they are documented, each node from its own
operands. The typing that runs walks a chain of binary operations at once and compares
every operator with the type of the innermost operand. Both agree, since a binary
operation has the type of its left operand.
-/

namespace BraceLang

/-- The typing of a binary operation from those of its operands. -/
def Typing.ofBinary (op : BinaryOp) (left right : Typing) (location : Location) : Typing :=
  ⟨left.type, left.diagnostics ++ right.diagnostics ++
    if left.type.agrees right.type then []
    else [.incompatible op.symbol left.type.text right.type.text location]⟩

namespace Node

mutual

/-- The type of an expression by the documented rules, with what is wrong inside it. -/
def typed (declared : String → Option String) : Node → Typing
  | .number digits _ => ⟨.ofNumber digits, []⟩
  | .string _ _ => ⟨.ofString, []⟩
  | .reference name location => .ofReference (declared name) name location
  | .binary op left right location =>
    .ofBinary op (left.typed declared) (right.typed declared) location
  | .unary _ operand _ => operand.typed declared
  | .step _ operand _ => operand.typed declared
  | .assignment target value location =>
    .ofAssignment (target.typed declared) (value.typed declared) target.text location
  | .field object _ _ => ⟨.unknown, (object.typed declared).diagnostics⟩
  | .call callee args _ =>
    let called := callee.typed declared
    ⟨called.type, called.diagnostics ++ findingsOfArgs declared args⟩
  | _ => ⟨.unknown, []⟩

/-- What is wrong inside the arguments of a call, from left to right. -/
def findingsOfArgs (declared : String → Option String) : List Node → List Diagnostic
  | [] => []
  | arg :: args => (arg.typed declared).diagnostics ++ findingsOfArgs declared args

end

end Node

namespace Typing

@[simp] theorem settle_nil (operand : Typing) : operand.settle [] = operand := by
  simp [settle]

/-- Settling an operation first is settling the rest of the chain with its result. -/
theorem settle_cons (operand : Typing) (first : PendingOp) (pending : List PendingOp) :
    operand.settle (first :: pending) =
      (Typing.ofBinary first.op operand first.right first.location).settle pending := by
  simp [settle, ofBinary, PendingOp.diagnostics]

end Typing

namespace Node

variable {declared : String → Option String}

mutual

theorem typeChain_eq : (node : Node) → (pending : List PendingOp) →
    node.typeChain declared pending = (node.typed declared).settle pending
  | .binary op left right location, pending => by
      rw [typeChain, typeChain_eq left, typeChain_eq right, Typing.settle_cons, typed,
        Typing.settle_nil]
  | .unary _ operand _, pending => by
      rw [typeChain, typeChain_eq operand, Typing.settle_nil, typed]
  | .step _ operand _, pending => by
      rw [typeChain, typeChain_eq operand, Typing.settle_nil, typed]
  | .assignment target value _, pending => by
      rw [typeChain, typeChain_eq target, typeChain_eq value, Typing.settle_nil, Typing.settle_nil,
        typed]
  | .field object _ _, pending => by
      rw [typeChain, typeChain_eq object, Typing.settle_nil, typed]
  | .call callee args _, pending => by
      rw [typeChain, typeChain_eq callee, diagnosticsOfArgs_eq args, Typing.settle_nil, typed]
  | .number _ _, _ => rfl
  | .string _ _, _ => rfl
  | .reference _ _, _ => rfl
  | .variableDecl _ _ _ _, _ => rfl
  | .methodDecl _ _ _ _ _, _ => rfl
  | .classDecl _ _ _ _, _ => rfl
  | .block _ _, _ => rfl
  | .ifStmt _ _ _ _, _ => rfl
  | .whileStmt _ _ _, _ => rfl
  | .forStmt _ _ _ _ _, _ => rfl
  | .returnStmt _ _, _ => rfl
  | .breakStmt _, _ => rfl
  | .continueStmt _, _ => rfl

theorem diagnosticsOfArgs_eq : (args : List Node) →
    diagnosticsOfArgs declared args = findingsOfArgs declared args
  | [] => rfl
  | arg :: args => by
      rw [diagnosticsOfArgs, typeChain_eq arg, Typing.settle_nil, diagnosticsOfArgs_eq args,
        findingsOfArgs]

end

/-- The typing that runs follows the documented rules. -/
theorem typing_eq_typed (declared : String → Option String) (node : Node) :
    node.typing declared = node.typed declared := by
  rw [typing, typeChain_eq, Typing.settle_nil]

end Node

end BraceLang
