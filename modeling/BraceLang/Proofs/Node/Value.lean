import BraceLang.Node.Typing
import BraceLang.Proofs.Node.Shape

/-!
# Typing comes to expressions only

`typing` gives declarations and statements the unknown type. `typing?` goes through a tree in
the same way and fails where it comes to one of them. On an expression that is one through
and through it does not fail, so there the unknown type of statements is never used.
-/

namespace BraceLang.Node

mutual

/-- The typing of the chain that has this node as its left end and `pending` as its operators,
unless it comes to a tree without a value. -/
def typeChain? (declared : String → Option String) : Node → List PendingOp → Option Typing
  | .binary op left right location, pending => do
    let given ← right.typeChain? declared []
    left.typeChain? declared (⟨op, location, given⟩ :: pending)
  | .number digits _, pending => some ((Typing.mk (.ofNumber digits) []).settle pending)
  | .string _ _, pending => some ((Typing.mk .ofString []).settle pending)
  | .reference name location, pending =>
    some ((Typing.ofReference (declared name) name location).settle pending)
  | .unary _ operand _, pending => do
    let inside ← operand.typeChain? declared []
    return inside.settle pending
  | .step _ operand _, pending => do
    let inside ← operand.typeChain? declared []
    return inside.settle pending
  | .assignment target value location, pending => do
    let assigned ← target.typeChain? declared []
    let given ← value.typeChain? declared []
    return (Typing.ofAssignment assigned given target.text location).settle pending
  | .field object _ _, pending => do
    let inside ← object.typeChain? declared []
    return (Typing.mk .unknown inside.diagnostics).settle pending
  | .call callee args _, pending => do
    let called ← callee.typeChain? declared []
    let inside ← diagnosticsOfArgs? declared args
    return (Typing.mk called.type (called.diagnostics ++ inside)).settle pending
  | _, _ => none

/-- The diagnostics inside the arguments of a call, unless one of them comes to a tree without a
value. -/
def diagnosticsOfArgs? (declared : String → Option String) : List Node → Option (List Diagnostic)
  | [] => some []
  | arg :: args => do
    let inside ← arg.typeChain? declared []
    let others ← diagnosticsOfArgs? declared args
    return inside.diagnostics ++ others

end

/-- The typing of an expression, unless it comes to a tree without a value. -/
def typing? (declared : String → Option String) (node : Node) : Option Typing :=
  node.typeChain? declared []

variable {declared : String → Option String}

/-- A child of an expression through and through is another one. -/
theorem IsValue.of_mem {node child : Node} (value : node.IsValue) (member : child ∈ node.children) :
    child.IsValue := fun part inside =>
  value part (mem_preorder_of_mem_children member inside)

mutual

theorem typeChain?_eq : (node : Node) → node.IsValue → (pending : List PendingOp) →
    node.typeChain? declared pending = some (node.typeChain declared pending)
  | .binary op left right location, value, pending => by
      rw [typeChain?, typeChain, typeChain?_eq right (value.of_mem (by simp [children])),
        Option.bind_eq_bind, Option.bind_some,
        typeChain?_eq left (value.of_mem (by simp [children]))]
  | .number _ _, _, _ => rfl
  | .string _ _, _, _ => rfl
  | .reference _ _, _, _ => rfl
  | .unary _ operand _, value, _ => by
      rw [typeChain?, typeChain, typeChain?_eq operand (value.of_mem (by simp [children]))]
      rfl
  | .step _ operand _, value, _ => by
      rw [typeChain?, typeChain, typeChain?_eq operand (value.of_mem (by simp [children]))]
      rfl
  | .assignment target given _, value, _ => by
      rw [typeChain?, typeChain, typeChain?_eq target (value.of_mem (by simp [children])),
        typeChain?_eq given (value.of_mem (by simp [children]))]
      rfl
  | .field object _ _, value, _ => by
      rw [typeChain?, typeChain, typeChain?_eq object (value.of_mem (by simp [children]))]
      rfl
  | .call callee args _, value, _ => by
      rw [typeChain?, typeChain, typeChain?_eq callee (value.of_mem (by simp [children])),
        diagnosticsOfArgs?_eq args fun arg member =>
          value.of_mem (List.mem_cons_of_mem callee member)]
      rfl
  | .variableDecl _ _ _ _, value, _
  | .methodDecl _ _ _ _ _, value, _
  | .classDecl _ _ _ _, value, _
  | .block _ _, value, _
  | .ifStmt _ _ _ _, value, _
  | .whileStmt _ _ _, value, _
  | .forStmt _ _ _ _ _, value, _
  | .returnStmt _ _, value, _
  | .breakStmt _, value, _
  | .continueStmt _, value, _ => nomatch value.hasValue

theorem diagnosticsOfArgs?_eq : (args : List Node) → (∀ arg ∈ args, arg.IsValue) →
    diagnosticsOfArgs? declared args = some (diagnosticsOfArgs declared args)
  | [], _ => rfl
  | arg :: args, values => by
      obtain ⟨first, others⟩ := List.forall_mem_cons.mp values
      rw [diagnosticsOfArgs?, diagnosticsOfArgs, typeChain?_eq arg first,
        diagnosticsOfArgs?_eq args others]
      rfl

end

/-- Typing an expression comes to no tree without a value. -/
theorem IsValue.typing?_eq {node : Node} (value : node.IsValue)
    (declared : String → Option String) : node.typing? declared = some (node.typing declared) :=
  typeChain?_eq node value []

end BraceLang.Node
