import BraceLang.Node.Text
import BraceLang.Diagnostic

/-!
# The type of an expression

`Node.typing` gives an expression its type and lists what is wrong inside it,
in the order of reading. Literals have the types of their forms, a reference has
the type it was declared with, a binary operation the type of its left operand,
an assignment the type of its target, a call the type of what is called. Field
access is not resolved and has the unknown type.

A chain of binary operations nests to the left, one level per operator. The
operations met on the way down are kept as pending ones and settled from the
innermost operand outward; all operators of a chain are compared with the type
of that one operand.
-/

namespace BraceLang

/-- The type of an expression and the diagnostics inside it. -/
structure Typing where
  type : Ty
  diagnostics : List Diagnostic
deriving DecidableEq, Repr

/-- A binary operation whose left operand is still to be typed. -/
structure PendingOp where
  op : BinaryOp
  location : Location
  right : Typing

namespace PendingOp

/-- What a pending operation adds once its left operand has type `left`: the
diagnostics of the right operand, then the clash of the two types if there is one. -/
def diagnostics (left : Ty) (pending : PendingOp) : List Diagnostic :=
  pending.right.diagnostics ++
    if left.agrees pending.right.type then []
    else [.incompatible pending.op.symbol left.text pending.right.type.text pending.location]

end PendingOp

namespace Typing

/-- The typing of a chain from that of its innermost operand. -/
def settle (operand : Typing) (pending : List PendingOp) : Typing :=
  ⟨operand.type, operand.diagnostics ++ pending.flatMap (PendingOp.diagnostics operand.type)⟩

/-- The typing of a reference from what its name was declared with. -/
def ofReference (declared : Option String) (name : String) (location : Location) : Typing :=
  match declared with
  | some type => ⟨.known type, []⟩
  | none => ⟨.unknown, [.undeclared name location]⟩

/-- The typing of an assignment from those of its target and value. -/
def ofAssignment (target value : Typing) (written : String) (location : Location) : Typing :=
  ⟨target.type, target.diagnostics ++ value.diagnostics ++
    if target.type.agrees value.type then []
    else [.mismatch written target.type.text value.type.text location]⟩

end Typing

namespace Node

mutual

/-- The typing of the chain that has this node as its left end and `pending` as
its operators, innermost first. -/
def typeChain (declared : String → Option String) : Node → List PendingOp → Typing
  | .binary op left right location, pending =>
    left.typeChain declared (⟨op, location, right.typeChain declared []⟩ :: pending)
  | .number digits _, pending => (Typing.mk (.ofNumber digits) []).settle pending
  | .string _ _, pending => (Typing.mk .ofString []).settle pending
  | .reference name location, pending =>
    (Typing.ofReference (declared name) name location).settle pending
  | .unary _ operand _, pending => (operand.typeChain declared []).settle pending
  | .step _ operand _, pending => (operand.typeChain declared []).settle pending
  | .assignment target value location, pending =>
    (Typing.ofAssignment (target.typeChain declared []) (value.typeChain declared [])
      target.text location).settle pending
  | .field object _ _, pending =>
    (Typing.mk .unknown (object.typeChain declared []).diagnostics).settle pending
  | .call callee args _, pending =>
    let called := callee.typeChain declared []
    (Typing.mk called.type (called.diagnostics ++ diagnosticsOfArgs declared args)).settle pending
  | _, pending => (Typing.mk .unknown []).settle pending

/-- The diagnostics inside the arguments of a call, from left to right. -/
def diagnosticsOfArgs (declared : String → Option String) : List Node → List Diagnostic
  | [] => []
  | arg :: args => (arg.typeChain declared []).diagnostics ++ diagnosticsOfArgs declared args

end

/-- The typing of an expression when `declared` gives the types of the names in
scope. Declarations and statements carry no value. -/
def typing (declared : String → Option String) (node : Node) : Typing :=
  node.typeChain declared []

end Node

end BraceLang
