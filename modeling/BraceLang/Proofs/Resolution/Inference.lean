import BraceLang.Proofs.Resolution.Typing
import BraceLang.Session

/-!
# Typing an expression node by node

`Node.infer` goes through an expression once and keeps a log of what is wrong. At a binary
operation it goes through the left operand, then through the right one, and then compares their
types; no operation knows of the chain in which it stands. The typing that runs collects the
operations of a chain before it types their operands, and compares all of them with one type.
It comes to the same type, and what it finds wrong is what is added to the log.
-/

namespace BraceLang

/-- What is recorded about two types: nothing, unless both are known and differ. -/
def Ty.conflict (left right : Ty) (diagnostic : Diagnostic) : List Diagnostic :=
  match left, right with
  | .known name, .known other => if name = other then [] else [diagnostic]
  | _, _ => []

theorem Ty.conflict_eq (left right : Ty) (diagnostic : Diagnostic) :
    left.conflict right diagnostic = if left.agrees right then [] else [diagnostic] := by
  cases left with
  | unknown => rfl
  | known name => cases right <;> simp [conflict, agrees]

namespace Node

mutual

/-- The type of an expression in the current scope of a session, and the log behind it. -/
def infer (session : Session) : Node → List Diagnostic → Ty × List Diagnostic
  | .number digits _, log => (.ofNumber digits, log)
  | .string _ _, log => (.ofString, log)
  | .reference name location, log =>
    match session.scopes.lookup session.current name with
    | some symbol => (.known symbol.type, log)
    | none => (.unknown, log ++ [.undeclared name location])
  | .binary op left right location, log =>
    let (leftType, log) := left.infer session log
    let (rightType, log) := right.infer session log
    (leftType, log ++ leftType.conflict rightType
      (.incompatible op.symbol leftType.text rightType.text location))
  | .unary _ operand _, log => operand.infer session log
  | .step _ operand _, log => operand.infer session log
  | .assignment target value location, log =>
    let (expected, log) := target.infer session log
    let (found, log) := value.infer session log
    (expected, log ++ expected.conflict found
      (.mismatch target.text expected.text found.text location))
  | .field object _ _, log => (.unknown, (object.infer session log).2)
  | .call callee args _, log =>
    let (type, log) := callee.infer session log
    (type, inferArgs session args log)
  | _, log => (.unknown, log)

/-- The log behind the arguments of a call, from left to right. -/
def inferArgs (session : Session) : List Node → List Diagnostic → List Diagnostic
  | [], log => log
  | arg :: args, log => inferArgs session args (arg.infer session log).2

end

section Inference

variable (session : Session)

theorem infer_reference (name : String) (location : Location) (log : List Diagnostic) :
    (reference name location).infer session log =
      let typing := Typing.ofReference (session.declaredType name) name location
      (typing.type, log ++ typing.diagnostics) := by
  rw [infer, Session.declaredType, ScopeTable.declaredType]
  cases session.scopes.lookup session.current name with
  | none => rfl
  | some symbol => simp [Typing.ofReference]

mutual

/-- Node by node an expression gets the type it has by the documented rules, and what those find
wrong is added to the log. -/
theorem infer_eq_typed : (node : Node) → (log : List Diagnostic) →
    node.infer session log =
      ((node.typed session.declaredType).type,
        log ++ (node.typed session.declaredType).diagnostics)
  | .binary op left right location, log => by
      simp only [infer, infer_eq_typed left, infer_eq_typed right, Ty.conflict_eq, typed,
        Typing.ofBinary, List.append_assoc]
  | .assignment target value location, log => by
      simp only [infer, infer_eq_typed target, infer_eq_typed value, Ty.conflict_eq, typed,
        Typing.ofAssignment, List.append_assoc]
  | .unary _ operand _, log => by rw [infer, infer_eq_typed operand, typed]
  | .step _ operand _, log => by rw [infer, infer_eq_typed operand, typed]
  | .field object _ _, log => by rw [infer, infer_eq_typed object, typed]
  | .call callee args _, log => by
      simp only [infer, infer_eq_typed callee, inferArgs_eq_findings args, typed,
        List.append_assoc]
  | .reference name location, log => infer_reference session name location log
  | .number _ _, log => by rw [infer, typed, List.append_nil]
  | .string _ _, log => by rw [infer, typed, List.append_nil]
  | .variableDecl _ _ _ _, log
  | .methodDecl _ _ _ _ _, log
  | .classDecl _ _ _ _, log
  | .block _ _, log
  | .ifStmt _ _ _ _, log
  | .whileStmt _ _ _, log
  | .forStmt _ _ _ _ _, log
  | .returnStmt _ _, log
  | .breakStmt _, log
  | .continueStmt _, log => by simp [infer, typed]

theorem inferArgs_eq_findings : (args : List Node) → (log : List Diagnostic) →
    inferArgs session args log = log ++ findingsOfArgs session.declaredType args
  | [], log => by rw [inferArgs, findingsOfArgs, List.append_nil]
  | arg :: args, log => by
      rw [inferArgs, infer_eq_typed arg, inferArgs_eq_findings args, findingsOfArgs,
        List.append_assoc]

end

end Inference

/-- Whatever the scopes and the current one, an expression of any shape has the type that it gets
node by node, and what is found wrong with it is what is recorded node by node, in that order. -/
theorem chains_type_like_single_operations (scopes : ScopeTable) (current : ScopeId) (node : Node)
    (log : List Diagnostic) :
    let session : Session := ⟨scopes, current⟩
    let typing := node.typing session.declaredType
    node.infer session log = (typing.type, log ++ typing.diagnostics) := by
  intro session typing
  rw [infer_eq_typed, ← typing_eq_typed]

/-- A chain with a chain in its right operand: both clashes are found, the inner one first. -/
example :
    let leaf (text : String) (column : Nat) : Node := .number text ⟨1, column⟩
    let inner := Node.binary .sub (leaf "2.5" 7) (leaf "3" 11) ⟨1, 9⟩
    let node := Node.binary .add (.binary .mul (leaf "1" 1) (leaf "2" 5) ⟨1, 3⟩) inner ⟨1, 6⟩
    node.infer (.start []) [] =
      (.known "int", [.incompatible "-" "double" "int" ⟨1, 9⟩,
        .incompatible "+" "int" "double" ⟨1, 6⟩]) := by
  decide

end Node

end BraceLang
