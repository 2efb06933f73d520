import BraceLang.Grammar.Scripted
import BraceLang.Proofs.Node.Shape
import BraceLang.Proofs.Resolution.Typing
import BraceLang.Proofs.Scope.Growth

/-!
# What is found wrong with an expression

Every reference of an expression is looked up once, from left to right, and reported where it has
no meaning. Nothing but references is looked up: the name of a field stands in its node, but is
no reference. What else is found wrong is a clash of two types in one node of the expression.
-/

namespace BraceLang

/-- The name and the place of a diagnostic about a name without a meaning. -/
def Diagnostic.undeclared? : Diagnostic → Option (String × Location)
  | .undeclared name location => some (name, location)
  | _ => none

namespace Node

/-- The name and the place of a reference. -/
def reference? : Node → Option (String × Location)
  | .reference name location => some (name, location)
  | _ => none

/-- The references in a tree, from left to right. -/
def references (node : Node) : List (String × Location) := node.preorder.filterMap reference?

theorem references_eq (node : Node) :
    node.references = node.reference?.toList ++ node.children.flatMap references := by
  rw [references, preorder_eq, List.filterMap_cons, List.filterMap_flatMap]
  cases node.reference? <;> rfl

/-- What is wrong with a node whose two parts have known types that are not the same. -/
inductive Clashes (declared : String → Option String) : Node → Diagnostic → Prop where
  | assignment {target value : Node} {expected found : String}
      (targetType : (target.typing declared).type = .known expected)
      (valueType : (value.typing declared).type = .known found) (differ : expected ≠ found)
      (location : Location) :
      Clashes declared (.assignment target value location)
        (.mismatch target.text expected found location)
  | binary (op : BinaryOp) {left right : Node} {first second : String}
      (leftType : (left.typing declared).type = .known first)
      (rightType : (right.typing declared).type = .known second) (differ : first ≠ second)
      (location : Location) :
      Clashes declared (.binary op left right location)
        (.incompatible op.symbol first second location)

variable {declared : String → Option String} {node : Node}

theorem findingsOfArgs_eq_flatMap (declared : String → Option String) (args : List Node) :
    findingsOfArgs declared args = args.flatMap fun arg => (arg.typed declared).diagnostics := by
  induction args with
  | nil => rfl
  | cons arg args inductionHypothesis => rw [findingsOfArgs, inductionHypothesis, List.flatMap_cons]

/-- What is found wrong with a node itself, apart from its parts. -/
def ownFindings (declared : String → Option String) : Node → List Diagnostic
  | .reference name location => (Typing.ofReference (declared name) name location).diagnostics
  | .assignment target value location =>
    let expected := (target.typed declared).type
    let found := (value.typed declared).type
    if expected.agrees found then []
    else [.mismatch target.text expected.text found.text location]
  | .binary op left right location =>
    let first := (left.typed declared).type
    let second := (right.typed declared).type
    if first.agrees second then [] else [.incompatible op.symbol first.text second.text location]
  | _ => []

/-- What is found wrong with an expression is what is found wrong with its parts in turn, and then
what is wrong with itself. -/
theorem findings_eq (value : node.hasValue = true) :
    (node.typed declared).diagnostics =
      node.children.flatMap (fun child => (child.typed declared).diagnostics) ++
        node.ownFindings declared := by
  cases node <;>
    simp [hasValue, typed, children, ownFindings, Typing.ofBinary, Typing.ofAssignment,
      findingsOfArgs_eq_flatMap] at value ⊢

theorem undeclared_ownFindings (declared : String → Option String) (node : Node) :
    (node.ownFindings declared).filterMap Diagnostic.undeclared? =
      node.reference?.toList.filter fun reference => (declared reference.1).isNone := by
  cases node with
  | reference name location =>
      rw [ownFindings, reference?]
      cases known : declared name <;> simp [Typing.ofReference, Diagnostic.undeclared?, known]
  | assignment | binary =>
      rw [ownFindings]
      split <;> rfl
  | _ => rfl

/-- A reference has no parts, and no other node is one. -/
theorem reference_append_comm {α : Type} (node : Node) (own : List (String × Location) → List α)
    (empty : own [] = []) (below : Node → List α) :
    own node.reference?.toList ++ node.children.flatMap below =
      node.children.flatMap below ++ own node.reference?.toList := by
  cases node <;> simp [reference?, children, empty]

/-- The names found undeclared in an expression are its references to undeclared names. -/
theorem undeclared_findings (expression : ∀ part ∈ node.preorder, part.hasValue = true) :
    (node.typed declared).diagnostics.filterMap Diagnostic.undeclared? =
      node.references.filter fun reference => (declared reference.1).isNone := by
  induction node using induction_children with
  | step node inductionHypothesis =>
      have below : node.children.flatMap (fun child =>
          (child.typed declared).diagnostics.filterMap Diagnostic.undeclared?) =
          node.children.flatMap fun child =>
            child.references.filter fun reference => (declared reference.1).isNone :=
        List.flatMap_congr fun child member => inductionHypothesis child member
          fun part inside => expression part (mem_preorder_of_mem_children member inside)
      have here := expression node (List.mem_cons_self ..)
      rw [findings_eq here, List.filterMap_append, List.filterMap_flatMap, below,
        undeclared_ownFindings, references_eq, List.filter_append, List.filter_flatMap]
      exact (reference_append_comm node (List.filter _) List.filter_nil _).symm

/-- What is found wrong with an expression is found wrong with one of its nodes. -/
theorem exists_mem_ownFindings (expression : ∀ part ∈ node.preorder, part.hasValue = true)
    {diagnostic : Diagnostic} (found : diagnostic ∈ (node.typed declared).diagnostics) :
    ∃ part ∈ node.preorder, diagnostic ∈ part.ownFindings declared := by
  induction node using induction_children with
  | step node inductionHypothesis =>
      have here := expression node (List.mem_cons_self ..)
      rw [findings_eq here, List.mem_append, List.mem_flatMap] at found
      obtain ⟨child, member, inside⟩ | own := found
      · obtain ⟨part, among, own⟩ := inductionHypothesis child member
          (fun part inside => expression part (mem_preorder_of_mem_children member inside)) inside
        exact ⟨part, mem_preorder_of_mem_children member among, own⟩
      · exact ⟨node, List.mem_cons_self .., own⟩

/-- Types that do not agree are known and differ. -/
theorem exists_known_of_not_agrees {left right : Ty} (clash : ¬ left.agrees right = true) :
    ∃ first second, left = .known first ∧ right = .known second ∧ first ≠ second := by
  cases left with
  | unknown => exact absurd rfl clash
  | known first =>
      cases right with
      | unknown => exact absurd rfl clash
      | known second => exact ⟨first, second, rfl, rfl, fun same => clash (decide_eq_true same)⟩

/-- What is wrong with a node itself, unless it is an undeclared reference, is a clash. -/
theorem clashes_of_mem_ownFindings {diagnostic : Diagnostic}
    (own : diagnostic ∈ node.ownFindings declared) (declares : diagnostic.undeclared? = none) :
    Clashes declared node diagnostic := by
  cases node with
  | reference name location =>
      rw [ownFindings] at own
      cases known : declared name <;> simp [Typing.ofReference, known] at own
      rw [own] at declares
      cases declares
  | assignment target value location =>
      simp only [ownFindings, List.mem_ite_nil_left, List.mem_singleton] at own
      obtain ⟨clash, rfl⟩ := own
      obtain ⟨expected, found, targetType, valueType, differ⟩ := exists_known_of_not_agrees clash
      rw [targetType, valueType]
      rw [← typing_eq_typed] at targetType valueType
      exact .assignment targetType valueType differ location
  | binary op left right location =>
      simp only [ownFindings, List.mem_ite_nil_left, List.mem_singleton] at own
      obtain ⟨clash, rfl⟩ := own
      obtain ⟨first, second, leftType, rightType, differ⟩ := exists_known_of_not_agrees clash
      rw [leftType, rightType]
      rw [← typing_eq_typed] at leftType rightType
      exact .binary op leftType rightType differ location
  | _ => cases own

/-- Of the references of an expression exactly those whose names mean nothing in the current scope
are reported, once each and from left to right. Whatever else is found wrong is a clash of two
known types in a node of the expression. Neither the scopes nor the tokens ahead change, and what
was found wrong before stands. -/
theorem references_reported_once (session : Session)
    (expression : ∀ part ∈ node.preorder, part.hasValue = true) :
    let found := (node.typing session.declaredType).diagnostics
    found.filterMap Diagnostic.undeclared? =
        node.references.filter (fun reference =>
          (session.scopes.lookup session.current reference.1).isNone) ∧
      (∀ diagnostic ∈ found, diagnostic.undeclared? = none →
        ∃ part ∈ node.preorder, Clashes session.declaredType part diagnostic) ∧
      session.after (.check node) = session ∧
      (∀ stop ahead, Scripted.emit (.check node) stop ahead = ⟨[.check node], .ok ((), ahead)⟩) ∧
      ∀ (start : Session) (before : List Step), start.run before = session →
        start.diagnostics (before ++ [.check node]) = start.diagnostics before ++ found := by
  intro found
  have typed : found = (node.typed session.declaredType).diagnostics := by
    rw [← typing_eq_typed]
  refine ⟨?_, fun diagnostic member declares => ?_, rfl, fun _ _ => rfl, ?_⟩
  · simp only [typed, undeclared_findings expression, Session.declaredType,
      ScopeTable.declaredType, Option.isNone_map]
  · rw [typed] at member
    obtain ⟨part, among, own⟩ := exists_mem_ownFindings expression member
    exact ⟨part, among, clashes_of_mem_ownFindings own declares⟩
  · rintro start before rfl
    rw [Session.diagnostics_append]
    exact congrArg _ (List.append_nil _)

/-- A call of a method that is the field of an undeclared name, with an assignment that clashes and
the same name again among its arguments. -/
theorem references_reported_once_repeated :
    let session := Session.start [⟨"x", "int", .variable⟩]
    let target := Node.reference "x" ⟨1, 8⟩
    let value := Node.string "t" ⟨1, 12⟩
    let node := Node.call (.field (.reference "y" ⟨1, 1⟩) "x" ⟨1, 3⟩)
      [.assignment target value ⟨1, 10⟩,
        .binary .add (.reference "y" ⟨1, 17⟩) (.reference "x" ⟨1, 21⟩) ⟨1, 19⟩] ⟨1, 6⟩
    let found := (node.typing session.declaredType).diagnostics
    (∀ part ∈ node.preorder, part.hasValue = true) ∧
      found.filterMap Diagnostic.undeclared? = [("y", ⟨1, 1⟩), ("y", ⟨1, 17⟩)] ∧
      .mismatch "x" "int" "String" ⟨1, 10⟩ ∈ found ∧
      ∃ part ∈ node.preorder,
        Clashes session.declaredType part (.mismatch "x" "int" "String" ⟨1, 10⟩) := by
  intro session target value node found
  have expression : ∀ part ∈ node.preorder, part.hasValue = true := by decide
  have clash : .mismatch "x" "int" "String" ⟨1, 10⟩ ∈ found := by decide
  obtain ⟨undeclared, clashes, _⟩ := references_reported_once session expression
  refine ⟨expression, undeclared.trans ?_, clash, clashes _ clash rfl⟩
  decide

end Node
end BraceLang
