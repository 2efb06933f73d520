import BraceLang.Node

/-!
# The nodes of a tree in preorder

A node comes in front of the nodes below it, and its parts come in the order in which they
stand in the node: the fields of a class in front of its methods. The recursion follows the
type, with its options and lists; `preorder_eq` says the same through the children of a node.
-/

namespace BraceLang.Node

mutual

/-- The nodes below a node. -/
def descendants : Node → List Node
  | .variableDecl _ _ init _ => preorderOption init
  | .methodDecl _ _ _ body _ => preorderAll body
  | .classDecl _ fields methods _ => preorderAll fields ++ preorderAll methods
  | .block statements _ => preorderAll statements
  | .ifStmt condition thenBranch elseBranch _ =>
    condition :: condition.descendants ++ (preorderAll thenBranch ++ preorderElse elseBranch)
  | .whileStmt condition body _ => condition :: condition.descendants ++ preorderAll body
  | .forStmt init condition update body _ =>
    preorderOption init ++ (preorderOption condition ++
      (preorderOption update ++ preorderAll body))
  | .returnStmt value _ => preorderOption value
  | .assignment target value _ => target :: target.descendants ++ value :: value.descendants
  | .binary _ left right _ => left :: left.descendants ++ right :: right.descendants
  | .unary _ operand _ => operand :: operand.descendants
  | .step _ operand _ => operand :: operand.descendants
  | .call callee args _ => callee :: callee.descendants ++ preorderAll args
  | .field object _ _ => object :: object.descendants
  | .breakStmt _
  | .continueStmt _
  | .reference _ _
  | .number _ _
  | .string _ _ => []

/-- Trees one after the other, each with the nodes below it. -/
def preorderAll : List Node → List Node
  | [] => []
  | node :: nodes => node :: node.descendants ++ preorderAll nodes

/-- A tree with the nodes below it, if there is one. -/
def preorderOption : Option Node → List Node
  | none => []
  | some node => node :: node.descendants

/-- The nodes of an else branch, if there is one. -/
def preorderElse : Option (List Node) → List Node
  | none => []
  | some nodes => preorderAll nodes

end

/-- All nodes of a tree, each in front of those below it. -/
def preorder (node : Node) : List Node := node :: node.descendants

/-- The nodes directly below a node. -/
def children : Node → List Node
  | .variableDecl _ _ init _ => init.toList
  | .methodDecl _ _ _ body _ => body
  | .classDecl _ fields methods _ => fields ++ methods
  | .block statements _ => statements
  | .ifStmt condition thenBranch elseBranch _ => condition :: (thenBranch ++ elseBranch.getD [])
  | .whileStmt condition body _ => condition :: body
  | .forStmt init condition update body _ =>
    init.toList ++ (condition.toList ++ (update.toList ++ body))
  | .returnStmt value _ => value.toList
  | .assignment target value _ => [target, value]
  | .binary _ left right _ => [left, right]
  | .unary _ operand _ => [operand]
  | .step _ operand _ => [operand]
  | .call callee args _ => callee :: args
  | .field object _ _ => [object]
  | .breakStmt _
  | .continueStmt _
  | .reference _ _
  | .number _ _
  | .string _ _ => []

theorem preorderAll_eq_flatMap (nodes : List Node) :
    preorderAll nodes = nodes.flatMap preorder := by
  induction nodes with
  | nil => rfl
  | cons node nodes inductionHypothesis =>
      rw [preorderAll, inductionHypothesis]
      rfl

theorem preorderOption_eq_flatMap (node : Option Node) :
    preorderOption node = node.toList.flatMap preorder := by
  cases node with
  | none => rfl
  | some node => exact (List.flatMap_singleton ..).symm

theorem preorderElse_eq_flatMap (nodes : Option (List Node)) :
    preorderElse nodes = (nodes.getD []).flatMap preorder := by
  cases nodes with
  | none => rfl
  | some nodes => exact preorderAll_eq_flatMap nodes

/-- A tree in preorder is its node in front of the trees of its children in preorder. -/
theorem preorder_eq (node : Node) : node.preorder = node :: node.children.flatMap preorder := by
  cases node <;>
    simp [preorder, descendants, children, preorderAll_eq_flatMap, preorderOption_eq_flatMap,
      preorderElse_eq_flatMap]

variable {node child part : Node}

/-- The nodes of a child are among those of its parent. -/
theorem mem_preorder_of_mem_children (member : child ∈ node.children)
    (inside : part ∈ child.preorder) : part ∈ node.preorder := by
  rw [preorder_eq]
  exact List.mem_cons_of_mem _ (List.mem_flatMap.mpr ⟨child, member, inside⟩)

/-- What holds of a node and of all nodes of its children holds of all its nodes. -/
theorem forall_preorder {holds : Node → Prop} (here : holds node)
    (below : ∀ child ∈ node.children, ∀ part ∈ child.preorder, holds part) :
    ∀ part ∈ node.preorder, holds part := by
  rw [preorder_eq]
  refine List.forall_mem_cons.mpr ⟨here, fun part member => ?_⟩
  obtain ⟨child, among, member⟩ := List.mem_flatMap.mp member
  exact below child among part member

theorem length_preorder_lt (member : child ∈ node.children) :
    child.preorder.length < node.preorder.length := by
  obtain ⟨front, back, split⟩ := List.append_of_mem member
  rw [preorder_eq node, split, List.flatMap_append, List.flatMap_cons, List.length_cons,
    List.length_append, List.length_append]
  omega

/-- What holds of a tree whenever it holds of all its children holds of all trees. -/
theorem induction_children {holds : Node → Prop}
    (step : ∀ node, (∀ child ∈ node.children, holds child) → holds node) (node : Node) :
    holds node := by
  induction size : node.preorder.length using Nat.strongRecOn generalizing node with
  | ind _ inductionHypothesis =>
      subst size
      exact step node fun child member =>
        inductionHypothesis _ (length_preorder_lt member) child rfl

/-- A node below another one is a child of one of its nodes. -/
theorem exists_parent (below : part ∈ node.descendants) :
    ∃ parent ∈ node.preorder, part ∈ parent.children := by
  induction node using induction_children with
  | step node inductionHypothesis =>
      have equal : node.descendants = node.children.flatMap preorder :=
        (List.cons.inj node.preorder_eq).2
      rw [equal] at below
      obtain ⟨child, member, inside⟩ := List.mem_flatMap.mp below
      rcases List.mem_cons.mp inside with rfl | inside
      · exact ⟨node, List.mem_cons_self .., member⟩
      · obtain ⟨parent, among, found⟩ := inductionHypothesis child member inside
        exact ⟨parent, mem_preorder_of_mem_children member among, found⟩

end BraceLang.Node
