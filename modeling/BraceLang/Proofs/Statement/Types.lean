import BraceLang.Proofs.Statement.Pointing
import BraceLang.Proofs.Statement.Shape

/-!
# Which types a tree writes

A tree writes types in front of variables, of methods and of their parameters, and nowhere else.
Each of them is the text of a token for a type among those that the tree was read from; a name
never stands for one.
-/

namespace BraceLang

variable {tokens : List Token}

namespace Node

/-- The types that a node writes itself. -/
def types : Node → List String
  | .variableDecl type _ _ _ => [type]
  | .methodDecl returnType _ params _ _ => returnType.toList ++ params.map (·.type)
  | _ => []

/-- Whether the types that a node writes itself are those of tokens. -/
def TakesTypes (tokens : List Token) (node : Node) : Prop :=
  ∀ type ∈ node.types, ∃ location, (Lexeme.type type).token location ∈ tokens

/-- Whether all nodes of a tree write only types of tokens. -/
def TakesTypesThroughout (tokens : List Token) (node : Node) : Prop :=
  ∀ part ∈ node.preorder, part.TakesTypes tokens

variable {node : Node}

theorem TakesTypesThroughout.of_children (takes : node.TakesTypes tokens)
    (below : ∀ child ∈ node.children, child.TakesTypesThroughout tokens) :
    node.TakesTypesThroughout tokens :=
  forall_preorder takes below

/-- Expressions write no types. -/
theorem IsValue.takesTypes (value : node.IsValue) : node.TakesTypesThroughout tokens := by
  intro part member
  have expression := (value part member).1
  cases part <;> first | exact List.forall_mem_nil _ | cases expression

end Node

namespace Grammar

variable {ahead rest : List Token} {script : List Step}

theorem TakesClause.takesTypes {closing : Lexeme} {value : Option Node}
    (taken : TakesClause closing ahead script value rest) :
    ∀ node ∈ value.toList, node.TakesTypesThroughout tokens :=
  fun node member => (taken.isValue node member).takesTypes

theorem TakesVariable.takesTypes {node : Node} (taken : TakesVariable ahead script node rest)
    (inside : ahead ⊆ tokens) : node.TakesTypesThroughout tokens := by
  have values := taken.isValue_of_mem_children
  refine .of_children ?_ fun child member => (values child member).takesTypes
  cases taken <;>
    exact List.forall_mem_singleton.mpr ⟨_, (List.cons_subset.mp inside).1⟩

theorem TakesInitializer.takesTypes {init : Option Node}
    (taken : TakesInitializer ahead script init rest) (inside : ahead ⊆ tokens) :
    ∀ node ∈ init.toList, node.TakesTypesThroughout tokens := by
  cases taken with
  | clause taken => exact taken.takesTypes
  | declared taken => exact List.forall_mem_singleton.mpr (taken.takesTypes inside)

theorem TakesFurtherParameters.takesTypes {params : List Param}
    (taken : TakesFurtherParameters ahead script params rest) (inside : ahead ⊆ tokens) :
    ∀ param ∈ params, ∃ location, (Lexeme.type param.type).token location ∈ tokens := by
  induction taken with
  | closed => exact List.forall_mem_nil _
  | next _ _ _ _ _ _ inductionHypothesis =>
      simp only [List.cons_subset] at inside
      obtain ⟨-, type, -, behind⟩ := inside
      exact List.forall_mem_cons.mpr ⟨⟨_, type⟩, inductionHypothesis behind⟩

theorem TakesParameters.takesTypes {params : List Param}
    (taken : TakesParameters ahead script params rest) (inside : ahead ⊆ tokens) :
    ∀ param ∈ params, ∃ location, (Lexeme.type param.type).token location ∈ tokens := by
  cases taken with
  | none => exact List.forall_mem_nil _
  | some _ _ _ _ others =>
      simp only [List.cons_subset] at inside
      obtain ⟨type, -, behind⟩ := inside
      exact List.forall_mem_cons.mpr ⟨⟨_, type⟩, others.takesTypes behind⟩

/-- A method writes the type in front of it, if it has one, and those of its parameters. -/
theorem takesTypes_methodDecl {returnType : Option Token} {name : String} {params : List Param}
    {nodes : List Node} {location : Location}
    (led : (Construct.method returnType).Led tokens)
    (typed : ∀ param ∈ params, ∃ location, (Lexeme.type param.type).token location ∈ tokens) :
    (Node.methodDecl (returnType.map (·.text)) name params nodes location).TakesTypes tokens := by
  refine List.forall_mem_append.mpr ⟨?_, List.forall_mem_map.mpr typed⟩
  cases returnType with
  | none => exact List.forall_mem_nil _
  | some type => exact List.forall_mem_singleton.mpr ⟨_, led⟩

/-- All types in what a construct yields are those of its tokens. -/
theorem Takes.takesTypes {construct : Construct} {ahead rest : List Token} {script : List Step}
    {value : construct.Yield} (taken : Takes construct ahead script value rest)
    (inside : ahead ⊆ tokens) (led : construct.Led tokens) :
    ∀ node ∈ construct.nodes value, node.TakesTypesThroughout tokens := by
  have untyped {node : Node} (silent : node.types = []) : node.TakesTypes tokens := by
    rw [Node.TakesTypes, silent]
    exact List.forall_mem_nil _
  induction taken with
  | statement _ inductionHypothesis
  | conditional _ inductionHypothesis => exact inductionHypothesis inside trivial
  | declared taken => exact List.forall_mem_singleton.mpr (taken.takesTypes inside)
  | method _ _ _ inductionHypothesis =>
      obtain ⟨type, behind⟩ := List.cons_subset.mp inside
      exact inductionHypothesis behind type
  | expression _ _ _ derived => exact List.forall_mem_singleton.mpr derived.isValue.takesTypes
  | whileLoop _ _ _ _ guarded _ inductionHypothesis =>
      simp only [List.cons_subset, List.append_subset] at inside
      obtain ⟨-, -, -, -, -, ahead⟩ := inside
      exact List.forall_mem_singleton.mpr (.of_children (untyped rfl)
        (List.forall_mem_cons.mpr ⟨guarded.isValue.takesTypes, inductionHypothesis ahead trivial⟩))
  | forLoop _ _ _ initTaken guardTaken updateTaken _ inductionHypothesis =>
      simp only [List.cons_subset] at inside
      obtain ⟨-, -, ahead⟩ := inside
      have afterInit := (initTaken.points ahead).behind
      have afterGuard := (guardTaken.points afterInit).behind
      have afterUpdate := (List.cons_subset.mp (updateTaken.points afterGuard).behind).2
      exact List.forall_mem_singleton.mpr (.of_children (untyped rfl)
        (List.forall_mem_append.mpr ⟨initTaken.takesTypes ahead,
          List.forall_mem_append.mpr ⟨guardTaken.takesTypes,
            List.forall_mem_append.mpr ⟨updateTaken.takesTypes,
              inductionHypothesis afterUpdate trivial⟩⟩⟩))
  | returned _ taken =>
      exact List.forall_mem_singleton.mpr (.of_children (untyped rfl) taken.takesTypes)
  | closedJump jumps | openJump jumps =>
      cases jumps <;>
        exact List.forall_mem_singleton.mpr (.of_children (untyped rfl) (List.forall_mem_nil _))
  | @classBody _ _ _ _ _ _ _ members _ inductionHypothesis =>
      simp only [List.cons_subset] at inside
      obtain ⟨-, -, -, ahead⟩ := inside
      have each := inductionHypothesis ahead trivial
      exact List.forall_mem_singleton.mpr (.of_children (untyped rfl) fun child member =>
        each child ((Member.nodes_perm members).subset member))
  | opened | closed | idle | noElse | bodyEnd | membersEnd => exact List.forall_mem_nil _
  | arm _ _ _ _ guarded body _ bodyTypes othersTypes =>
      simp only [List.cons_subset, List.append_subset] at inside
      obtain ⟨-, -, -, -, -, ahead⟩ := inside
      have behind := (body.points ahead trivial).behind
      exact List.forall_mem_singleton.mpr (.of_children (untyped rfl)
        (List.forall_mem_cons.mpr ⟨guarded.isValue.takesTypes,
          List.forall_mem_append.mpr ⟨bodyTypes ahead trivial, othersTypes behind trivial⟩⟩))
  | elseBody _ _ _ inductionHypothesis =>
      simp only [List.cons_subset] at inside
      exact inductionHypothesis inside.2.2 trivial
  | elseIf _ _ inductionHypothesis =>
      exact inductionHypothesis (List.cons_subset.mp inside).2 trivial
  | methodRest _ _ _ _ _ paramsTaken _ inductionHypothesis =>
      simp only [List.cons_subset] at inside
      obtain ⟨-, -, ahead⟩ := inside
      have behind := (List.cons_subset.mp (paramsTaken.points ahead).behind).2
      exact List.forall_mem_singleton.mpr (.of_children
        (takesTypes_methodDecl led (paramsTaken.takesTypes ahead))
        (inductionHypothesis behind trivial))
  | bodyItem _ first _ firstTypes othersTypes =>
      have behind := (first.points inside trivial).behind
      exact List.forall_mem_append.mpr ⟨firstTypes inside trivial, othersTypes behind trivial⟩
  | field _ taken _ inductionHypothesis =>
      have ahead := (List.append_subset.mp inside).2
      have behind := (taken.points ahead).behind
      exact List.forall_mem_cons.mpr
        ⟨taken.takesTypes ahead, inductionHypothesis behind trivial⟩
  | typedMethod _ _ _ taken _ methodTypes othersTypes =>
      obtain ⟨type, ahead⟩ := List.cons_subset.mp (List.append_subset.mp inside).2
      have behind := (taken.points ahead type).behind
      exact List.forall_mem_append.mpr ⟨methodTypes ahead type, othersTypes behind trivial⟩
  | constructor _ _ taken _ methodTypes othersTypes =>
      have ahead := (List.append_subset.mp inside).2
      have behind := (taken.points ahead trivial).behind
      exact List.forall_mem_append.mpr ⟨methodTypes ahead trivial, othersTypes behind trivial⟩

/-- All types in a program are those of its tokens. -/
theorem TakesProgram.takesTypes {ahead : List Token} {script : List Step} {items : List Item}
    (taken : TakesProgram ahead script items) (inside : ahead ⊆ tokens) :
    ∀ node ∈ items.flatMap Item.nodes, node.TakesTypesThroughout tokens := by
  induction taken with
  | nil => exact List.forall_mem_nil _
  | cons first _ inductionHypothesis =>
      have behind := (first.points inside trivial).behind
      exact List.forall_mem_append.mpr
        ⟨first.takesTypes inside trivial, inductionHypothesis behind⟩

end Grammar
end BraceLang
