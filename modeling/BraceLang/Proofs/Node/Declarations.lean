import BraceLang.Proofs.Node.Preorder
import BraceLang.Proofs.Statement.Grammar

/-!
# The declarations of a tree

A declaration declares a symbol in the scope in which it stands; a method also declares its
parameters, inside. The script that is read along with a tree declares exactly the symbols
that the nodes of the tree declare: in the same order, but that a tree keeps the fields of a
class in front of its methods.
-/

namespace BraceLang

/-- The symbol of a parameter. -/
def Param.symbol (param : Param) : Symbol := ⟨param.name, param.type, .parameter⟩

namespace Node

/-- The symbol that a declaration declares in the scope in which it stands. -/
def symbol? : Node → Option Symbol
  | .variableDecl type name _ _ => some ⟨name, type, .variable⟩
  | .methodDecl returnType name _ _ _ => some ⟨name, returnType.getD name, .method⟩
  | .classDecl name _ _ _ => some ⟨name, "class", .className⟩
  | _ => none

/-- The symbols that a method declares inside. -/
def paramSymbols : Node → List Symbol
  | .methodDecl _ _ params _ _ => params.map Param.symbol
  | _ => []

/-- The symbols that a node declares, those that nodes below it declare apart. -/
def declared (node : Node) : List Symbol := node.symbol?.toList ++ node.paramSymbols

/-- The symbols that the nodes of a tree declare. -/
def declarations (node : Node) : List Symbol := node.preorder.flatMap declared

theorem declarations_eq (node : Node) :
    node.declarations = node.declared ++ node.children.flatMap declarations := by
  rw [declarations, preorder_eq, List.flatMap_cons, List.flatMap_assoc]
  rfl

/-- A tree in which nothing is declared: neither by its node nor in one of its children. -/
theorem declarations_eq_nil {node : Node} (here : node.declared = [])
    (inside : node.children.flatMap declarations = []) : node.declarations = [] := by
  rw [declarations_eq, here, inside]
  rfl

section Statements

variable (type name : String) (init condition update : Option Node) (guard : Node)
  (body fields methods : List Node) (location : Location)

@[simp] theorem declarations_variableDecl :
    (variableDecl type name init location).declarations =
      ⟨name, type, .variable⟩ :: init.toList.flatMap declarations :=
  declarations_eq _

@[simp] theorem declarations_methodDecl (returnType : Option String) (params : List Param) :
    (methodDecl returnType name params body location).declarations =
      ⟨name, returnType.getD name, .method⟩ ::
        (params.map Param.symbol ++ body.flatMap declarations) :=
  declarations_eq _

@[simp] theorem declarations_classDecl :
    (classDecl name fields methods location).declarations =
      ⟨name, "class", .className⟩ ::
        (fields.flatMap declarations ++ methods.flatMap declarations) :=
  (declarations_eq _).trans (congrArg (_ :: ·) List.flatMap_append)

@[simp] theorem declarations_block :
    (block body location).declarations = body.flatMap declarations :=
  declarations_eq _

@[simp] theorem declarations_ifStmt (otherwise : Option (List Node)) :
    (ifStmt guard body otherwise location).declarations =
      guard.declarations ++
        (body.flatMap declarations ++ (otherwise.getD []).flatMap declarations) :=
  (declarations_eq _).trans (congrArg (_ ++ ·) List.flatMap_append)

@[simp] theorem declarations_whileStmt :
    (whileStmt guard body location).declarations =
      guard.declarations ++ body.flatMap declarations :=
  declarations_eq _

@[simp] theorem declarations_forStmt :
    (forStmt init condition update body location).declarations =
      init.toList.flatMap declarations ++ (condition.toList.flatMap declarations ++
        (update.toList.flatMap declarations ++ body.flatMap declarations)) := by
  rw [declarations_eq, children, List.flatMap_append, List.flatMap_append, List.flatMap_append]
  rfl

@[simp] theorem declarations_returnStmt :
    (returnStmt init location).declarations = init.toList.flatMap declarations :=
  declarations_eq _

end Statements
end Node

/-- The symbol that a step declares. -/
def Step.symbol? : Step → Option Symbol
  | .declare symbol _ => some symbol
  | _ => none

/-- The symbols that a script declares. -/
def declarations (script : List Step) : List Symbol := script.filterMap Step.symbol?

section Script

@[simp] theorem declarations_nil : declarations [] = [] := rfl

@[simp] theorem declarations_cons (step : Step) (script : List Step) :
    declarations (step :: script) = step.symbol?.toList ++ declarations script := by
  cases found : step.symbol? <;> simp [declarations, found]

@[simp] theorem declarations_append (front back : List Step) :
    declarations (front ++ back) = declarations front ++ declarations back :=
  List.filterMap_append

end Script

namespace Grammar

open Node

/-- The trees that a phrase stands for. -/
def Phrase.nodes : (phrase : Phrase) → phrase.Tree → List Node
  | .arguments, args => args
  | .furtherArguments, args => args
  | .expression, node => [node]
  | .operation _, node => [node]
  | .unary, node => [node]
  | .stepped, node => [node]
  | .primary, node => [node]
  | .chain, node => [node]

/-- Nothing is declared in an expression. -/
theorem Derives.declares_nothing {phrase : Phrase} {used : List Token} {value : phrase.Tree}
    (derived : Derives phrase used value) :
    (phrase.nodes value).flatMap Node.declarations = [] := by
  induction derived with
  | operation _ inductionHypothesis
  | operand _ inductionHypothesis
  | innermost _ inductionHypothesis
  | unsigned _ inductionHypothesis
  | unstepped _ inductionHypothesis
  | parenthesized _ _ _ inductionHypothesis
  | chained _ inductionHypothesis => exact inductionHypothesis
  | noArguments | noFurtherArguments => rfl
  | arguments _ _ firstNothing othersNothing
  | furtherArguments _ _ _ firstNothing othersNothing =>
      exact List.flatMap_append.trans (List.append_eq_nil_iff.mpr ⟨firstNothing, othersNothing⟩)
  | _ =>
      refine (List.flatMap_singleton ..).trans (Node.declarations_eq_nil rfl ?_)
      simp_all [Phrase.nodes, children]

theorem Derives.declarations_eq_nil {used : List Token} {node : Node}
    (derived : Derives .expression used node) : node.declarations = [] :=
  (List.flatMap_singleton ..).symm.trans derived.declares_nothing

/-- The node of a member. -/
def Member.node : Member → Node
  | .field node => node
  | .method node => node

/-- The fields and the methods among members are all of them. -/
theorem Member.nodes_perm (all : List Member) :
    (all.filterMap Member.field? ++ all.filterMap Member.method?).Perm
      (all.map Member.node) := by
  induction all with
  | nil => exact .nil
  | cons member others inductionHypothesis =>
      cases member with
      | field node => exact inductionHypothesis.cons node
      | method node => exact List.perm_middle.trans (inductionHypothesis.cons node)

/-- The trees that a construct yields. -/
def Construct.nodes : (construct : Construct) → construct.Yield → List Node
  | .statement, item => item.nodes
  | .marked, item => item.nodes
  | .body _, nodes => nodes
  | .conditional, node => [node]
  | .otherwise, nodes => nodes.getD []
  | .method _, node => [node]
  | .members _, all => all.map Member.node

section Parts

variable {ahead rest : List Token} {script : List Step}

theorem TakesClause.declares_nothing {closing : Lexeme} {value : Option Node}
    (taken : TakesClause closing ahead script value rest) :
    declarations script = [] ∧ value.toList.flatMap Node.declarations = [] := by
  cases taken with
  | absent => exact ⟨rfl, rfl⟩
  | present derived => exact ⟨rfl, derived.declares_nothing⟩

theorem TakesVariable.declarations {node : Node} (taken : TakesVariable ahead script node rest) :
    declarations script = node.declarations := by
  cases taken with
  | plain => rfl
  | initialized _ _ _ _ _ _ derived =>
      rw [declarations_eq]
      exact congrArg (_ :: ·) derived.declares_nothing.symm

theorem TakesInitializer.declarations {init : Option Node}
    (taken : TakesInitializer ahead script init rest) :
    declarations script = init.toList.flatMap Node.declarations := by
  cases taken with
  | clause taken => rw [taken.declares_nothing.1, taken.declares_nothing.2]
  | declared taken => rw [taken.declarations, Option.toList_some, List.flatMap_singleton]

theorem TakesFurtherParameters.declarations {params : List Param}
    (taken : TakesFurtherParameters ahead script params rest) :
    declarations script = params.map Param.symbol := by
  induction taken with
  | closed => rfl
  | next _ _ _ _ _ _ inductionHypothesis =>
      exact congrArg _ inductionHypothesis

theorem TakesParameters.declarations {params : List Param}
    (taken : TakesParameters ahead script params rest) :
    declarations script = params.map Param.symbol := by
  cases taken with
  | none => rfl
  | some _ _ _ _ others => exact congrArg _ others.declarations

end Parts

theorem declarations_mark (ahead : List Token) : declarations (mark ahead) = [] := by
  cases ahead <;> rfl

/-- A script declares what is declared in the trees that are read along with it. -/
theorem Takes.declarations_perm {construct : Construct} {ahead rest : List Token}
    {script : List Step} {value : construct.Yield}
    (taken : Takes construct ahead script value rest) :
    (declarations script).Perm ((construct.nodes value).flatMap Node.declarations) := by
  induction taken with
  | statement _ inductionHypothesis =>
      rw [declarations_append, declarations_mark]
      exact inductionHypothesis
  | declared taken =>
      exact .of_eq (taken.declarations.trans (List.flatMap_singleton ..).symm)
  | method _ _ _ inductionHypothesis
  | conditional _ inductionHypothesis
  | elseIf _ _ inductionHypothesis => exact inductionHypothesis
  | expression _ _ _ derived => exact .of_eq derived.declares_nothing.symm
  | whileLoop _ _ _ _ guarded _ inductionHypothesis =>
      simpa [Construct.nodes, Item.nodes, Step.symbol?, guarded.declarations_eq_nil]
        using inductionHypothesis
  | forLoop _ _ _ initTaken guardTaken updateTaken _ inductionHypothesis =>
      simpa [Construct.nodes, Item.nodes, Step.symbol?, initTaken.declarations,
        guardTaken.declares_nothing, updateTaken.declares_nothing]
        using inductionHypothesis.append_left _
  | returned _ taken => simp [Construct.nodes, Item.nodes, taken.declares_nothing]
  | closedJump jumps | openJump jumps => cases jumps <;> exact .nil
  | classBody _ _ _ _ _ inductionHypothesis =>
      have regrouped := inductionHypothesis.trans ((Member.nodes_perm _).symm.flatMap_right _)
      simpa [Construct.nodes, Item.nodes, Step.symbol?] using regrouped
  | opened | closed | idle | noElse | bodyEnd | membersEnd => exact .nil
  | arm _ _ _ _ guarded _ _ bodyPerm othersPerm =>
      simpa [Construct.nodes, Step.symbol?, guarded.declarations_eq_nil]
        using bodyPerm.append othersPerm
  | elseBody _ _ _ inductionHypothesis =>
      simpa [Construct.nodes, Step.symbol?] using inductionHypothesis
  | methodRest returnType name namePlace _ _ paramsTaken _ inductionHypothesis =>
      simpa [Construct.nodes, Step.symbol?, declared_type returnType name namePlace,
        paramsTaken.declarations, List.perm_append_left_iff] using inductionHypothesis
  | bodyItem _ _ _ firstPerm othersPerm =>
      simpa [Construct.nodes] using firstPerm.append othersPerm
  | field _ taken _ inductionHypothesis =>
      simpa [Construct.nodes, Member.node, taken.declarations]
        using inductionHypothesis.append_left _
  | typedMethod _ _ _ _ _ methodPerm othersPerm
  | constructor _ _ _ _ methodPerm othersPerm =>
      simpa [Construct.nodes, Member.node] using methodPerm.append othersPerm

theorem TakesProgram.declarations_perm {ahead : List Token} {script : List Step}
    {items : List Item} (taken : TakesProgram ahead script items) :
    (declarations script).Perm ((items.flatMap Item.nodes).flatMap Node.declarations) := by
  induction taken with
  | nil => exact .nil
  | cons first _ inductionHypothesis =>
      rw [declarations_append, List.flatMap_cons, List.flatMap_append]
      exact first.declarations_perm.append inductionHypothesis

end Grammar
end BraceLang
