import BraceLang.Proofs.Analysis
import BraceLang.Proofs.Node.Value

/-!
# The shape of the trees that are read

Every construct yields trees that may stand where it stands, and in which all nodes have such
parts as they may have. Which token a construct begins with decides what it yields: an
expression that is a statement begins with a name, and so is led by one; a method that begins
with its name is one of a class that has that name.
-/

namespace BraceLang

open Node

namespace Grammar

section Parts

variable {ahead rest : List Token} {script : List Step}

theorem TakesClause.isValue {closing : Lexeme} {value : Option Node}
    (taken : TakesClause closing ahead script value rest) :
    ∀ node ∈ value.toList, node.IsValue := by
  cases taken with
  | absent => exact List.forall_mem_nil _
  | present derived => exact derived.isValue_of_mem

theorem TakesVariable.isVariable {node : Node} (taken : TakesVariable ahead script node rest) :
    node.IsVariable := by
  cases taken <;> exact .variableDecl ..

theorem TakesVariable.isValue_of_mem_children {node : Node}
    (taken : TakesVariable ahead script node rest) : ∀ child ∈ node.children, child.IsValue := by
  cases taken with
  | plain => exact List.forall_mem_nil _
  | initialized _ _ _ _ _ _ derived => exact derived.isValue_of_mem

theorem TakesVariable.fits {node : Node} (taken : TakesVariable ahead script node rest) :
    node.FitsThroughout := by
  have values := taken.isValue_of_mem_children
  refine .of_children ?_ fun child member => (values child member).fitsThroughout
  cases taken <;> exact fun value given => (values value (Option.mem_toList.mpr given)).hasValue

theorem TakesInitializer.fits {init : Option Node}
    (taken : TakesInitializer ahead script init rest) :
    ∀ node ∈ init.toList, (node.hasValue = true ∨ node.IsVariable) ∧ node.FitsThroughout := by
  cases taken with
  | clause taken =>
      exact fun node member =>
        have value := taken.isValue node member
        ⟨.inl value.hasValue, value.fitsThroughout⟩
  | declared taken => exact List.forall_mem_singleton.mpr ⟨.inr taken.isVariable, taken.fits⟩

theorem Takes.isTyped {returnType : Token} {node : Node}
    (taken : Takes (.method (some returnType)) ahead script node rest) : node.IsTyped := by
  cases taken
  exact .methodDecl ..

/-- A method that begins with its name is named by the token at its beginning. -/
theorem Takes.isConstructorOf {className : String} {place : Location} {node : Node}
    (taken : Takes (.method none) ((Lexeme.name className).token place :: ahead) script node
      rest) : node.IsConstructorOf className := by
  cases taken
  exact .methodDecl ..

end Parts

/-- Whether a member of a class is a variable, with at most expressions below it, or a method of
the class. -/
def Member.IsOf (className : String) : Member → Prop
  | .field node => node.IsVariable ∧ ∀ child ∈ node.children, child.IsValue
  | .method node => node.IsTyped ∨ node.IsConstructorOf className

theorem Member.fits_classDecl {className : String} {all : List Member}
    (members : ∀ member ∈ all, member.IsOf className) (location : Location) :
    (Node.classDecl className (all.filterMap Member.field?) (all.filterMap Member.method?)
      location).Fits := by
  constructor
  · intro node member
    obtain ⟨_ | _, among, found⟩ := List.mem_filterMap.mp member
    · cases found
      exact (members _ among).1
    · cases found
  · intro node member
    obtain ⟨_ | _, among, found⟩ := List.mem_filterMap.mp member
    · cases found
    · cases found
      exact members _ among

/-- Whether what a construct yields may stand where the construct does. -/
def Construct.Stands : (construct : Construct) → construct.Yield → Prop
  | .members className, all => ∀ member ∈ all, member.IsOf className
  | .method _, _ => True
  | .statement, item => ∀ node ∈ item.nodes, node.Stands
  | .marked, item => ∀ node ∈ item.nodes, node.Stands
  | .body _, nodes => ∀ node ∈ nodes, node.Stands
  | .conditional, node => node.Stands
  | .otherwise, nodes => ∀ node ∈ nodes.getD [], node.Stands

theorem Takes.stands {construct : Construct} {ahead rest : List Token} {script : List Step}
    {value : construct.Yield} (taken : Takes construct ahead script value rest) :
    construct.Stands value := by
  induction taken with
  | statement _ inductionHypothesis => exact inductionHypothesis
  | declared taken =>
      exact List.forall_mem_singleton.mpr taken.isVariable.stands
  | method _ _ taken => exact List.forall_mem_singleton.mpr taken.isTyped.stands
  | expression name place _ derived =>
      have led : LedByName _ := derived.ledByName ⟨_, rfl, rfl⟩
      exact List.forall_mem_singleton.mpr led.stands
  | conditional _ inductionHypothesis
  | elseIf _ _ inductionHypothesis => exact List.forall_mem_singleton.mpr inductionHypothesis
  | whileLoop | forLoop | returned | classBody =>
      exact List.forall_mem_singleton.mpr fun value => absurd value Bool.false_ne_true
  | closedJump jumps | openJump jumps =>
      cases jumps <;>
        exact List.forall_mem_singleton.mpr fun value => absurd value Bool.false_ne_true
  | opened | closed | idle | noElse | bodyEnd | membersEnd => exact List.forall_mem_nil _
  | arm => exact fun value => absurd value Bool.false_ne_true
  | elseBody _ _ _ inductionHypothesis => exact inductionHypothesis
  | methodRest => trivial
  | bodyItem _ _ _ firstStands othersStand =>
      exact List.forall_mem_append.mpr ⟨firstStands, othersStand⟩
  | field _ taken _ inductionHypothesis =>
      exact List.forall_mem_cons.mpr
        ⟨⟨taken.isVariable, taken.isValue_of_mem_children⟩, inductionHypothesis⟩
  | typedMethod _ _ _ taken _ _ othersOf =>
      exact List.forall_mem_cons.mpr ⟨.inl taken.isTyped, othersOf⟩
  | constructor _ _ taken _ _ othersOf =>
      exact List.forall_mem_cons.mpr ⟨.inr taken.isConstructorOf, othersOf⟩

/-- All nodes of what a construct yields have such parts as they may have. -/
theorem Takes.fits {construct : Construct} {ahead rest : List Token} {script : List Step}
    {value : construct.Yield} (taken : Takes construct ahead script value rest) :
    ∀ node ∈ construct.nodes value, node.FitsThroughout := by
  induction taken with
  | statement _ inductionHypothesis
  | method _ _ _ inductionHypothesis
  | conditional _ inductionHypothesis
  | elseIf _ _ inductionHypothesis
  | elseBody _ _ _ inductionHypothesis => exact inductionHypothesis
  | declared taken => exact List.forall_mem_singleton.mpr taken.fits
  | expression _ _ _ derived => exact List.forall_mem_singleton.mpr derived.isValue.fitsThroughout
  | whileLoop _ _ _ _ guarded body bodyFits =>
      have guard := guarded.isValue
      exact List.forall_mem_singleton.mpr (.of_children ⟨guard.hasValue, body.stands⟩
        (List.forall_mem_cons.mpr ⟨guard.fitsThroughout, bodyFits⟩))
  | forLoop _ _ _ initTaken guardTaken updateTaken body bodyFits =>
      have guard := guardTaken.isValue
      have update := updateTaken.isValue
      refine List.forall_mem_singleton.mpr (.of_children
        ⟨fun node given => (initTaken.fits node (Option.mem_toList.mpr given)).1,
          fun node given => (guard node (Option.mem_toList.mpr given)).hasValue,
          fun node given => (update node (Option.mem_toList.mpr given)).hasValue, body.stands⟩ ?_)
      simp only [children, List.forall_mem_append]
      exact ⟨fun node member => (initTaken.fits node member).2,
        fun node member => (guard node member).fitsThroughout,
        fun node member => (update node member).fitsThroughout, bodyFits⟩
  | returned _ taken =>
      have value := taken.isValue
      exact List.forall_mem_singleton.mpr (.of_children
        (fun node given => (value node (Option.mem_toList.mpr given)).hasValue)
        fun node member => (value node member).fitsThroughout)
  | closedJump jumps | openJump jumps =>
      cases jumps <;> exact List.forall_mem_singleton.mpr (.of_children trivial (List.forall_mem_nil _))
  | @classBody name _ _ _ _ _ _ members taken membersFit =>
      -- A class keeps its fields in front of its methods, but they are the same members.
      have regrouped : ∀ node ∈
          members.filterMap Member.field? ++ members.filterMap Member.method?,
          node.FitsThroughout := fun node member =>
        membersFit node ((Member.nodes_perm members).mem_iff.mp member)
      exact List.forall_mem_singleton.mpr (.of_children (Member.fits_classDecl taken.stands _)
        regrouped)
  | opened | closed | idle | noElse | bodyEnd | membersEnd => exact List.forall_mem_nil _
  | arm _ _ _ _ guarded body others bodyFits othersFit =>
      have guard := guarded.isValue
      exact List.forall_mem_singleton.mpr (.of_children
        ⟨guard.hasValue, body.stands, others.stands⟩
        (List.forall_mem_cons.mpr
          ⟨guard.fitsThroughout, List.forall_mem_append.mpr ⟨bodyFits, othersFit⟩⟩))
  | methodRest _ _ _ _ _ _ body bodyFits =>
      exact List.forall_mem_singleton.mpr (.of_children body.stands bodyFits)
  | bodyItem _ _ _ firstFits othersFit =>
      exact List.forall_mem_append.mpr ⟨firstFits, othersFit⟩
  | field _ taken _ inductionHypothesis =>
      exact List.forall_mem_cons.mpr ⟨taken.fits, inductionHypothesis⟩
  | typedMethod _ _ _ _ _ methodFits othersFit
  | constructor _ _ _ _ methodFits othersFit =>
      exact List.forall_mem_cons.mpr ⟨List.forall_mem_singleton.mp methodFits, othersFit⟩

theorem TakesProgram.fits {ahead : List Token} {script : List Step} {items : List Item}
    (taken : TakesProgram ahead script items) (place : Location) :
    (Node.block (items.flatMap Item.nodes) place).FitsThroughout := by
  have parts : ∀ node ∈ items.flatMap Item.nodes, node.Stands ∧ node.FitsThroughout := by
    induction taken with
    | nil => exact List.forall_mem_nil _
    | cons first _ inductionHypothesis =>
        rw [List.flatMap_cons]
        exact List.forall_mem_append.mpr
          ⟨fun node member => ⟨first.stands node member, first.fits node member⟩,
            inductionHypothesis⟩
  exact .of_children (fun node member => (parts node member).1)
    fun node member => (parts node member).2

end Grammar

/-- The expression that a step has typed. -/
def Step.typed? : Step → Option Node
  | .check expression => some expression
  | .initial _ _ value => some value
  | _ => none

namespace Grammar

/-- Whether a script has only expressions typed. -/
def TypesValues (script : List Step) : Prop :=
  ∀ step ∈ script, ∀ expression ∈ step.typed?, expression.IsValue

section Scripts

variable {ahead rest : List Token} {front back script : List Step}

theorem TypesValues.nil : TypesValues [] := List.forall_mem_nil _

theorem TypesValues.append (first : TypesValues front) (second : TypesValues back) :
    TypesValues (front ++ back) :=
  List.forall_mem_append.mpr ⟨first, second⟩

theorem TypesValues.cons_of_none {step : Step} (silent : step.typed? = none)
    (others : TypesValues script) : TypesValues (step :: script) := by
  refine List.forall_mem_cons.mpr ⟨fun expression typed => ?_, others⟩
  rw [silent] at typed
  cases typed

theorem TypesValues.check {node : Node} (value : node.IsValue) (others : TypesValues script) :
    TypesValues (.check node :: script) := by
  refine List.forall_mem_cons.mpr ⟨fun expression typed => ?_, others⟩
  cases typed
  exact value

theorem TakesClause.typesValues {closing : Lexeme} {value : Option Node}
    (taken : TakesClause closing ahead script value rest) : TypesValues script := by
  cases taken with
  | absent => exact .nil
  | present derived => exact .check derived.isValue .nil

theorem TakesVariable.typesValues {node : Node} (taken : TakesVariable ahead script node rest) :
    TypesValues script := by
  cases taken with
  | plain => exact .cons_of_none rfl .nil
  | initialized _ _ _ _ _ _ derived =>
      refine .cons_of_none rfl (List.forall_mem_singleton.mpr fun expression typed => ?_)
      cases typed
      exact derived.isValue

theorem TakesInitializer.typesValues {init : Option Node}
    (taken : TakesInitializer ahead script init rest) : TypesValues script := by
  cases taken with
  | clause taken => exact taken.typesValues
  | declared taken => exact taken.typesValues

theorem TakesFurtherParameters.typesValues {params : List Param}
    (taken : TakesFurtherParameters ahead script params rest) : TypesValues script := by
  induction taken with
  | closed => exact .nil
  | next _ _ _ _ _ _ inductionHypothesis => exact .cons_of_none rfl inductionHypothesis

theorem TakesParameters.typesValues {params : List Param}
    (taken : TakesParameters ahead script params rest) : TypesValues script := by
  cases taken with
  | none => exact .nil
  | some _ _ _ _ others => exact .cons_of_none rfl others.typesValues

theorem typesValues_mark (ahead : List Token) : TypesValues (mark ahead) := by
  cases ahead with
  | nil => exact .nil
  | cons => exact .cons_of_none rfl .nil

end Scripts

/-- What a script has typed is an expression through and through. -/
theorem Takes.typesValues {construct : Construct} {ahead rest : List Token} {script : List Step}
    {value : construct.Yield} (taken : Takes construct ahead script value rest) :
    TypesValues script := by
  induction taken with
  | statement _ inductionHypothesis => exact (typesValues_mark _).append inductionHypothesis
  | declared taken => exact taken.typesValues
  | method _ _ _ inductionHypothesis
  | conditional _ inductionHypothesis
  | elseIf _ _ inductionHypothesis => exact inductionHypothesis
  | expression _ _ _ derived => exact .check derived.isValue .nil
  | whileLoop _ _ _ _ guarded _ inductionHypothesis =>
      exact .check guarded.isValue (.cons_of_none rfl
        (inductionHypothesis.append (.cons_of_none rfl .nil)))
  | forLoop _ _ _ initTaken guardTaken updateTaken _ inductionHypothesis =>
      exact .cons_of_none rfl (initTaken.typesValues.append (guardTaken.typesValues.append
        (updateTaken.typesValues.append (inductionHypothesis.append (.cons_of_none rfl .nil)))))
  | returned _ taken => exact taken.typesValues
  | closedJump | openJump | idle | noElse | bodyEnd | membersEnd => exact .nil
  | classBody _ _ _ _ _ inductionHypothesis =>
      exact .cons_of_none rfl (.cons_of_none rfl
        (inductionHypothesis.append (.cons_of_none rfl .nil)))
  | opened | closed => exact .cons_of_none rfl .nil
  | arm _ _ _ _ guarded _ _ bodyValues othersValues =>
      exact .check guarded.isValue (.cons_of_none rfl
        (bodyValues.append (.cons_of_none rfl othersValues)))
  | elseBody _ _ _ inductionHypothesis =>
      exact .cons_of_none rfl (inductionHypothesis.append (.cons_of_none rfl .nil))
  | methodRest _ _ _ _ _ paramsTaken _ inductionHypothesis =>
      exact .cons_of_none rfl (.cons_of_none rfl (paramsTaken.typesValues.append
        (inductionHypothesis.append (.cons_of_none rfl .nil))))
  | bodyItem _ _ _ firstValues othersValues
  | typedMethod _ _ _ _ _ firstValues othersValues
  | constructor _ _ _ _ firstValues othersValues => exact firstValues.append othersValues
  | field _ taken _ inductionHypothesis => exact taken.typesValues.append inductionHypothesis

theorem TakesProgram.typesValues {ahead : List Token} {script : List Step} {items : List Item}
    (taken : TakesProgram ahead script items) : TypesValues script := by
  induction taken with
  | nil => exact .nil
  | cons first _ inductionHypothesis => exact first.typesValues.append inductionHypothesis

end Grammar

/-- The tree of a program is a block with no other one below it, and all its nodes have such
parts as they may have. Typing the expressions that are checked along with the reading never
comes to a tree without a value. -/
theorem program_well_shaped {builtins : List Symbol} {tokens : List Token} {analysis : Analysis}
    (analyzed : analyzeTokens builtins tokens = .ok analysis) :
    (∃ statements location, analysis.program = .block statements location) ∧
    (∀ statements location, .block statements location ∉ analysis.program.descendants) ∧
    (∀ node ∈ analysis.program.preorder, node.Fits) ∧
    ∀ step ∈ (Reading.ofTokens tokens).script, ∀ expression ∈ step.typed?, ∀ declared,
      expression.typing? declared = some (expression.typing declared) := by
  obtain ⟨script, items, taken, rfl⟩ := analyzeTokens_eq_ok_iff.mp analyzed
  have fits : ((Input.ofTokens tokens).program items).FitsThroughout := taken.fits _
  refine ⟨⟨_, _, rfl⟩, fun statements location below => ?_, fits, fun step member => ?_⟩
  · obtain ⟨parent, among, inside⟩ := Node.exists_parent below
    exact (fits parent among).ne_block statements location inside
  · rw [Reading.script_ofTokens taken] at member
    exact fun expression typed =>
      (taken.typesValues step member expression typed).typing?_eq

/-- A field behind a constructor that assigns to a field of what a call of a call returns, and
a loop whose first clause declares a variable and whose body opens a block. -/
theorem program_well_shaped_nested :
    let tokens := [Lexeme.keyword "class", .name "A", .op "\x7b", .name "A", .op "(", .op ")",
      .op "\x7b", .name "f", .op "(", ⟨.number, "1"⟩, .op ")", .op "(", .name "x", .op ")",
      .op ".", .name "y", .op "=", .op "-", .op "(", .name "a", .op "+", ⟨.number, "2"⟩, .op ")",
      .semicolon, .op "\x7d", .type "int", .name "x", .semicolon, .op "\x7d", .keyword "for",
      .op "(", .type "int", .name "i", .op "=", ⟨.number, "0"⟩, .semicolon, .semicolon,
      .name "i", .op "++", .op ")", .op "\x7b", .op "\x7b", .name "i", .op "--", .semicolon,
      .op "\x7d", .op "\x7d", .endOfInput].map (·.token .start)
    ∃ analysis, analyzeTokens standardBuiltins tokens = .ok analysis ∧
      analysis.program.preorder.length = 22 ∧
      (∀ statements location, .block statements location ∉ analysis.program.descendants) ∧
      ∀ node ∈ analysis.program.preorder, node.Fits := by
  intro tokens
  obtain ⟨analysis, analyzed⟩ : ∃ analysis, analyzeTokens standardBuiltins tokens = .ok analysis :=
    ⟨_, rfl⟩
  have nodes : analysis.program.preorder.length = 22 := by
    cases analyzed
    decide
  obtain ⟨-, alone, fits, -⟩ := program_well_shaped analyzed
  exact ⟨analysis, analyzed, nodes, alone, fits⟩

end BraceLang
