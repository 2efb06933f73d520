import BraceLang.Proofs.Expression.Grammar

/-!
# The grammar of statements

`Takes` is the account of statements and declarations: which tokens at the front
of the tokens ahead a construct takes, which script it writes and what it yields.
Unlike for expressions, how far a construct reaches is part of the account: an
`if` without an else branch is only complete in front of something other than an
`else`, and a jump without a semicolon only in front of something other than a
semicolon. So the tokens behind a construct are an index of the relation.

A body counts the blocks that lone braces have opened in it. Its own closing brace
is the first one that finds none of them open.
-/

namespace BraceLang.Grammar

/-- The step that marks the start of a statement at the first of the tokens ahead. -/
def mark : List Token → List Step
  | [] => []
  | first :: rest => [.statement first.toLexeme (rest.length + 1)]

/-- An expression in front of a closing lexeme, or that lexeme alone. -/
inductive TakesClause (closing : Lexeme) :
    List Token → List Step → Option Node → List Token → Prop where
  | absent (place : Location) (rest : List Token) :
      TakesClause closing (closing.token place :: rest) [] none rest
  | present {used : List Token} {node : Node} (derived : Derives .expression used node)
      (place : Location) (rest : List Token) :
      TakesClause closing (used ++ closing.token place :: rest) [.check node] (some node) rest

/-- The declaration of a variable. Its name is declared before its initial value is checked. -/
inductive TakesVariable : List Token → List Step → Node → List Token → Prop where
  | plain (type name : String) (place namePlace semicolon : Location) (rest : List Token) :
      TakesVariable
        ((Lexeme.type type).token place :: (Lexeme.name name).token namePlace ::
          Lexeme.semicolon.token semicolon :: rest)
        [.declare ⟨name, type, .variable⟩ namePlace] (.variableDecl type name none place) rest
  | initialized (type name : String) (place namePlace sign semicolon : Location)
      {used : List Token} {value : Node} (derived : Derives .expression used value)
      (rest : List Token) :
      TakesVariable
        ((Lexeme.type type).token place :: (Lexeme.name name).token namePlace ::
          (Lexeme.op "=").token sign :: (used ++ Lexeme.semicolon.token semicolon :: rest))
        [.declare ⟨name, type, .variable⟩ namePlace, .initial name type value]
        (.variableDecl type name (some value) place) rest

/-- The first clause of a counting loop, with its semicolon. -/
inductive TakesInitializer : List Token → List Step → Option Node → List Token → Prop where
  | clause {ahead rest : List Token} {script : List Step} {init : Option Node}
      (taken : TakesClause .semicolon ahead script init rest) :
      TakesInitializer ahead script init rest
  | declared {ahead rest : List Token} {script : List Step} {node : Node}
      (taken : TakesVariable ahead script node rest) :
      TakesInitializer ahead script (some node) rest

/-- The parameters behind the first, each with its comma, and the closing parenthesis. -/
inductive TakesFurtherParameters : List Token → List Step → List Param → List Token → Prop where
  | closed (closing : Location) (rest : List Token) :
      TakesFurtherParameters ((Lexeme.op ")").token closing :: rest) [] [] rest
  | next (type name : String) (comma place namePlace : Location) {ahead rest : List Token}
      {script : List Step} {params : List Param}
      (others : TakesFurtherParameters ahead script params rest) :
      TakesFurtherParameters
        ((Lexeme.op ",").token comma :: (Lexeme.type type).token place ::
          (Lexeme.name name).token namePlace :: ahead)
        (.declare ⟨name, type, .parameter⟩ namePlace :: script) (⟨type, name⟩ :: params) rest

/-- The parameters of a method and the closing parenthesis. -/
inductive TakesParameters : List Token → List Step → List Param → List Token → Prop where
  | none (closing : Location) (rest : List Token) :
      TakesParameters ((Lexeme.op ")").token closing :: rest) [] [] rest
  | some (type name : String) (place namePlace : Location) {ahead rest : List Token}
      {script : List Step} {params : List Param}
      (others : TakesFurtherParameters ahead script params rest) :
      TakesParameters
        ((Lexeme.type type).token place :: (Lexeme.name name).token namePlace :: ahead)
        (.declare ⟨name, type, .parameter⟩ namePlace :: script) (⟨type, name⟩ :: params) rest

/-- The statements that are a single word, and their trees. -/
inductive Jumps : String → (Location → Node) → Prop where
  | break : Jumps "break" .breakStmt
  | continue : Jumps "continue" .continueStmt

/-- The lexemes other than names and types that begin a statement. -/
def statementLexemes : List Lexeme :=
  [.keyword "if", .keyword "while", .keyword "for", .keyword "return", .keyword "break",
   .keyword "continue", .keyword "class", .op "\x7b", .op "\x7d"]

/-- Whether a token begins no statement and is passed over where one may begin. -/
def Idle (first : Token) : Prop :=
  first.kind ≠ .dataType ∧ first.kind ≠ .identifier ∧ first.toLexeme ∉ statementLexemes

/-- Whether a token is a modifier of a member. -/
def Modifies (token : Token) : Prop :=
  ∃ word ∈ ["public", "private", "protected", "static"], token.toLexeme = .keyword word

/-- The constructs whose parts may hold statements. -/
inductive Construct where
  | statement
  /-- A statement whose start is already marked. -/
  | marked
  /-- The statements of a body in which lone braces have opened some blocks, and its
  closing brace. -/
  | body (openBlocks : Nat)
  | conditional
  /-- What happens when no condition so far holds. -/
  | otherwise
  /-- A method from its name on. -/
  | method (returnType : Option Token)
  /-- The members of a class and its closing brace. -/
  | members (className : String)

/-- What a construct yields. -/
abbrev Construct.Yield : Construct → Type
  | .statement => Item
  | .marked => Item
  | .body _ => List Node
  | .conditional => Node
  | .otherwise => Option (List Node)
  | .method _ => Node
  | .members _ => List Member

/-- The tokens a construct takes, the script it writes, what it yields, and the
tokens behind it. -/
inductive Takes : (construct : Construct) → List Token → List Step → construct.Yield →
    List Token → Prop where
  | statement {ahead rest : List Token} {script : List Step} {item : Item}
      (taken : Takes .marked ahead script item rest) :
      Takes .statement ahead (mark ahead ++ script) item rest
  | declared {ahead rest : List Token} {script : List Step} {node : Node}
      (taken : TakesVariable ahead script node rest) :
      Takes .marked ahead script (.node node) rest
  | method (type : String) (place : Location) {ahead rest : List Token} {script : List Step}
      {node : Node} (taken : Takes (.method (some ((Lexeme.type type).token place)))
        ahead script node rest) :
      Takes .marked ((Lexeme.type type).token place :: ahead) script (.node node) rest
  | expression (name : String) (place semicolon : Location) {used : List Token} {node : Node}
      (derived : Derives .expression ((Lexeme.name name).token place :: used) node)
      (rest : List Token) :
      Takes .marked
        ((Lexeme.name name).token place :: (used ++ Lexeme.semicolon.token semicolon :: rest))
        [.check node] (.node node) rest
  | conditional {ahead rest : List Token} {script : List Step} {node : Node}
      (taken : Takes .conditional ahead script node rest) :
      Takes .marked ahead script (.node node) rest
  | whileLoop (word opening closing brace : Location) {used ahead rest : List Token}
      {script : List Step} {guard : Node} {nodes : List Node}
      (guarded : Derives .expression used guard) (body : Takes (.body 0) ahead script nodes rest) :
      Takes .marked
        ((Lexeme.keyword "while").token word :: (Lexeme.op "(").token opening ::
          (used ++ (Lexeme.op ")").token closing :: (Lexeme.op "\x7b").token brace :: ahead))
        (.check guard :: .enter .block :: (script ++ [.leave]))
        (.node (.whileStmt guard nodes word)) rest
  | forLoop (word opening brace : Location)
      {ahead afterInit afterGuard inside rest : List Token}
      {initScript guardScript updateScript script : List Step}
      {init guard update : Option Node} {nodes : List Node}
      (initTaken : TakesInitializer ahead initScript init afterInit)
      (guardTaken : TakesClause .semicolon afterInit guardScript guard afterGuard)
      (updateTaken : TakesClause (.op ")") afterGuard updateScript update
        ((Lexeme.op "\x7b").token brace :: inside))
      (body : Takes (.body 0) inside script nodes rest) :
      Takes .marked ((Lexeme.keyword "for").token word :: (Lexeme.op "(").token opening :: ahead)
        (.enter .block ::
          (initScript ++ (guardScript ++ (updateScript ++ (script ++ [.leave])))))
        (.node (.forStmt init guard update nodes word)) rest
  | returned (word : Location) {ahead rest : List Token} {script : List Step}
      {value : Option Node} (taken : TakesClause .semicolon ahead script value rest) :
      Takes .marked ((Lexeme.keyword "return").token word :: ahead) script
        (.node (.returnStmt value word)) rest
  | closedJump {word : String} {node : Location → Node} (jumps : Jumps word node)
      (place semicolon : Location) (rest : List Token) :
      Takes .marked
        ((Lexeme.keyword word).token place :: Lexeme.semicolon.token semicolon :: rest) []
        (.node (node place)) rest
  | openJump {word : String} {node : Location → Node} (jumps : Jumps word node)
      (place : Location) {rest : List Token} (unclosed : ¬ Lexeme.semicolon.Starts rest) :
      Takes .marked ((Lexeme.keyword word).token place :: rest) [] (.node (node place)) rest
  | classBody (name : String) (word namePlace brace : Location) {ahead rest : List Token}
      {script : List Step} {members : List Member}
      (taken : Takes (.members name) ahead script members rest) :
      Takes .marked
        ((Lexeme.keyword "class").token word :: (Lexeme.name name).token namePlace ::
          (Lexeme.op "\x7b").token brace :: ahead)
        (.declare ⟨name, "class", .className⟩ namePlace :: .enter .classBody ::
          (script ++ [.leave]))
        (.node (.classDecl name (members.filterMap Member.field?)
          (members.filterMap Member.method?) word)) rest
  | opened (brace : Location) (rest : List Token) :
      Takes .marked ((Lexeme.op "\x7b").token brace :: rest) [.openBlock] .opened rest
  | closed (brace : Location) (rest : List Token) :
      Takes .marked ((Lexeme.op "\x7d").token brace :: rest) [.closeBlock] .closed rest
  | idle {first : Token} (idle : Idle first) (rest : List Token) :
      Takes .marked (first :: rest) [] .nothing rest
  | arm (word opening closing brace : Location) {used ahead middle rest : List Token}
      {script otherScript : List Step} {guard : Node} {nodes : List Node}
      {other : Option (List Node)} (guarded : Derives .expression used guard)
      (body : Takes (.body 0) ahead script nodes middle)
      (others : Takes .otherwise middle otherScript other rest) :
      Takes .conditional
        ((Lexeme.keyword "if").token word :: (Lexeme.op "(").token opening ::
          (used ++ (Lexeme.op ")").token closing :: (Lexeme.op "\x7b").token brace :: ahead))
        (.check guard :: .enter .block :: (script ++ .leave :: otherScript))
        (.ifStmt guard nodes other word) rest
  | noElse {rest : List Token} (ended : ¬ (Lexeme.keyword "else").Starts rest) :
      Takes .otherwise rest [] none rest
  | elseBody (word brace : Location) {ahead rest : List Token} {script : List Step}
      {nodes : List Node} (body : Takes (.body 0) ahead script nodes rest) :
      Takes .otherwise
        ((Lexeme.keyword "else").token word :: (Lexeme.op "\x7b").token brace :: ahead)
        (.enter .block :: (script ++ [.leave])) (some nodes) rest
  | elseIf (word : Location) {ahead rest : List Token} {script : List Step} {node : Node}
      (taken : Takes .conditional ahead script node rest) :
      Takes .otherwise ((Lexeme.keyword "else").token word :: ahead) script (some [node]) rest
  | methodRest (returnType : Option Token) (name : String) (namePlace opening brace : Location)
      {ahead inside rest : List Token} {paramScript script : List Step} {params : List Param}
      {nodes : List Node}
      (paramsTaken : TakesParameters ahead paramScript params
        ((Lexeme.op "\x7b").token brace :: inside))
      (body : Takes (.body 0) inside script nodes rest) :
      Takes (.method returnType)
        ((Lexeme.name name).token namePlace :: (Lexeme.op "(").token opening :: ahead)
        (.declare ⟨name, (returnType.getD ((Lexeme.name name).token namePlace)).text, .method⟩
          namePlace :: .enter .methodBody :: (paramScript ++ (script ++ [.leave])))
        (.methodDecl (returnType.map (·.text)) name params nodes
          (returnType.getD ((Lexeme.name name).token namePlace)).location) rest
  | bodyEnd (brace : Location) (rest : List Token) :
      Takes (.body 0) ((Lexeme.op "\x7d").token brace :: rest) [] [] rest
  | bodyItem {openBlocks : Nat} {ahead middle rest : List Token} {front back : List Step}
      {item : Item} {nodes : List Node}
      (inside : openBlocks = 0 → ¬ (Lexeme.op "\x7d").Starts ahead)
      (first : Takes .statement ahead front item middle)
      (others : Takes (.body (item.openAfter openBlocks)) middle back nodes rest) :
      Takes (.body openBlocks) ahead (front ++ back) (item.nodes ++ nodes) rest
  | membersEnd (className : String) (brace : Location) (rest : List Token) :
      Takes (.members className) ((Lexeme.op "\x7d").token brace :: rest) [] [] rest
  | field {className : String} {modifiers ahead middle rest : List Token}
      {front back : List Step} {node : Node} {members : List Member}
      (modified : ∀ token ∈ modifiers, Modifies token)
      (taken : TakesVariable ahead front node middle)
      (others : Takes (.members className) middle back members rest) :
      Takes (.members className) (modifiers ++ ahead) (front ++ back) (.field node :: members) rest
  | typedMethod {className : String} (type : String) (place : Location)
      {modifiers ahead middle rest : List Token} {front back : List Step} {node : Node}
      {members : List Member} (modified : ∀ token ∈ modifiers, Modifies token)
      (taken : Takes (.method (some ((Lexeme.type type).token place))) ahead front node middle)
      (others : Takes (.members className) middle back members rest) :
      Takes (.members className) (modifiers ++ (Lexeme.type type).token place :: ahead)
        (front ++ back) (.method node :: members) rest
  | constructor {className : String} (place : Location)
      {modifiers ahead middle rest : List Token} {front back : List Step} {node : Node}
      {members : List Member} (modified : ∀ token ∈ modifiers, Modifies token)
      (taken : Takes (.method none) ((Lexeme.name className).token place :: ahead) front node
        middle)
      (others : Takes (.members className) middle back members rest) :
      Takes (.members className) (modifiers ++ (Lexeme.name className).token place :: ahead)
        (front ++ back) (.method node :: members) rest

/-- A method is declared with its return type, or else with its own name, as its type. -/
theorem declared_type (returnType : Option Token) (name : String) (namePlace : Location) :
    (returnType.map (·.text)).getD name =
      (returnType.getD ((Lexeme.name name).token namePlace)).text := by
  cases returnType <;> rfl

/-- A program takes all tokens, statement by statement. -/
inductive TakesProgram : List Token → List Step → List Item → Prop where
  | nil : TakesProgram [] [] []
  | cons {ahead middle : List Token} {front back : List Step} {item : Item} {items : List Item}
      (first : Takes .statement ahead front item middle)
      (others : TakesProgram middle back items) :
      TakesProgram ahead (front ++ back) (item :: items)

end BraceLang.Grammar
