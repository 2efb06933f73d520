import BraceLang.Proofs.Statement.Grammar
import BraceLang.Proofs.Rendering.Expression

/-!
# Writing statements out as tokens

Statements are written with every else branch in braces, a semicolon behind every jump
and the fields of a class in front of its methods. `isStatement` tells the trees that
reading can build from those that it cannot, so that writing one of the former and
reading it again is the identity.
-/

namespace BraceLang.Node

/-- Whether the tokens of an expression begin with a name. -/
def startsWithName (node : Node) : Bool :=
  node.written.head?.any (·.kind = .identifier)

/-- Whether a tree is the declaration of a variable. -/
def isVariable : Node → Bool
  | .variableDecl _ _ init _ => init.all isExpression
  | _ => false

mutual

/-- Whether a tree is a statement that reading can build. -/
def isStatement : Node → Bool
  | .variableDecl _ _ init _ => init.all isExpression
  | .methodDecl returnType _ _ body _ => returnType.isSome && areStatements body
  | .classDecl name fields methods _ => fields.all isVariable && areMethods name methods
  | .block _ _ => false
  | .ifStmt condition thenBranch elseBranch _ =>
    condition.isExpression && areStatements thenBranch && areElseStatements elseBranch
  | .whileStmt condition body _ => condition.isExpression && areStatements body
  | .forStmt init condition update body _ =>
    init.all (fun node => node.isVariable || node.isExpression) && condition.all isExpression &&
      update.all isExpression && areStatements body
  | .returnStmt value _ => value.all isExpression
  | .breakStmt _ => true
  | .continueStmt _ => true
  | node => node.isExpression && node.startsWithName

/-- Whether all trees are statements. -/
def areStatements : List Node → Bool
  | [] => true
  | node :: nodes => node.isStatement && areStatements nodes

/-- Whether the trees of an else branch, if there is one, are statements. -/
def areElseStatements : Option (List Node) → Bool
  | none => true
  | some nodes => areStatements nodes

/-- Whether all trees are methods of a class. Without a return type a method is a constructor,
and named like the class. -/
def areMethods (className : String) : List Node → Bool
  | [] => true
  | .methodDecl returnType name _ body _ :: methods =>
    (returnType.isSome || name = className) && areStatements body && areMethods className methods
  | _ :: _ => false

end

/-- The tokens of the declaration of a variable. -/
def writtenVariable (type name : String) (init : Option Node) (place : Location) : List Token :=
  (Lexeme.type type).token place :: (Lexeme.name name).token place ::
    match init with
    | none => [Lexeme.semicolon.token place]
    | some value =>
      (Lexeme.op "=").token place :: (value.written ++ [Lexeme.semicolon.token place])

/-- The tokens of a clause with the lexeme that closes it. -/
def writtenClause (closing : Lexeme) (place : Location) : Option Node → List Token
  | none => [closing.token place]
  | some node => node.written ++ [closing.token place]

/-- The tokens of the first clause of a counting loop. -/
def writtenInitializer (place : Location) : Option Node → List Token
  | some (.variableDecl type name init declared) => writtenVariable type name init declared
  | init => writtenClause .semicolon place init

/-- The tokens of parameters with a comma in front of each, and the closing parenthesis. -/
def writtenFurtherParams (place : Location) : List Param → List Token
  | [] => [(Lexeme.op ")").token place]
  | param :: params =>
    (Lexeme.op ",").token place :: (Lexeme.type param.type).token place ::
      (Lexeme.name param.name).token place :: writtenFurtherParams place params

/-- The tokens of parameters with commas between them, and the closing parenthesis. -/
def writtenParams (place : Location) : List Param → List Token
  | [] => [(Lexeme.op ")").token place]
  | param :: params =>
    (Lexeme.type param.type).token place :: (Lexeme.name param.name).token place ::
      writtenFurtherParams place params

/-- Tokens in braces. -/
def braced (place : Location) (tokens : List Token) : List Token :=
  (Lexeme.op "\x7b").token place :: (tokens ++ [(Lexeme.op "\x7d").token place])

mutual

/-- The tokens of a statement. -/
def writtenStatement : Node → List Token
  | .variableDecl type name init place => writtenVariable type name init place
  | .methodDecl returnType name params body place =>
    (returnType.map fun type => (Lexeme.type type).token place).toList ++
      (Lexeme.name name).token place :: (Lexeme.op "(").token place ::
        (writtenParams place params ++ braced place (writtenStatements body))
  | .classDecl name fields methods place =>
    (Lexeme.keyword "class").token place :: (Lexeme.name name).token place ::
      braced place (writtenStatements fields ++ writtenStatements methods)
  | .block statements place => braced place (writtenStatements statements)
  | .ifStmt condition thenBranch elseBranch place =>
    (Lexeme.keyword "if").token place :: (Lexeme.op "(").token place ::
      (condition.written ++ (Lexeme.op ")").token place ::
        (braced place (writtenStatements thenBranch) ++ writtenElse place elseBranch))
  | .whileStmt condition body place =>
    (Lexeme.keyword "while").token place :: (Lexeme.op "(").token place ::
      (condition.written ++ (Lexeme.op ")").token place :: braced place (writtenStatements body))
  | .forStmt init condition update body place =>
    (Lexeme.keyword "for").token place :: (Lexeme.op "(").token place ::
      (writtenInitializer place init ++ writtenClause .semicolon place condition ++
        writtenClause (.op ")") place update ++ braced place (writtenStatements body))
  | .returnStmt value place =>
    (Lexeme.keyword "return").token place :: writtenClause .semicolon place value
  | .breakStmt place => [(Lexeme.keyword "break").token place, Lexeme.semicolon.token place]
  | .continueStmt place =>
    [(Lexeme.keyword "continue").token place, Lexeme.semicolon.token place]
  | node => node.written ++ [Lexeme.semicolon.token node.location]

/-- The tokens of statements one after another. -/
def writtenStatements : List Node → List Token
  | [] => []
  | node :: nodes => node.writtenStatement ++ writtenStatements nodes

/-- The tokens of an else branch, if there is one. -/
def writtenElse (place : Location) : Option (List Node) → List Token
  | none => []
  | some nodes =>
    (Lexeme.keyword "else").token place :: braced place (writtenStatements nodes)

end

end BraceLang.Node
