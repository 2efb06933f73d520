import BraceLang.Location

/-!
# Program trees

One type holds declarations, statements and expressions. The grammar puts only
some of them in each position; that restriction is a property of the trees it
builds, not of the type, so that a tree of any shape can be written out and
checked.

Parentheses leave no node, and blocks that stand alone leave none either: the
only block the grammar builds is the whole program.
-/

namespace BraceLang

/-- The operators between two operands. -/
inductive BinaryOp where
  | add
  | sub
  | mul
  | div
  | eq
  | ne
  | lt
  | le
  | gt
  | ge
deriving DecidableEq, Repr, Inhabited

/-- How an operator is written. -/
def BinaryOp.symbol : BinaryOp → String
  | .add => "+"
  | .sub => "-"
  | .mul => "*"
  | .div => "/"
  | .eq => "=="
  | .ne => "!="
  | .lt => "<"
  | .le => "<="
  | .gt => ">"
  | .ge => ">="

/-- The operators in front of their operand. -/
inductive UnaryOp where
  | negate
  | invert
deriving DecidableEq, Repr, Inhabited

/-- How an operator in front of its operand is written. -/
def UnaryOp.symbol : UnaryOp → String
  | .negate => "-"
  | .invert => "!"

/-- The operators behind their operand. -/
inductive StepOp where
  | increment
  | decrement
deriving DecidableEq, Repr, Inhabited

/-- How an operator behind its operand is written. -/
def StepOp.symbol : StepOp → String
  | .increment => "++"
  | .decrement => "--"

/-- A parameter of a method. -/
structure Param where
  type : String
  name : String
deriving DecidableEq, Repr, Inhabited

/-- A node of a program tree. The last field of each is its place in the text. -/
inductive Node where
  | variableDecl (type name : String) (init : Option Node) (location : Location)
  /-- A declaration without a return type is a constructor. -/
  | methodDecl (returnType : Option String) (name : String) (params : List Param)
      (body : List Node) (location : Location)
  | classDecl (name : String) (fields methods : List Node) (location : Location)
  | block (statements : List Node) (location : Location)
  /-- An absent else branch and an empty one are different trees. -/
  | ifStmt (condition : Node) (thenBranch : List Node) (elseBranch : Option (List Node))
      (location : Location)
  | whileStmt (condition : Node) (body : List Node) (location : Location)
  | forStmt (init condition update : Option Node) (body : List Node) (location : Location)
  | returnStmt (value : Option Node) (location : Location)
  | breakStmt (location : Location)
  | continueStmt (location : Location)
  | assignment (target value : Node) (location : Location)
  | binary (op : BinaryOp) (left right : Node) (location : Location)
  | unary (op : UnaryOp) (operand : Node) (location : Location)
  | step (op : StepOp) (operand : Node) (location : Location)
  | call (callee : Node) (args : List Node) (location : Location)
  | field (object : Node) (name : String) (location : Location)
  | reference (name : String) (location : Location)
  | number (text : String) (location : Location)
  | string (text : String) (location : Location)
deriving Inhabited

namespace Node

/-- The place of a node. Operators, calls and field accesses stand at their
operator, parenthesis or point; all else stands at its first token. -/
def location : Node → Location
  | .variableDecl _ _ _ location
  | .methodDecl _ _ _ _ location
  | .classDecl _ _ _ location
  | .block _ location
  | .ifStmt _ _ _ location
  | .whileStmt _ _ location
  | .forStmt _ _ _ _ location
  | .returnStmt _ location
  | .breakStmt location
  | .continueStmt location
  | .assignment _ _ location
  | .binary _ _ _ location
  | .unary _ _ location
  | .step _ _ location
  | .call _ _ location
  | .field _ _ location
  | .reference _ location
  | .number _ location
  | .string _ location => location

/-- The statements of a block; no other node owns any. -/
def statements : Node → List Node
  | .block statements _ => statements
  | _ => []

end Node

end BraceLang
