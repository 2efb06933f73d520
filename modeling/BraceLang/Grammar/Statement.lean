import BraceLang.Grammar.Expression
import BraceLang.Grammar.Scripted

/-!
# Statements and declarations

```text
statement   ::= variable | method | class | if | while | for
              | "return" expression? ";" | ("break" | "continue") ";"? | expression ";"
              | "{" | "}"
variable    ::= type name ("=" expression)? ";"
method      ::= type? name "(" (type name ("," type name)*)? ")" body
class       ::= "class" name "{" (modifier* (variable | method))* "}"
if          ::= "if" "(" expression ")" body ("else" (if | body))?
while       ::= "while" "(" expression ")" body
for         ::= "for" "(" (variable | expression ";" | ";") expression? ";" expression? ")" body
body        ::= "{" statement* "}"
```

A brace where a statement may begin stands alone: it opens or closes a block and
leaves no node. Inside a body the blocks opened that way are counted, and only a
closing brace that finds none of them open ends the body. Any other token that
begins no statement is passed over.

A declaration with a type in front is a method when the token after the name is
an opening parenthesis. In a class the name has to be a name for that; among
statements it is not looked at.

The readers below take the reader for the statements inside them as an argument,
and `statementWithin` closes the circle: a statement of at most `tokens` tokens
holds inner statements of fewer.
-/

namespace BraceLang.Grammar

open Reader Scripted

/-- What a statement leaves behind. -/
inductive Item where
  | node (tree : Node)
  | opened
  | closed
  | nothing

namespace Item

/-- The nodes of an item. -/
def nodes : Item → List Node
  | .node tree => [tree]
  | _ => []

/-- How many lone braces are open after an item when `openBlocks` were before. -/
def openAfter (openBlocks : Nat) : Item → Nat
  | .opened => openBlocks + 1
  | .closed => openBlocks - 1
  | _ => openBlocks

end Item

/-- An expression whose types are to be checked where it stands. -/
def checked : Scripted Node := do
  let node ← expression
  emit (.check node)
  return node

/-- A checked expression, unless the next token has the lexeme `absent`. -/
def optional (absent : Lexeme) : Scripted (Option Node) := do
  if ← at? absent then
    return none
  else
    return some (← checked)

/-- The initial value of a variable, if one follows. -/
def initializer (type name : String) : Scripted (Option Node) := do
  if (← accept (.op "=")).isSome then
    let value ← expression
    emit (.initial name type value)
    return some value
  else
    return none

/-- The declaration of a variable, from its type on. The name is declared before
its initial value is read. -/
def variableDeclaration : Scripted Node := do
  let type ← next
  let name ← expect .identifier .afterType
  emit (.declare ⟨name.text, type.text, .variable⟩ name.location)
  let init ← initializer type.text name.text
  let _ ← expect .semicolon .afterVariableDeclaration
  return .variableDecl type.text name.text init type.location

/-- An expression in the place of a statement. -/
def expressionStatement : Scripted Node := do
  let node ← checked
  let _ ← expect .semicolon .afterExpression
  return node

/-- A return, with or without a value. -/
def returnStatement : Scripted Node := do
  let keyword ← next
  let value ← optional .semicolon
  let _ ← expect .semicolon .afterReturn
  return .returnStmt value keyword.location

/-- A jump of one word. The semicolon behind it may be missing. -/
def jump (node : Location → Node) : Scripted Node := do
  let keyword ← next
  let _ ← accept .semicolon
  return node keyword.location

section Nesting

variable (inner : Scripted Item)

/-- The closing brace of a body in which `openBlocks` lone braces are open. -/
def bodyEnd (body : Body) (openBlocks : Nat) : Scripted (List Node) := do
  let _ ← onFailure (expect .closeBrace (.after body)) (List.replicate openBlocks .closeBlock)
  return []

/-- Whether the statements of a body with `openBlocks` lone braces open are at an end. -/
def endsBody (openBlocks : Nat) : Reader Bool := do
  if ← atEnd then
    return true
  else if openBlocks = 0 then
    at? (.op "\x7d")
  else
    return false

/-- The statements of a body, `openBlocks` lone braces being open, and its closing
brace. A failure closes those braces. -/
def bodyRest (body : Body) : (rounds openBlocks : Nat) → Scripted (List Node)
  | 0, openBlocks => bodyEnd body openBlocks
  | rounds + 1, openBlocks => do
    if ← endsBody openBlocks then
      bodyEnd body openBlocks
    else
      let item ← inner.onFailure (List.replicate openBlocks .closeBlock)
      let rest ← bodyRest body rounds (item.openAfter openBlocks)
      return item.nodes ++ rest

/-- Statements in braces. -/
def body (body : Body) : Scripted (List Node) := do
  let _ ← expect .openBrace (.before body)
  bodyRest inner body (← remaining) 0

/-- A body with a scope of its own. -/
def scopedBody (kind : Body) : Scripted (List Node) :=
  within .block (body inner kind)

/-- A condition in parentheses. -/
def condition (before after : Position) : Scripted Node := do
  let _ ← expect .openParen before
  let node ← checked
  let _ ← expect .closeParen after
  return node

/-- One condition of an `if` with the body it guards. -/
structure Arm where
  condition : Node
  body : List Node
  location : Location

/-- The tree of an arm and what happens otherwise. -/
def Arm.node (arm : Arm) (otherwise : Option (List Node)) : Node :=
  .ifStmt arm.condition arm.body otherwise arm.location

/-- An arm, from its `if` on. -/
def arm : Scripted Arm := do
  let keyword ← next
  let guard ← condition .afterIf .afterIfCondition
  let body ← scopedBody inner .thenBranch
  return ⟨guard, body, keyword.location⟩

/-- An arm behind an `else`, if one follows. -/
def furtherArm : Scripted (Option Arm) := do
  if (← at? (.keyword "else")) && (← sees 1 (·.is (.keyword "if"))) then
    skip
    return some (← arm inner)
  else
    return none

/-- The body behind an `else`, if one follows. -/
def elseBranch : Scripted (Option (List Node)) := do
  if (← accept (.keyword "else")).isSome then
    return some (← scopedBody inner .elseBranch)
  else
    return none

/-- An `if` with all its arms. A further arm is the whole else branch of the arm in
front of it, without a scope between them. -/
def ifStatement : Scripted Node := do
  let first ← arm inner
  let further ← repeated (furtherArm inner)
  let last ← elseBranch inner
  return first.node (further.foldr (fun arm otherwise => some [arm.node otherwise]) last)

/-- A loop with a condition. -/
def whileStatement : Scripted Node := do
  let keyword ← next
  let guard ← condition .afterWhile .afterWhileCondition
  let statements ← scopedBody inner .whileLoop
  return .whileStmt guard statements keyword.location

/-- The first clause of a counting loop, with its semicolon. -/
def forInitializer : Scripted (Option Node) := do
  if (← accept .semicolon).isSome then
    return none
  else if (← peek).kind = .dataType then
    return some (← variableDeclaration)
  else
    let node ← checked
    let _ ← expect .semicolon .afterForInitializer
    return some node

/-- A counting loop. One scope holds its clauses and its body. -/
def forStatement : Scripted Node := do
  let keyword ← next
  let _ ← expect .openParen .afterFor
  within .block do
    let init ← forInitializer
    let guard ← optional .semicolon
    let _ ← expect .semicolon .afterForCondition
    let update ← optional (.op ")")
    let _ ← expect .closeParen .afterForClauses
    let statements ← body inner .forLoop
    return .forStmt init guard update statements keyword.location

/-- A parameter, which is declared in the scope of its method. -/
def parameter : Scripted Param := do
  let type ← expect .dataType .parameterType
  let name ← expect .identifier .parameterName
  emit (.declare ⟨name.text, type.text, .parameter⟩ name.location)
  return ⟨type.text, name.text⟩

/-- A comma and the parameter behind it. -/
def furtherParameter : Scripted (Option Param) := do
  if (← accept (.op ",")).isSome then
    return some (← parameter)
  else
    return none

/-- The parameters of a method, up to the closing parenthesis. -/
def parameters : Scripted (List Param) := do
  if ← at? (.op ")") then
    return []
  else
    let first ← parameter
    let further ← repeated furtherParameter
    return first :: further

/-- A method from its name on. Without a return type it is a constructor, and its
own name is the type of its symbol. -/
def methodRest (returnType : Option Token) : Scripted Node := do
  let name ← expect .identifier .methodName
  let typed := returnType.getD name
  emit (.declare ⟨name.text, typed.text, .method⟩ name.location)
  let _ ← expect .openParen .afterMethodName
  within .methodBody do
    let params ← parameters
    let _ ← expect .closeParen .afterParameters
    let statements ← body inner .method
    return .methodDecl (returnType.map (·.text)) name.text params statements typed.location

/-- A method with a return type. -/
def methodDeclaration : Scripted Node := do
  let type ← next
  methodRest inner (some type)

/-- A member of a class. -/
inductive Member where
  | field (node : Node)
  | method (node : Node)

/-- The node of a field. -/
def Member.field? : Member → Option Node
  | .field node => some node
  | .method _ => none

/-- The node of a method. -/
def Member.method? : Member → Option Node
  | .field _ => none
  | .method node => some node

/-- The words that may stand in front of a member. -/
def modifiers : List String := ["public", "private", "protected", "static"]

/-- The modifier that a token is. -/
def modifier? (token : Token) : Option String :=
  if token.kind = .reserved ∧ token.text ∈ modifiers then some token.text else none

/-- A member with a type in front. -/
def typedMember : Scripted Member := do
  if (← sees 1 (·.kind = .identifier)) && (← sees 2 (·.is (.op "("))) then
    return .method (← methodDeclaration inner)
  else
    return .field (← variableDeclaration)

/-- A member that begins with the name `name` of a method: the constructor of its class. -/
def constructor (className name : String) : Scripted Member := do
  if name = className then
    return .method (← methodRest inner none)
  else
    refuse (α := Member) fun _ => .missingReturnType name className

/-- A member, unless the class is at its end. -/
def member (className : String) : Scripted (Option Member) := do
  if (← atEnd) || (← at? (.op "\x7d")) then
    return none
  else
    let _ ← run modifier?
    let token ← peek
    if token.kind = .dataType then
      return some (← typedMember inner)
    else if token.kind = .identifier && (← sees 1 (·.is (.op "("))) then
      return some (← constructor inner className token.text)
    else
      refuse (.noMember className)

/-- A class. Its name is declared around it, its members inside it. -/
def classDeclaration : Scripted Node := do
  let keyword ← next
  let name ← expect .identifier .afterClass
  emit (.declare ⟨name.text, "class", .className⟩ name.location)
  let _ ← expect .openBrace .afterClassName
  within .classBody do
    let members ← repeated (member inner name.text)
    let _ ← expect .closeBrace .afterClassBody
    return .classDecl name.text (members.filterMap Member.field?)
      (members.filterMap Member.method?) keyword.location

/-- A declaration with a type in front. -/
def declaration : Scripted Node := do
  if ← sees 2 (·.is (.op "(")) then
    methodDeclaration inner
  else
    variableDeclaration

/-- Pass over a token that begins no statement. -/
def passOver : Scripted Item := do
  skip
  return .nothing

/-- A statement that begins with the reserved word `word`. -/
def reservedStatement (word : String) : Scripted Item :=
  match word with
  | "if" => Item.node <$> ifStatement inner
  | "while" => Item.node <$> whileStatement inner
  | "for" => Item.node <$> forStatement inner
  | "return" => Item.node <$> returnStatement
  | "break" => Item.node <$> jump .breakStmt
  | "continue" => Item.node <$> jump .continueStmt
  | "class" => Item.node <$> classDeclaration inner
  | _ => passOver

/-- A brace that stands alone, or another operator, which is passed over. -/
def loneOperator (text : String) : Scripted Item := do
  skip
  match text with
  | "\x7b" =>
    emit .openBlock
    return .opened
  | "\x7d" =>
    emit .closeBlock
    return .closed
  | _ => return .nothing

/-- A statement, with `inner` for the statements inside it. -/
def statement : Scripted Item := do
  let token ← peek
  emit (.statement token.toLexeme (← remaining))
  match token.kind with
  | .dataType => Item.node <$> declaration inner
  | .identifier => Item.node <$> expressionStatement
  | .reserved => reservedStatement inner token.text
  | .operator => loneOperator token.text
  | _ => passOver

end Nesting

/-- A statement of at most `tokens` tokens. -/
def statementWithin : (tokens : Nat) → Scripted Item
  | 0 => pure .nothing
  | tokens + 1 => fun stop ahead => statement (statementWithin tokens) stop ahead

end BraceLang.Grammar
