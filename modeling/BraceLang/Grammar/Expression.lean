import BraceLang.Grammar.Reader
import BraceLang.Node.Text

/-!
# Expressions

```text
expression ::= binary ("=" expression)?
binary     ::= four levels of left-associative operators, loosest first:
               == !=    < <= > >=    + -    * /
unary      ::= ("-" | "!")* stepped
stepped    ::= primary ("++" | "--")*
primary    ::= number | string | "(" expression ")" | chain
chain      ::= identifier ("." identifier | "(" arguments ")")*
arguments  ::= (expression ("," expression)*)?
```

Every operator is read as long as one of its level follows, so a chain of
operators of one level leans to the left. An assignment takes everything to its
right; only a name or a field can be assigned to.

Each reader below takes the reader for the expressions inside it as an argument.
`expressionWithin` closes the circle: an expression of at most `tokens` tokens
holds inner expressions of fewer. When no tokens are left there is no expression,
which is also what `expressionWithin 0` reports.
-/

namespace BraceLang.Grammar

open Reader

/-- The levels of operators between operands. -/
inductive Level where
  | equality
  | relational
  | additive
  | multiplicative
deriving DecidableEq, Repr

namespace Level

/-- All levels, the loosest first. -/
def all : List Level := [.equality, .relational, .additive, .multiplicative]

/-- The operators of a level with their lexemes. -/
def operators : Level → List (Lexeme × BinaryOp)
  | .equality => [(⟨.comparison, "=="⟩, .eq), (⟨.comparison, "!="⟩, .ne)]
  | .relational =>
    [(⟨.comparison, "<"⟩, .lt), (⟨.comparison, "<="⟩, .le), (⟨.comparison, ">"⟩, .gt),
     (⟨.comparison, ">="⟩, .ge)]
  | .additive => [(.op "+", .add), (.op "-", .sub)]
  | .multiplicative => [(.op "*", .mul), (.op "/", .div)]

/-- The operator of a level that a token is, with its place. -/
def operator? (level : Level) (token : Token) : Option (BinaryOp × Location) :=
  (level.operators.lookup token.toLexeme).map (·, token.location)

end Level

/-- The operator in front of an operand that a token is, with its place. -/
def unaryOp? (token : Token) : Option (UnaryOp × Location) :=
  if token.is (.op "-") then some (.negate, token.location)
  else if token.is (.op "!") then some (.invert, token.location)
  else none

/-- The operator behind an operand that a token is, with its place. -/
def stepOp? (token : Token) : Option (StepOp × Location) :=
  if token.is (.op "++") then some (.increment, token.location)
  else if token.is (.op "--") then some (.decrement, token.location)
  else none

/-- What can be attached to a name: a field access or a call. -/
inductive Selector where
  | field (name : String) (location : Location)
  | call (args : List Node) (location : Location)

/-- The node of a selector attached to `object`. -/
def Selector.attach (object : Node) : Selector → Node
  | .field name location => .field object name location
  | .call args location => .call object args location

/-- Whether a node can be assigned to. -/
def isTarget : Node → Bool
  | .reference _ _ => true
  | .field _ _ _ => true
  | _ => false

/-- A comma and the argument behind it. -/
def furtherArgument (inner : Reader Node) : Reader (Option Node) := do
  if (← accept (.op ",")).isSome then
    return some (← inner)
  else
    return none

/-- The arguments of a call, up to its closing parenthesis. -/
def arguments (inner : Reader Node) : Reader (List Node) := do
  if ← at? (.op ")") then
    return []
  else
    let first ← inner
    let further ← repeated (furtherArgument inner)
    return first :: further

/-- A field access or a call, if one follows. -/
def selector (inner : Reader Node) : Reader (Option Selector) := do
  if let some location ← accept (.op ".") then
    let name ← expect .identifier .afterDot
    return some (.field name.text location)
  else if let some location ← accept (.op "(") then
    let args ← arguments inner
    let _ ← expect .closeParen .afterArguments
    return some (.call args location)
  else
    return none

/-- A name with everything attached to it. -/
def chain (inner : Reader Node) : Reader Node := do
  let name ← next
  let selectors ← repeated (selector inner)
  return selectors.foldl Selector.attach (.reference name.text name.location)

/-- A literal, a name with everything attached to it, or an expression in parentheses. -/
def primary (inner : Reader Node) : Reader Node := do
  let token ← peek
  if token.kind = .number then
    skip
    return .number token.text token.location
  else if token.kind = .string then
    skip
    return .string token.text token.location
  else if token.kind = .identifier then
    chain inner
  else if token.is (.op "(") then
    skip
    let node ← inner
    let _ ← expect .closeParen .afterExpression
    return node
  else
    refuse .noExpression

/-- A primary expression and the operators behind it. -/
def stepped (inner : Reader Node) : Reader Node := do
  let operand ← primary inner
  let ops ← run stepOp?
  return ops.foldl (fun node op => .step op.1 node op.2) operand

/-- The operators in front of an operand, and the operand. -/
def unary (inner : Reader Node) : Reader Node := do
  let ops ← run unaryOp?
  let operand ← stepped inner
  return ops.foldr (fun op node => .unary op.1 node op.2) operand

/-- An operator of a level and the operand behind it. -/
structure Tail where
  op : BinaryOp
  location : Location
  right : Node

/-- The node of an operator and right operand behind `left`. -/
def Tail.attach (left : Node) (tail : Tail) : Node :=
  .binary tail.op left tail.right tail.location

/-- An operator of `level` and the operand behind it, if one follows. -/
def operation (level : Level) (operand : Reader Node) : Reader (Option Tail) := do
  match ← take? level.operator? with
  | none => return none
  | some (op, location) =>
    let right ← operand
    return some ⟨op, location, right⟩

/-- Operands with operators of `level` between them. -/
def leveled (level : Level) (operand : Reader Node) : Reader Node := do
  let first ← operand
  let tails ← repeated (operation level operand)
  return tails.foldl Tail.attach first

/-- Operands with operators of any level between them. -/
def binary (inner : Reader Node) : Reader Node :=
  Level.all.foldr leveled (unary inner)

/-- The value behind an equals sign, if one follows. -/
def assigned (inner : Reader Node) (target : Node) : Reader Node := do
  if ← at? (.op "=") then
    if isTarget target then
      let sign ← next
      let value ← inner
      return .assignment target value sign.location
    else
      refuse fun _ => .badTarget target.text
  else
    return target

/-- One layer of an expression, with `inner` for the expressions inside it. -/
def layer (inner : Reader Node) : Reader Node := do
  let target ← binary inner
  assigned inner target

/-- An expression of at most `tokens` tokens. -/
def expressionWithin : (tokens : Nat) → Reader Node
  | 0 => refuse .noExpression
  | tokens + 1 => fun stop ahead => layer (expressionWithin tokens) stop ahead

/-- An expression. -/
def expression : Reader Node := do
  expressionWithin (← remaining)

end BraceLang.Grammar
