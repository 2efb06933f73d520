import BraceLang.Proofs.Reading

/-!
# The grammar of expressions

`Derives` is the authoritative account of expressions. It is stated without any
reader: each rule says which tokens make up a phrase and which tree they stand
for. Operators of one level lean to the left because their rule recurs on the
left, assignments and operators in front of an operand lean to the right because
theirs recur on the right. Parentheses leave no node, and every node of an
operator, a call, a field access or an assignment is placed at the token that
gave rise to it.

The rules are ambiguous nowhere, but they do not say how far a phrase reaches:
`continuations` lists the lexemes with which an expression may go on.
-/

namespace BraceLang.Grammar

/-- The phrases that expressions are made of. -/
inductive Phrase where
  | expression
  /-- Operands with operators of the given levels between them, loosest first. -/
  | operation (levels : List Level)
  | unary
  | stepped
  | primary
  | chain
  | arguments
  /-- Arguments behind the first, each with its comma. -/
  | furtherArguments

/-- What a phrase stands for: a tree, or a list of trees for arguments. -/
abbrev Phrase.Tree : Phrase → Type
  | .expression => Node
  | .operation _ => Node
  | .unary => Node
  | .stepped => Node
  | .primary => Node
  | .chain => Node
  | .arguments => List Node
  | .furtherArguments => List Node

/-- The operators between operands, each with its level and its lexeme. -/
inductive Joins : Level → Lexeme → BinaryOp → Prop where
  | eq : Joins .equality ⟨.comparison, "=="⟩ .eq
  | ne : Joins .equality ⟨.comparison, "!="⟩ .ne
  | lt : Joins .relational ⟨.comparison, "<"⟩ .lt
  | le : Joins .relational ⟨.comparison, "<="⟩ .le
  | gt : Joins .relational ⟨.comparison, ">"⟩ .gt
  | ge : Joins .relational ⟨.comparison, ">="⟩ .ge
  | add : Joins .additive ⟨.operator, "+"⟩ .add
  | sub : Joins .additive ⟨.operator, "-"⟩ .sub
  | mul : Joins .multiplicative ⟨.operator, "*"⟩ .mul
  | div : Joins .multiplicative ⟨.operator, "/"⟩ .div

/-- The trees that can be assigned to. -/
inductive Assignable : Node → Prop where
  | reference (name : String) (location : Location) : Assignable (.reference name location)
  | field (object : Node) (name : String) (location : Location) :
      Assignable (.field object name location)

/-- The tokens of a phrase and the tree they stand for. -/
inductive Derives : (phrase : Phrase) → List Token → phrase.Tree → Prop where
  | operation {used : List Token} {node : Node}
      (whole : Derives (.operation [.equality, .relational, .additive, .multiplicative]) used
        node) :
      Derives .expression used node
  | assignment {left right : List Token} {target value : Node} (sign : Location)
      (assigned : Derives (.operation [.equality, .relational, .additive, .multiplicative])
        left target)
      (assignable : Assignable target) (given : Derives .expression right value) :
      Derives .expression (left ++ (Lexeme.op "=").token sign :: right)
        (.assignment target value sign)
  | operand {level : Level} {levels : List Level} {used : List Token} {node : Node}
      (single : Derives (.operation levels) used node) :
      Derives (.operation (level :: levels)) used node
  | joined {level : Level} {levels : List Level} {left right : List Token} {lexeme : Lexeme}
      {op : BinaryOp} {front back : Node} (sign : Location) (joins : Joins level lexeme op)
      (leaning : Derives (.operation (level :: levels)) left front)
      (last : Derives (.operation levels) right back) :
      Derives (.operation (level :: levels)) (left ++ lexeme.token sign :: right)
        (.binary op front back sign)
  | innermost {used : List Token} {node : Node} (single : Derives .unary used node) :
      Derives (.operation []) used node
  | negated {used : List Token} {node : Node} (sign : Location)
      (operand : Derives .unary used node) :
      Derives .unary ((Lexeme.op "-").token sign :: used) (.unary .negate node sign)
  | inverted {used : List Token} {node : Node} (sign : Location)
      (operand : Derives .unary used node) :
      Derives .unary ((Lexeme.op "!").token sign :: used) (.unary .invert node sign)
  | unsigned {used : List Token} {node : Node} (single : Derives .stepped used node) :
      Derives .unary used node
  | incremented {used : List Token} {node : Node} (sign : Location)
      (operand : Derives .stepped used node) :
      Derives .stepped (used ++ [(Lexeme.op "++").token sign]) (.step .increment node sign)
  | decremented {used : List Token} {node : Node} (sign : Location)
      (operand : Derives .stepped used node) :
      Derives .stepped (used ++ [(Lexeme.op "--").token sign]) (.step .decrement node sign)
  | unstepped {used : List Token} {node : Node} (single : Derives .primary used node) :
      Derives .stepped used node
  | number (digits : String) (location : Location) :
      Derives .primary [(Lexeme.mk .number digits).token location] (.number digits location)
  | string (body : String) (location : Location) :
      Derives .primary [(Lexeme.mk .string body).token location] (.string body location)
  | parenthesized {used : List Token} {node : Node} (opening closing : Location)
      (inside : Derives .expression used node) :
      Derives .primary
        ((Lexeme.op "(").token opening :: (used ++ [(Lexeme.op ")").token closing])) node
  | chained {used : List Token} {node : Node} (single : Derives .chain used node) :
      Derives .primary used node
  | name (text : String) (location : Location) :
      Derives .chain [(Lexeme.name text).token location] (.reference text location)
  | field {used : List Token} {object : Node} (point : Location) (name : String)
      (location : Location) (base : Derives .chain used object) :
      Derives .chain (used ++ [(Lexeme.op ".").token point, (Lexeme.name name).token location])
        (.field object name point)
  | call {used inside : List Token} {callee : Node} {args : List Node}
      (opening closing : Location) (base : Derives .chain used callee)
      (given : Derives .arguments inside args) :
      Derives .chain (used ++
        (Lexeme.op "(").token opening :: (inside ++ [(Lexeme.op ")").token closing]))
        (.call callee args opening)
  | noArguments : Derives .arguments [] []
  | arguments {used further : List Token} {arg : Node} {args : List Node}
      (first : Derives .expression used arg) (others : Derives .furtherArguments further args) :
      Derives .arguments (used ++ further) (arg :: args)
  | noFurtherArguments : Derives .furtherArguments [] []
  | furtherArguments {used further : List Token} {arg : Node} {args : List Node}
      (comma : Location) (next : Derives .expression used arg)
      (others : Derives .furtherArguments further args) :
      Derives .furtherArguments ((Lexeme.op ",").token comma :: (used ++ further)) (arg :: args)

/-- The lexemes with which an expression may go on. -/
def continuations : List Lexeme :=
  [.op "=", ⟨.comparison, "=="⟩, ⟨.comparison, "!="⟩, ⟨.comparison, "<"⟩, ⟨.comparison, "<="⟩,
   ⟨.comparison, ">"⟩, ⟨.comparison, ">="⟩, .op "+", .op "-", .op "*", .op "/", .op "++",
   .op "--", .op ".", .op "("]

end BraceLang.Grammar
