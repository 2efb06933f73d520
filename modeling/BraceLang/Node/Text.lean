import BraceLang.Node

/-!
# Writing a tree out

The text of a node names it in diagnostics. Expressions come out in the notation
of the language, with parentheses around every binary operation, so that the
shape of the tree can be read off. Of a statement with a body only the head is
written.
-/

namespace BraceLang.Node

mutual

/-- The text of a node. -/
def text : Node → String
  | .reference name _ => name
  | .number digits _ => digits
  | .string body _ => "\"" ++ body ++ "\""
  | .binary op left right _ => "(" ++ left.text ++ " " ++ op.symbol ++ " " ++ right.text ++ ")"
  | .unary op operand _ => op.symbol ++ operand.text
  | .step op operand _ => operand.text ++ op.symbol
  | .field object name _ => object.text ++ "." ++ name
  | .call callee args _ => callee.text ++ "(" ++ textOfArgs args ++ ")"
  | .assignment target value _ => target.text ++ " = " ++ value.text
  | .variableDecl type name init _ => type ++ " " ++ name ++ textOfInit init ++ ";"
  | .methodDecl _ name _ _ _ => "method " ++ name
  | .classDecl name _ _ _ => "class " ++ name
  | .block statements _ => "\x7b " ++ toString statements.length ++ " statements \x7d"
  | .ifStmt condition _ _ _ => "if (" ++ condition.text ++ ")"
  | .whileStmt condition _ _ => "while (" ++ condition.text ++ ")"
  | .forStmt _ _ _ _ _ => "for"
  | .returnStmt value _ => "return" ++ textOfValue value ++ ";"
  | .breakStmt _ => "break;"
  | .continueStmt _ => "continue;"

/-- The arguments of a call, with a comma between two of them. -/
def textOfArgs : List Node → String
  | [] => ""
  | [arg] => arg.text
  | arg :: next :: args => arg.text ++ ", " ++ textOfArgs (next :: args)

/-- An initial value behind its equals sign, or nothing. -/
def textOfInit : Option Node → String
  | none => ""
  | some init => " = " ++ init.text

/-- A returned value behind a space, or nothing. -/
def textOfValue : Option Node → String
  | none => ""
  | some value => " " ++ value.text

end

end BraceLang.Node
