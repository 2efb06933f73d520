/-!
# Declared names

A symbol is a name with the type it was declared with and the role it plays.
Symbols are made once, at their declaration, and never change.
-/

namespace BraceLang

/-- The role of a declared name. -/
inductive SymbolKind where
  | global
  | className
  | method
  | parameter
  | variable
deriving DecidableEq, Repr, Inhabited

/-- How a role is shown. -/
def SymbolKind.text : SymbolKind → String
  | .global => "global"
  | .className => "class"
  | .method => "method"
  | .parameter => "parameter"
  | .variable => "variable"

/-- A declared name. -/
structure Symbol where
  name : String
  type : String
  kind : SymbolKind
deriving DecidableEq, Repr, Inhabited

/-- Name, type and role of a symbol on one line. -/
def Symbol.text (symbol : Symbol) : String :=
  symbol.name ++ ": " ++ symbol.type ++ " (" ++ symbol.kind.text ++ ")"

/-- The symbols bound at the root of a program unless others are chosen: the
console, and the two truth values, which have no literals of their own. -/
def standardBuiltins : List Symbol :=
  [⟨"System", "class", .global⟩, ⟨"println", "method", .global⟩,
   ⟨"true", "boolean", .global⟩, ⟨"false", "boolean", .global⟩]

end BraceLang
