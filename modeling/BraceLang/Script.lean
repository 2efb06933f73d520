import BraceLang.Node
import BraceLang.Symbol
import BraceLang.Scope.Table
import BraceLang.Token

/-!
# What reading a program asks to be done

Reading decides the form of a program and never looks at what its names mean.
Whatever concerns meaning it writes down as a script: which scopes to open and
close, what to declare, which expressions to check, each at the point of the
reading where it is due. A script is written even by a reading that fails.

Two kinds of scopes are kept apart. A construct opens a scope for its parts and
leaves it when it is complete, or when it fails. A brace that stands alone opens
a block, and the next lone closing brace closes it.
-/

namespace BraceLang

/-- One thing to be done about the meaning of a program. -/
inductive Step where
  /-- A statement begins with this lexeme, the first of `left` still unread. -/
  | statement (lexeme : Lexeme) (left : Nat)
  /-- A construct opens a scope for its parts. -/
  | enter (kind : ScopeKind)
  /-- The construct leaves its scope. -/
  | leave
  /-- An opening brace stands alone. -/
  | openBlock
  /-- A closing brace stands alone, or a failing construct closes what such braces left open. -/
  | closeBlock
  /-- A name is declared; `location` is the place of the name. -/
  | declare (symbol : Symbol) (location : Location)
  /-- An expression stands here for its effect or its value. -/
  | check (expression : Node)
  /-- A variable of a type receives its initial value. -/
  | initial (name type : String) (value : Node)
deriving Inhabited

end BraceLang
