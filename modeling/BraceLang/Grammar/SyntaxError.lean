import BraceLang.Token

/-!
# Why a reading stops

A violation of form ends the reading at once. Its cause says what was wanted
where and what stood there instead; the wording of every cause is fixed here and
nowhere else. Causes hold no places: how a program is laid out changes where an
error is reported, not what it says.
-/

namespace BraceLang

/-- What the grammar may insist on. -/
inductive Wanted where
  | openParen
  | closeParen
  | openBrace
  | closeBrace
  | semicolon
  | identifier
  | dataType
deriving DecidableEq, Repr

namespace Wanted

/-- Whether a token is what is wanted. -/
def admits (wanted : Wanted) (token : Token) : Bool :=
  match wanted with
  | .openParen => token.is (.op "(")
  | .closeParen => token.is (.op ")")
  | .openBrace => token.is (.op "\x7b")
  | .closeBrace => token.is (.op "\x7d")
  | .semicolon => token.is .semicolon
  | .identifier => token.kind = .identifier
  | .dataType => token.kind = .dataType

/-- How a wanted token is named. -/
def text : Wanted → String
  | .openParen => "'('"
  | .closeParen => "')'"
  | .openBrace => "'\x7b'"
  | .closeBrace => "'\x7d'"
  | .semicolon => "';'"
  | .identifier => "identifier"
  | .dataType => "type"

end Wanted

/-- The constructs with a body of statements. -/
inductive Body where
  | thenBranch
  | elseBranch
  | whileLoop
  | forLoop
  | method
deriving DecidableEq, Repr

/-- How a body is named. -/
def Body.text : Body → String
  | .thenBranch => "if body"
  | .elseBranch => "else body"
  | .whileLoop => "while body"
  | .forLoop => "for body"
  | .method => "method body"

/-- The positions in which the grammar insists on a particular token. -/
inductive Position where
  | afterIf
  | afterIfCondition
  | afterWhile
  | afterWhileCondition
  | afterFor
  | afterForInitializer
  | afterForCondition
  | afterForClauses
  | afterReturn
  | afterExpression
  | afterArguments
  | afterDot
  | afterType
  | afterVariableDeclaration
  | methodName
  | afterMethodName
  | parameterType
  | parameterName
  | afterParameters
  | afterClass
  | afterClassName
  | afterClassBody
  | before (body : Body)
  | after (body : Body)
deriving DecidableEq, Repr

/-- How a position is described. -/
def Position.text : Position → String
  | .afterIf => "after 'if'"
  | .afterIfCondition => "after if condition"
  | .afterWhile => "after 'while'"
  | .afterWhileCondition => "after while condition"
  | .afterFor => "after 'for'"
  | .afterForInitializer => "after for initializer"
  | .afterForCondition => "after for condition"
  | .afterForClauses => "after for clauses"
  | .afterReturn => "after return"
  | .afterExpression => "after expression"
  | .afterArguments => "after function arguments"
  | .afterDot => "after '.'"
  | .afterType => "after type"
  | .afterVariableDeclaration => "after variable declaration"
  | .methodName => "for method name"
  | .afterMethodName => "after method name"
  | .parameterType => "for parameter"
  | .parameterName => "for parameter name"
  | .afterParameters => "after parameters"
  | .afterClass => "after 'class'"
  | .afterClassName => "after class name"
  | .afterClassBody => "after class body"
  | .before body => "before " ++ body.text
  | .after body => "after " ++ body.text

/-- Why a reading stops. Only an assignment to something that cannot be assigned
and a method without a return type are not about the lexeme found. -/
inductive Cause where
  | missing (wanted : Wanted) (position : Position) (found : Lexeme)
  | noExpression (found : Lexeme)
  | badTarget (written : String)
  | missingReturnType (method className : String)
  | noMember (className : String) (found : Lexeme)
deriving DecidableEq, Repr

/-- What is said about a cause. -/
def Cause.text : Cause → String
  | .missing wanted position found =>
    "Expected " ++ wanted.text ++ " " ++ position.text ++ ", found " ++ found.describe
  | .noExpression found => "Unexpected token in expression, found " ++ found.describe
  | .badTarget written => "Invalid assignment target '" ++ written ++ "'"
  | .missingReturnType method className =>
    "Expected return type for method '" ++ method ++ "' in class '" ++ className ++ "'"
  | .noMember className found =>
    "Expected member of class '" ++ className ++ "', found " ++ found.describe

/-- A violation of form and its place. -/
structure SyntaxError where
  cause : Cause
  location : Location
deriving DecidableEq, Repr

namespace SyntaxError

/-- The message for a violation of form described by `detail`. -/
def headline (location : Location) (detail : String) : String :=
  "Parse error at line " ++ toString location.line ++ ", column " ++ toString location.column
    ++ ": " ++ detail

/-- What is wrong, without the place. -/
def detail (error : SyntaxError) : String := error.cause.text

/-- The message of a violation of form. -/
def message (error : SyntaxError) : String := headline error.location error.detail

end SyntaxError

end BraceLang
