import BraceLang.Location

/-!
# Tokens

A lexeme is a kind with a text; a token is a lexeme at a place. Everything the
grammar decides, it decides on lexemes alone: places are carried along for
diagnostics and never compared.

The text of a string lexeme is what stands between its quotes. `Lexeme.spelling`
gives back the characters a lexeme occupies in a source text.
-/

namespace BraceLang

/-- The lexical classes. -/
inductive Kind where
  | number
  | string
  | identifier
  | dataType
  | reserved
  | operator
  | comparison
  | semicolon
  | unknown
  | endOfInput
deriving DecidableEq, Repr, Inhabited

/-- The name under which a lexical class is shown. -/
def Kind.name : Kind → String
  | .number => "NUMBER"
  | .string => "STRING"
  | .identifier => "IDENTIFIER"
  | .dataType => "DATA_TYPE"
  | .reserved => "RESERVED"
  | .operator => "OPERATOR"
  | .comparison => "COMPARISON"
  | .semicolon => "SEMICOLON"
  | .unknown => "UNKNOWN"
  | .endOfInput => "END_OF_INPUT"

/-- A classified piece of text. -/
structure Lexeme where
  kind : Kind
  text : String
deriving DecidableEq, Repr, Inhabited

namespace Lexeme

/-- How a lexeme is named in a message. -/
def describe (lexeme : Lexeme) : String :=
  match lexeme.kind with
  | .endOfInput => "end of input"
  | .string => "string literal \"" ++ lexeme.text ++ "\""
  | .number => "number " ++ lexeme.text
  | .identifier => "identifier '" ++ lexeme.text ++ "'"
  | _ => "'" ++ lexeme.text ++ "'"

/-- The characters a lexeme occupies in a source text. -/
def spelling (lexeme : Lexeme) : List Char :=
  match lexeme.kind with
  | .string => '"' :: lexeme.text.toList ++ ['"']
  | _ => lexeme.text.toList

/-- The lexeme that closes every token sequence. -/
def endOfInput : Lexeme := ⟨.endOfInput, ""⟩

/-- An operator or a bracket. -/
def op (text : String) : Lexeme := ⟨.operator, text⟩

/-- A reserved word. -/
def keyword (text : String) : Lexeme := ⟨.reserved, text⟩

/-- The mark that ends a statement. -/
def semicolon : Lexeme := ⟨.semicolon, ";"⟩

end Lexeme

/-- A lexeme at the place of its first character. -/
structure Token extends Lexeme where
  location : Location
deriving DecidableEq, Repr, Inhabited

/-- Whether a token has both the kind and the text of `lexeme`. -/
def Token.is (token : Token) (lexeme : Lexeme) : Bool :=
  token.toLexeme = lexeme

end BraceLang
