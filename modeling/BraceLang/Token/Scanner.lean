import BraceLang.Token
import BraceLang.Text.Blank

/-!
# From characters to tokens

A source text is an alternation of gaps and lexemes. A gap is made of blank
characters and comments; `splitGap` cuts off the longest one. On what is left,
`splitLexeme` cuts off one lexeme, decided by its first character and then taken
as long as its class allows. Both only cut: no character is lost or changed,
and the place of a token is the place of its first character.

Scanning never fails. A character no class claims becomes a lexeme of its own,
and so does a quote that no later quote closes.
-/

namespace BraceLang

namespace Lexeme

/-- The words that name data types. -/
def dataTypeWords : List String :=
  ["int", "float", "double", "char", "boolean", "String", "void"]

/-- The reserved words that are not data types. -/
def reservedWords : List String :=
  ["if", "else", "for", "while", "do", "switch", "case", "break", "continue", "return",
   "public", "private", "protected", "class", "static", "try", "catch", "finally"]

/-- The class of a word. -/
def wordKind (word : String) : Kind :=
  if word ∈ dataTypeWords then .dataType
  else if word ∈ reservedWords then .reserved
  else .identifier

/-- Whether a word may start with this character. -/
def startsWord (character : Char) : Bool :=
  character.isAlpha || character = '_'

/-- Whether a word may go on with this character. -/
def continuesWord (character : Char) : Bool :=
  character.isAlphanum || character = '_'

/-- The characters that are operators or brackets on their own, whatever follows. -/
def soloOperators : List Char := ['*', '/', '{', '}', '(', ')', '.', ',']

/-- The lexeme of `text`, and what is left once it is taken off. -/
abbrev Split := Lexeme × List Char

/-- A string literal, after its opening quote: up to the next quote, or the lone
opening quote when no quote follows. -/
def splitString (rest : List Char) : Split :=
  match rest.span (· ≠ '"') with
  | (body, _ :: after) => (⟨.string, String.ofList body⟩, after)
  | (_, []) => (⟨.unknown, "\""⟩, rest)

/-- A number: digits, and a fraction if a point with a digit behind it follows. -/
def splitNumber (characters : List Char) : Split :=
  match characters.span Char.isDigit with
  | (whole, '.' :: digit :: after) =>
    if digit.isDigit then
      let (fraction, rest) := (digit :: after).span Char.isDigit
      (⟨.number, String.ofList (whole ++ '.' :: fraction)⟩, rest)
    else (⟨.number, String.ofList whole⟩, '.' :: digit :: after)
  | (whole, rest) => (⟨.number, String.ofList whole⟩, rest)

/-- A word: the longest run of word characters. -/
def splitWord (characters : List Char) : Split :=
  match characters.span continuesWord with
  | (word, rest) => (⟨wordKind (String.ofList word), String.ofList word⟩, rest)

/-- An operator, a comparison, the semicolon, or a character of no class. -/
def splitSymbol (first : Char) (rest : List Char) : Split :=
  let alone (kind : Kind) : Split := (⟨kind, String.singleton first⟩, rest)
  let doubled (kind : Kind) (second : Char) : Split :=
    (⟨kind, String.ofList [first, second]⟩, rest.tail)
  if first ∈ ['=', '!', '<', '>'] then
    if rest.head? = some '=' then doubled .comparison '='
    else if first ∈ ['<', '>'] then alone .comparison
    else alone .operator
  else if first ∈ ['+', '-'] then
    if rest.head? = some first then doubled .operator first else alone .operator
  else if first ∈ soloOperators then alone .operator
  else if first = ';' then alone .semicolon
  else alone .unknown

/-- The lexeme at the front of `first :: rest`. -/
def split (first : Char) (rest : List Char) : Split :=
  if first = '"' then splitString rest
  else if first.isDigit then splitNumber (first :: rest)
  else if startsWord first then splitWord (first :: rest)
  else splitSymbol first rest

end Lexeme

/-- What the characters of a gap belong to. -/
inductive GapPart where
  | blank
  | lineComment
  | blockComment
deriving DecidableEq, Repr

/-- The longest gap at the front of a text, begun inside `part`, and what follows
it. A comment that is never closed takes the whole rest. -/
def splitGap : GapPart → List Char → List Char × List Char
  | .blank, '/' :: '/' :: rest =>
    let (gap, after) := splitGap .lineComment rest
    ('/' :: '/' :: gap, after)
  | .blank, '/' :: '*' :: rest =>
    let (gap, after) := splitGap .blockComment rest
    ('/' :: '*' :: gap, after)
  | .blank, first :: rest =>
    if Text.isBlank first then
      let (gap, after) := splitGap .blank rest
      (first :: gap, after)
    else ([], first :: rest)
  | .lineComment, first :: rest =>
    let (gap, after) := splitGap (if first = '\n' then .blank else .lineComment) rest
    (first :: gap, after)
  | .blockComment, '*' :: '/' :: rest =>
    let (gap, after) := splitGap .blank rest
    ('*' :: '/' :: gap, after)
  | .blockComment, first :: rest =>
    let (gap, after) := splitGap .blockComment rest
    (first :: gap, after)
  | _, [] => ([], [])

/-- The text still to be scanned and the place of its first character. -/
structure Scanner where
  rest : List Char
  location : Location
deriving DecidableEq, Repr

namespace Scanner

/-- A scanner at the start of a text. -/
def ofString (source : String) : Scanner :=
  ⟨source.toList, .start⟩

/-- The scanner behind the gap it stands at. -/
def skipGap (scanner : Scanner) : Scanner :=
  let (gap, rest) := splitGap .blank scanner.rest
  ⟨rest, scanner.location.afterAll gap⟩

/-- The token the scanner stands at and the scanner behind it, unless it is at the end. -/
def next? (scanner : Scanner) : Option (Token × Scanner) :=
  match scanner.rest with
  | [] => none
  | first :: rest =>
    let (lexeme, after) := Lexeme.split first rest
    some (⟨lexeme, scanner.location⟩, ⟨after, scanner.location.afterAll lexeme.spelling⟩)

/-- The closing token for a scanner at the end of its text. -/
def closing (scanner : Scanner) : Token :=
  ⟨.endOfInput, scanner.location⟩

/-- All tokens of at most `rounds` lexemes, closed by the end of input, and the
scanner behind them. A lexeme takes a character at least, so as many rounds as
characters reach the end of the text. -/
def scan : (rounds : Nat) → Scanner → List Token × Scanner
  | 0, scanner => ([scanner.closing], scanner)
  | rounds + 1, scanner =>
    let scanner := scanner.skipGap
    match scanner.next? with
    | none => ([scanner.closing], scanner)
    | some (token, after) =>
      let (tokens, final) := scan rounds after
      (token :: tokens, final)

/-- All tokens up to the end of the text, and the scanner at the end. -/
def tokens (scanner : Scanner) : List Token × Scanner :=
  scanner.scan scanner.rest.length

end Scanner

/-- The tokens of a source text, closed by the end of input. -/
def tokenize (source : String) : List Token :=
  (Scanner.ofString source).tokens.1

end BraceLang
