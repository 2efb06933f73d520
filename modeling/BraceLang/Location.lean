/-!
# Places in a source text

A place is a line and a column, both counted from one. A column counts
characters, and only a newline starts a new line. `Location.after` is the one
rule by which places move; every place a token carries is obtained from the
start of the text by applying it to the characters in front of the token.
-/

namespace BraceLang

/-- A line and a column, both counted from one. -/
structure Location where
  line : Nat
  column : Nat
deriving DecidableEq, Repr, Inhabited

namespace Location

/-- The place of the first character of a text. -/
def start : Location := ⟨1, 1⟩

/-- The place behind `character` when it stands at `location`. -/
def after (location : Location) (character : Char) : Location :=
  if character = '\n' then ⟨location.line + 1, 1⟩
  else ⟨location.line, location.column + 1⟩

/-- The place behind all of `characters` when the first stands at `location`. -/
def afterAll (location : Location) (characters : List Char) : Location :=
  characters.foldl after location

/-- Line and column with a colon between them. -/
def text (location : Location) : String :=
  toString location.line ++ ":" ++ toString location.column

@[simp] theorem afterAll_nil (location : Location) : location.afterAll [] = location := rfl

@[simp] theorem afterAll_cons (location : Location) (character : Char) (characters : List Char) :
    location.afterAll (character :: characters) = (location.after character).afterAll characters :=
  rfl

/-- Moving over a concatenation is moving over its parts in turn. -/
theorem afterAll_append (location : Location) (front back : List Char) :
    location.afterAll (front ++ back) = (location.afterAll front).afterAll back :=
  List.foldl_append

end Location

end BraceLang
