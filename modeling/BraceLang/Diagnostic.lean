import BraceLang.Location

/-!
# Types and what can be wrong with their use

Types are nominal: two known types agree when they have the same name, and
nothing converts. The unknown type stands for what could not be resolved and
agrees with every type, so that one undeclared name is reported once and not
again by everything it takes part in.

A diagnostic reports a violation of meaning. It never stops the analysis; the
diagnostics of a program form a list in the order of their detection.
-/

namespace BraceLang

/-- The type of an expression. -/
inductive Ty where
  | known (name : String)
  | unknown
deriving DecidableEq, Repr, Inhabited

namespace Ty

/-- The type of a number literal: `double` with a point in it, `int` without. -/
def ofNumber (digits : String) : Ty :=
  .known (if '.' ∈ digits.toList then "double" else "int")

/-- The type of a string literal. -/
def ofString : Ty := .known "String"

/-- Whether a value of one type may stand where the other is wanted. -/
def agrees : Ty → Ty → Bool
  | .known name, .known other => name = other
  | _, _ => true

/-- Whether the type was resolved. -/
def isKnown : Ty → Bool
  | .known _ => true
  | .unknown => false

/-- The name of a type in a message. -/
def text : Ty → String
  | .known name => name
  | .unknown => "unknown"

end Ty

/-- A violation of meaning in a program of correct form. Types and expressions
appear as they are written out. -/
inductive Diagnostic where
  /-- A name bound twice in one scope; the first binding stands. -/
  | redeclared (name : String) (location : Location)
  /-- A reference with no binding in any enclosing scope. -/
  | undeclared (name : String) (location : Location)
  /-- An initial or assigned value whose type differs from the target's. -/
  | mismatch (target expected found : String) (location : Location)
  /-- An operator between operands of different types. -/
  | incompatible (op left right : String) (location : Location)
deriving DecidableEq, Repr

namespace Diagnostic

/-- The place a diagnostic points at. -/
def location : Diagnostic → Location
  | .redeclared _ location
  | .undeclared _ location
  | .mismatch _ _ _ location
  | .incompatible _ _ _ location => location

/-- What a diagnostic says, without its place. -/
def detail : Diagnostic → String
  | .redeclared name _ => "'" ++ name ++ "' is already declared in this scope"
  | .undeclared name _ => "'" ++ name ++ "' is not declared"
  | .mismatch target expected found _ =>
    "cannot assign a value of type '" ++ found ++ "' to '" ++ target ++ "' of type '" ++ expected
      ++ "'"
  | .incompatible op left right _ =>
    "incompatible operand types '" ++ left ++ "' and '" ++ right ++ "' for operator '" ++ op ++ "'"

/-- The one-line message of a diagnostic, led by its line. -/
def message (diagnostic : Diagnostic) : String :=
  "line " ++ toString diagnostic.location.line ++ ": " ++ diagnostic.detail

end Diagnostic

end BraceLang
