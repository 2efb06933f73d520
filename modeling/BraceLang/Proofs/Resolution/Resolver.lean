import BraceLang.Proofs.Resolution.Typing
import BraceLang.Session

/-!
# Resolving names in a finished tree

A resolver walks over a tree with a stack of frames, each a plain list of the symbols
bound in it. It knows no table of scopes, no tokens and no script. What it finds is
what is wrong with the program according to its documentation: a declaration binds in
the innermost frame, and every expression that a statement holds is typed once, with
the frames of the moment.

The tree does not keep the place of a declared name, so of a name bound twice only the
name counts; `Diagnostic.unplaced` forgets the place.
-/

namespace BraceLang

/-- A diagnostic without the place of a name bound twice. -/
def Diagnostic.unplaced : Diagnostic → Diagnostic
  | .redeclared name _ => .redeclared name .start
  | other => other

/-- The meaning of a name in a frame: of its entries the first stands. -/
def meaning (frame : List Symbol) (name : String) : Option Symbol :=
  frame.find? (·.name = name)

/-- A stack of frames, which is never empty. -/
structure Frames where
  top : List Symbol
  outer : List (List Symbol)

namespace Frames

/-- The nearest meaning of a name. -/
def lookup (frames : Frames) (name : String) : Option Symbol :=
  (frames.top :: frames.outer).findSome? (meaning · name)

/-- The declared type of a name. -/
def declaredType (frames : Frames) (name : String) : Option String :=
  (frames.lookup name).map (·.type)

/-- The frames with an empty one on top. -/
def push (frames : Frames) : Frames := ⟨[], frames.top :: frames.outer⟩

/-- The frames without the top one; the bottom frame stays. -/
def pop (frames : Frames) : Frames :=
  match frames.outer with
  | [] => frames
  | top :: outer => ⟨top, outer⟩

end Frames

/-- Changes a stack of frames and tells what it finds wrong. -/
abbrev Resolver : Type := Frames → Frames × List Diagnostic

namespace Resolver

/-- Nothing to resolve. -/
def idle : Resolver := fun frames => (frames, [])

/-- One resolver after another. -/
def andThen (first second : Resolver) : Resolver := fun frames =>
  let (middle, found) := first frames
  let (after, further) := second middle
  (after, found ++ further)

/-- A declaration binds its symbol in the top frame, or finds the name bound there. -/
def declare (symbol : Symbol) (location : Location) : Resolver := fun frames =>
  if (meaning frames.top symbol.name).isSome then (frames, [.redeclared symbol.name location])
  else (⟨frames.top ++ [symbol], frames.outer⟩, [])

/-- An expression is typed with the frames of the moment. -/
def check (expression : Node) : Resolver := fun frames =>
  (frames, (expression.typed frames.declaredType).diagnostics)

/-- An initial value is typed, and its type compared with that of the variable. -/
def initial (name type : String) (value : Node) : Resolver := fun frames =>
  let typing := value.typed frames.declaredType
  (frames, typing.diagnostics ++ Session.clash name type typing.type value.location)

/-- An expression is typed if there is one. -/
def checkOption : Option Node → Resolver
  | none => idle
  | some expression => check expression

/-- An initial value is typed if there is one. -/
def initialOption (name type : String) : Option Node → Resolver
  | none => idle
  | some value => initial name type value

/-- Parameters are declared in turn; a tree has no places for them but that of the method. -/
def parameters (location : Location) : List Param → Resolver
  | [] => idle
  | param :: params =>
    (declare ⟨param.name, param.type, .parameter⟩ location).andThen (parameters location params)

/-- A frame of its own for what is inside. -/
def framed (inside : Resolver) : Resolver := fun frames =>
  let (after, found) := inside frames.push
  (after.pop, found)

end Resolver

namespace Node

open Resolver

mutual

/-- Resolve a statement, or an expression in the place of one. The only block is the program. -/
def resolve : Node → Resolver
  | .variableDecl type name init location =>
    (declare ⟨name, type, .variable⟩ location).andThen (initialOption name type init)
  | .methodDecl returnType name params body location =>
    (declare ⟨name, returnType.getD name, .method⟩ location).andThen
      (framed ((parameters location params).andThen (resolveAll body)))
  | .classDecl name fields methods location =>
    (declare ⟨name, "class", .className⟩ location).andThen
      (framed ((resolveAll fields).andThen (resolveAll methods)))
  | .block statements _ => resolveAll statements
  | .ifStmt condition thenBranch elseBranch _ =>
    (check condition).andThen ((framed (resolveAll thenBranch)).andThen (resolveElse elseBranch))
  | .whileStmt condition body _ => (check condition).andThen (framed (resolveAll body))
  | .forStmt init condition update body _ =>
    framed ((resolveOption init).andThen ((checkOption condition).andThen
      ((checkOption update).andThen (resolveAll body))))
  | .returnStmt value _ => checkOption value
  | .breakStmt _ => idle
  | .continueStmt _ => idle
  | expression => check expression

/-- Resolve statements one after another. -/
def resolveAll : List Node → Resolver
  | [] => idle
  | node :: nodes => node.resolve.andThen (resolveAll nodes)

/-- Resolve the first clause of a counting loop if there is one. -/
def resolveOption : Option Node → Resolver
  | none => idle
  | some node => node.resolve

/-- Resolve an else branch in a frame of its own if there is one. -/
def resolveElse : Option (List Node) → Resolver
  | none => idle
  | some nodes => framed (resolveAll nodes)

end

/-- What is found wrong with a program when `builtins` are bound around it. -/
def findings (builtins : List Symbol) (program : Node) : List Diagnostic :=
  (program.resolve ⟨builtins, []⟩).2

end Node

end BraceLang
