import BraceLang.Scope.Register

/-!
# The table of scopes

A table holds every scope ever opened, numbered in the order of opening. Scope 0
is the root, the only one without a parent. Closing a scope removes nothing: the
table only grows, by a symbol at the end of one scope (`bind`) or by a scope
at the end of the table (`enter`). Within a scope a name is bound at most once.
-/

namespace BraceLang

/-- The region of a program that a scope covers. -/
inductive ScopeKind where
  | global
  | block
  | classBody
  | methodBody
deriving DecidableEq, Repr, Inhabited

/-- How the region of a scope is shown. -/
def ScopeKind.text : ScopeKind → String
  | .global => "Global"
  | .block => "Block"
  | .classBody => "Class"
  | .methodBody => "Method"

/-- The number of a scope in its table. -/
abbrev ScopeId := Nat

/-- A scope: its region, the scope around it, the scopes opened directly in it in the order
of their arrival, and the register of the symbols bound directly in it. -/
structure Scope where
  kind : ScopeKind
  parent : Option ScopeId
  children : List ScopeId
  register : Register
deriving DecidableEq, Repr, Inhabited

namespace Scope

/-- A scope in which nothing has happened yet. -/
def opened (kind : ScopeKind) (parent : Option ScopeId) : Scope :=
  ⟨kind, parent, [], .empty⟩

/-- The symbols a scope itself binds, in the order of their arrival. -/
def symbols (scope : Scope) : List Symbol := scope.register.symbols

/-- Where among its symbols a scope binds a name. -/
def slot? (scope : Scope) (name : String) : Option Nat := scope.register.slot? name

/-- The symbol a scope itself binds to a name. -/
def find? (scope : Scope) (name : String) : Option Symbol := scope.register.find? name

/-- Whether a scope itself binds a name. -/
def binds (scope : Scope) (name : String) : Bool := scope.register.binds name

end Scope

/-- The refusal to bind a name twice in one scope. -/
structure AlreadyDeclared where
  name : String
deriving DecidableEq, Repr

/-- The message of the refusal. -/
def AlreadyDeclared.message (refusal : AlreadyDeclared) : String :=
  "'" ++ refusal.name ++ "' is already declared in this scope"

/-- All scopes ever opened, by number. -/
structure ScopeTable where
  scopes : Array Scope
deriving DecidableEq, Repr

namespace ScopeTable

/-- The number of the root. -/
def root : ScopeId := 0

/-- The table of the root alone. -/
def empty : ScopeTable := ⟨#[.opened .global none]⟩

/-- How many scopes were ever opened. -/
def size (table : ScopeTable) : Nat := table.scopes.size

/-- Whether a table lacks even a root. -/
def isEmpty (table : ScopeTable) : Bool := table.scopes.isEmpty

/-- The scope of a number; a number not given out stands for a block with nothing
in it and nothing around it. -/
def scope (table : ScopeTable) (id : ScopeId) : Scope :=
  table.scopes[id]?.getD (.opened .block none)

/-- The region of a scope. -/
def kind (table : ScopeTable) (id : ScopeId) : ScopeKind := (table.scope id).kind

/-- The scope around a scope. -/
def parent? (table : ScopeTable) (id : ScopeId) : Option ScopeId := (table.scope id).parent

/-- The scopes opened directly in a scope. -/
def children (table : ScopeTable) (id : ScopeId) : List ScopeId := (table.scope id).children

/-- The symbols bound directly in a scope. -/
def symbols (table : ScopeTable) (id : ScopeId) : List Symbol := (table.scope id).symbols

/-- Whether a scope itself binds a name; the scopes around it are not asked. -/
def binds (table : ScopeTable) (id : ScopeId) (name : String) : Bool :=
  (table.scope id).binds name

/-- Put a symbol behind the others of a scope that does not bind its name itself. -/
def add (table : ScopeTable) (id : ScopeId) (symbol : Symbol)
    (fresh : (table.scope id).slot? symbol.name = none) : ScopeTable :=
  ⟨table.scopes.modify id fun scope =>
    { scope with register := (table.scope id).register.add symbol fresh }⟩

/-- Bind a symbol in a scope, unless the scope itself binds its name already. -/
def bind (table : ScopeTable) (id : ScopeId) (symbol : Symbol) :
    Except AlreadyDeclared ScopeTable :=
  match fresh : (table.scope id).slot? symbol.name with
  | some _ => .error ⟨symbol.name⟩
  | none => .ok (table.add id symbol fresh)

/-- The table after an attempt to bind a symbol; a refused one changes nothing. -/
def bound (table : ScopeTable) (id : ScopeId) (symbol : Symbol) : ScopeTable :=
  match table.bind id symbol with
  | .ok extended => extended
  | .error _ => table

/-- Open a scope inside `parent`. Its number is the size of the table so far. -/
def enter (table : ScopeTable) (parent : ScopeId) (kind : ScopeKind) : ScopeTable :=
  ⟨(table.scopes.modify parent fun scope =>
    { scope with children := scope.children ++ [table.size] }).push (.opened kind (some parent))⟩

/-- The scope left to when a scope is closed: the one around it, or at the root the root. -/
def outer (table : ScopeTable) (id : ScopeId) : ScopeId :=
  (table.parent? id).getD id

/-- The root with the given symbols bound in turn; of one name the first stands. -/
def withBuiltins (builtins : List Symbol) : ScopeTable :=
  builtins.foldl (fun table symbol => table.bound root symbol) empty

end ScopeTable

end BraceLang
