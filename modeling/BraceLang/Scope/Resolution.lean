import BraceLang.Scope.Table

/-!
# What a name means in a scope

A name means what the nearest scope outward binds it to. The scopes asked are
those on the path from a scope to the root; a parent always has the smaller
number, so a scope with number `n` has at most `n` scopes around it.

`visible` lists everything that has a meaning in a scope. It names each meaning
once, in the order in which the names first appear from the root inward; an
inner binding takes over the place of the outer one it hides.
-/

namespace BraceLang.ScopeTable

/-- A scope and up to `steps` scopes around it, from the inside out. -/
def outward (table : ScopeTable) : (steps : Nat) → ScopeId → List ScopeId
  | 0, id => [id]
  | steps + 1, id =>
    match table.parent? id with
    | none => [id]
    | some parent => id :: table.outward steps parent

/-- A scope and all scopes around it, from the inside out. -/
def path (table : ScopeTable) (id : ScopeId) : List ScopeId :=
  table.outward id id

/-- The number of scopes around a scope. -/
def depth (table : ScopeTable) (id : ScopeId) : Nat :=
  (table.path id).length - 1

/-- The nearest binding of a name, from a scope outward. -/
def lookup (table : ScopeTable) (id : ScopeId) (name : String) : Option Symbol :=
  (table.path id).findSome? fun scope => (table.scope scope).find? name

/-- The type a name was declared with, as far as it is visible in a scope. -/
def declaredType (table : ScopeTable) (id : ScopeId) (name : String) : Option String :=
  (table.lookup id name).map (·.type)

/-- Every symbol with a meaning in a scope, outermost first. -/
def visible (table : ScopeTable) (id : ScopeId) : List Symbol :=
  (((table.path id).reverse.flatMap table.symbols).foldl Register.put .empty).symbols

end BraceLang.ScopeTable
