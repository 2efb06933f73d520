import BraceLang.Scope.Table

/-!
# The order of the scope tree

`walk` lists the scopes of a table with each scope in front of the scopes inside
it and the insides of an earlier scope in front of those of a later one. It
works off an agenda: the first scope on it is listed and replaced by its
children. Every round lists a scope, so as many rounds as there are scopes
empty the agenda.
-/

namespace BraceLang.ScopeTable

/-- The scopes listed by at most `rounds` rounds of working off an agenda. -/
def walkFrom (table : ScopeTable) : (rounds : Nat) → (agenda : List ScopeId) → List ScopeId
  | 0, _ => []
  | _, [] => []
  | rounds + 1, id :: agenda => id :: table.walkFrom rounds (table.children id ++ agenda)

/-- All scopes, each in front of those inside it. -/
def walk (table : ScopeTable) : List ScopeId :=
  table.walkFrom table.size [root]

end BraceLang.ScopeTable
