import Mathlib.Tactic.SplitIfs
import BraceLang.Proofs.Scope.Register
import BraceLang.Scope.Table

/-!
# What the operations on a table change

`enter` and `bound` are described by the scope that each number has afterwards. Every
later fact about parents, children or symbols is read off these two equations.
-/

namespace BraceLang.ScopeTable

variable {table : ScopeTable}

theorem scope_of_size_le {id : ScopeId} (beyond : table.size ≤ id) :
    table.scope id = .opened .block none := by
  rw [scope, Array.getElem?_eq_none beyond, Option.getD_none]

/-- Only a scope of the table has a parent. -/
theorem lt_size_of_parent? {id parent : ScopeId} (found : table.parent? id = some parent) :
    id < table.size := by
  refine Nat.lt_of_not_le fun beyond => ?_
  rw [parent?, scope_of_size_le beyond] at found
  cases found

@[simp] theorem size_empty : empty.size = 1 := rfl

@[simp] theorem parent?_empty (id : ScopeId) : empty.parent? id = none := by cases id <;> rfl

@[simp] theorem children_empty (id : ScopeId) : empty.children id = [] := by cases id <;> rfl

@[simp] theorem size_enter (parent : ScopeId) (kind : ScopeKind) :
    (table.enter parent kind).size = table.size + 1 := by
  simp [enter, size]

/-- Whether a scope binds a name is a matter of its symbols. -/
theorem binds_eq_any (table : ScopeTable) (id : ScopeId) (name : String) :
    table.binds id name = (table.symbols id).any (·.name = name) :=
  Register.binds_eq_any _ name

/-- So is which symbol it binds the name to. -/
theorem find?_eq (table : ScopeTable) (id : ScopeId) (name : String) :
    (table.scope id).find? name = (table.symbols id).find? (·.name = name) :=
  Register.find?_eq _ name

theorem find?_eq_none_iff {id : ScopeId} {name : String} :
    (table.scope id).find? name = none ↔ table.binds id name = false := by
  rw [← Option.isNone_iff_eq_none, ← Option.isSome_eq_false_iff]
  exact iff_of_eq (congrArg (· = false) (Register.isSome_find? _ name))

theorem binds_eq_false_iff {id : ScopeId} {name : String} :
    table.binds id name = false ↔ (table.scope id).slot? name = none :=
  Option.isSome_eq_false_iff.trans Option.isNone_iff_eq_none

/-- A symbol whose name is bound is refused. -/
theorem bind_of_binds {id : ScopeId} {symbol : Symbol}
    (taken : table.binds id symbol.name = true) :
    table.bind id symbol = .error ⟨symbol.name⟩ := by
  obtain ⟨slot, found⟩ := Option.isSome_iff_exists.mp taken
  rw [bind]
  split
  · rfl
  next fresh => exact absurd (found.symm.trans fresh) (Option.some_ne_none slot)

/-- A symbol whose name is not bound is put behind the others. -/
theorem bind_of_fresh {id : ScopeId} {symbol : Symbol}
    (fresh : (table.scope id).slot? symbol.name = none) :
    table.bind id symbol = .ok (table.add id symbol fresh) := by
  rw [bind]
  split
  next taken => exact absurd (taken.symm.trans fresh) (Option.some_ne_none _)
  · rfl

/-- A symbol whose name is bound already is not bound. -/
theorem bound_eq_self {id : ScopeId} {symbol : Symbol}
    (bound : table.binds id symbol.name = true) : table.bound id symbol = table := by
  rw [ScopeTable.bound, bind_of_binds bound]

theorem bound_of_fresh {id : ScopeId} {symbol : Symbol}
    (fresh : (table.scope id).slot? symbol.name = none) :
    table.bound id symbol = table.add id symbol fresh := by
  rw [bound, bind_of_fresh fresh]

@[simp] theorem size_bound (id : ScopeId) (symbol : Symbol) :
    (table.bound id symbol).size = table.size := by
  cases taken : table.binds id symbol.name with
  | true => rw [bound_eq_self taken]
  | false => simp [bound_of_fresh (binds_eq_false_iff.mp taken), add, size]

/-- Changing the scope of one number leaves the others as they are. -/
theorem getD_modify {id : ScopeId} (inside : id < table.size) (change : Scope → Scope)
    (other : ScopeId) :
    (table.scopes.modify id change)[other]?.getD (.opened .block none) =
      if other = id then change (table.scope id) else table.scope other := by
  have some_ : table.scopes[id]? = some table.scopes[id] := Array.getElem?_eq_getElem inside
  rw [Array.getElem?_modify]
  by_cases same : id = other
  · subst same
    simp [scope, some_]
  · rw [if_neg same, if_neg (Ne.symm same), scope]

/-- Entering adds the scope of the next number and makes it the last child of its parent. -/
theorem scope_enter {parent : ScopeId} (inside : parent < table.size) (kind : ScopeKind)
    (id : ScopeId) :
    (table.enter parent kind).scope id =
      if id = table.size then .opened kind (some parent)
      else if id = parent then
        { table.scope parent with children := table.children parent ++ [table.size] }
      else table.scope id := by
  rw [scope, enter, Array.getElem?_push, Array.size_modify, ← size]
  by_cases fresh : id = table.size
  · rw [if_pos fresh, if_pos fresh, Option.getD_some]
  · rw [if_neg fresh, if_neg fresh, getD_modify inside]
    rfl

theorem scope_add {id : ScopeId} (inside : id < table.size) {symbol : Symbol}
    (fresh : (table.scope id).slot? symbol.name = none) (other : ScopeId) :
    (table.add id symbol fresh).scope other =
      if other = id then
        { table.scope id with register := (table.scope id).register.add symbol fresh }
      else table.scope other := by
  rw [scope, add, getD_modify inside]

/-- Binding changes at most the register of its scope. -/
theorem scope_bound {id : ScopeId} (inside : id < table.size) (symbol : Symbol) (other : ScopeId) :
    (table.bound id symbol).scope other =
      if other = id then
        { table.scope id with register := ((table.bound id symbol).scope id).register }
      else table.scope other := by
  cases taken : table.binds id symbol.name with
  | true =>
      rw [bound_eq_self taken]
      split_ifs with same
      · rw [same]
      · rfl
  | false =>
      rw [bound_of_fresh (binds_eq_false_iff.mp taken), scope_add inside, scope_add inside,
        if_pos rfl]

/-- The symbols of a scope behind a declaration in it. A name that it binds is not bound again. -/
def declareIn (symbols : List Symbol) (symbol : Symbol) : List Symbol :=
  if symbols.any (·.name = symbol.name) then symbols else symbols ++ [symbol]

/-- The symbols of a scope behind declarations in it, one after the other. -/
def declareAll (symbols declared : List Symbol) : List Symbol := declared.foldl declareIn symbols

theorem declareAll_concat (symbols declared : List Symbol) (symbol : Symbol) :
    declareAll symbols (declared ++ [symbol]) = declareIn (declareAll symbols declared) symbol :=
  List.foldl_append

/-- Of declarations in an empty scope the first of each name stands. -/
theorem declareAll_nil (declared : List Symbol) :
    declareAll [] declared = declared.eraseDupsBy (·.name == ·.name) := by
  have loop (stand : List Symbol) :
      declareAll stand.reverse declared =
        List.eraseDupsBy.loop (·.name == ·.name) declared stand := by
    induction declared generalizing stand with
    | nil => rfl
    | cons symbol declared inductionHypothesis =>
        have known : stand.reverse.any (·.name = symbol.name) =
            stand.any (symbol.name == ·.name) := by
          rw [List.any_reverse]
          exact congrArg stand.any (funext fun other => by simp [eq_comm, Bool.beq_eq_decide_eq])
        rw [declareAll, List.foldl_cons, ← declareAll, declareIn, List.eraseDupsBy.loop, known]
        cases stand.any (symbol.name == ·.name) with
        | true => exact inductionHypothesis stand
        | false =>
            have further := inductionHypothesis (symbol :: stand)
            rw [List.reverse_cons] at further
            exact further
  exact loop []

theorem parent?_enter {parent : ScopeId} (inside : parent < table.size) (kind : ScopeKind)
    (id : ScopeId) :
    (table.enter parent kind).parent? id =
      if id = table.size then some parent else table.parent? id := by
  rw [parent?, scope_enter inside]
  split_ifs with fresh same
  · rfl
  · rw [same]
    rfl
  · rfl

theorem kind_enter {parent : ScopeId} (inside : parent < table.size) (kind : ScopeKind)
    (id : ScopeId) :
    (table.enter parent kind).kind id = if id = table.size then kind else table.kind id := by
  rw [ScopeTable.kind, scope_enter inside]
  split_ifs with fresh same
  · rfl
  · rw [same]
    rfl
  · rfl

theorem children_enter {parent : ScopeId} (inside : parent < table.size) (kind : ScopeKind)
    (id : ScopeId) :
    (table.enter parent kind).children id =
      if id = parent then table.children id ++ [table.size] else table.children id := by
  rw [children, scope_enter inside]
  split_ifs with fresh same same
  · exact absurd (fresh.symm.trans same) (Nat.ne_of_gt inside)
  · rw [children, fresh, scope_of_size_le (Nat.le_refl _)]
    rfl
  · rw [same]
  · rfl

theorem symbols_enter {parent : ScopeId} (inside : parent < table.size) (kind : ScopeKind)
    (id : ScopeId) : (table.enter parent kind).symbols id = table.symbols id := by
  rw [symbols, scope_enter inside]
  split_ifs with fresh same
  · rw [symbols, fresh, scope_of_size_le (Nat.le_refl _)]
    rfl
  · rw [same]
    rfl
  · rfl

section Bound

variable {id : ScopeId} (inside : id < table.size) (symbol : Symbol) (other : ScopeId)

include inside

theorem parent?_bound : (table.bound id symbol).parent? other = table.parent? other := by
  rw [parent?, scope_bound inside]
  split_ifs with same
  · rw [same]
    rfl
  · rfl

theorem kind_bound : (table.bound id symbol).kind other = table.kind other := by
  rw [kind, scope_bound inside]
  split_ifs with same
  · rw [same]
    rfl
  · rfl

theorem children_bound : (table.bound id symbol).children other = table.children other := by
  rw [children, scope_bound inside]
  split_ifs with same
  · rw [same]
    rfl
  · rfl

theorem symbols_bound :
    (table.bound id symbol).symbols other =
      if other = id ∧ table.binds id symbol.name = false then table.symbols id ++ [symbol]
      else table.symbols other := by
  cases taken : table.binds id symbol.name with
  | true => rw [bound_eq_self taken, if_neg fun both => Bool.noConfusion both.2]
  | false =>
      rw [bound_of_fresh (binds_eq_false_iff.mp taken), symbols, scope_add inside]
      split_ifs with same own own
      · rfl
      · exact absurd ⟨same, rfl⟩ own
      · exact absurd own.1 same
      · rfl

theorem symbols_bound_self :
    (table.bound id symbol).symbols id = declareIn (table.symbols id) symbol := by
  rw [symbols_bound inside, declareIn, binds_eq_any]
  cases (table.symbols id).any (·.name = symbol.name) <;> simp

theorem symbols_bound_of_ne (apart : other ≠ id) :
    (table.bound id symbol).symbols other = table.symbols other := by
  rw [symbols_bound inside, if_neg fun both => apart both.1]

end Bound

/-- Symbols bound in one scope one after the other are declared in it. -/
theorem symbols_foldl_bound {id : ScopeId} (inside : id < table.size) (declared : List Symbol) :
    (declared.foldl (fun table symbol => table.bound id symbol) table).symbols id =
      declareAll (table.symbols id) declared := by
  induction declared generalizing table with
  | nil => rfl
  | cons symbol declared inductionHypothesis =>
      rw [List.foldl_cons, inductionHypothesis (by rwa [size_bound]), symbols_bound_self inside]
      rfl

/-- At most one declaration adds its symbol unless the name is bound. -/
theorem declareAll_toList (id : ScopeId) (symbol : Option Symbol) :
    declareAll (table.symbols id) symbol.toList =
      table.symbols id ++ (symbol.filter fun symbol => !table.binds id symbol.name).toList := by
  cases symbol with
  | none => exact (List.append_nil _).symm
  | some symbol =>
      rw [Option.filter, Option.toList_some, declareAll, List.foldl_cons, List.foldl_nil, declareIn,
        binds_eq_any]
      cases (table.symbols id).any (·.name = symbol.name) <;> simp

/-- Whether a scope binds a name depends on its symbols alone. -/
theorem binds_congr {other : ScopeTable} {id : ScopeId} (same : other.symbols id = table.symbols id)
    (name : String) : other.binds id name = table.binds id name := by
  rw [binds_eq_any, binds_eq_any, same]

end BraceLang.ScopeTable
