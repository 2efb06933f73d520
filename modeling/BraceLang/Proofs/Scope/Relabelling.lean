import BraceLang.Proofs.Relabelling
import BraceLang.Proofs.Scope.Table
import BraceLang.Session

/-!
# Scopes in other words

A table can be told in other words: all its symbols have other names and types, and its scopes
are the same. Words change one to one, so a name leads to the same slot as before, and a scope
refuses the same symbols. To open a scope, to bind a symbol and to look a name up come to the
same before and after the words are changed.
-/

namespace BraceLang

variable {change : Relabelling}

/-- A name is found in an index in other words at the slot of the name that it stands for. -/
theorem lookup_relabel_eq_some_iff (change : Relabelling) (index : List (String × Nat))
    (name : String) (slot : Nat) :
    (index.map fun (known, slot) => (change.word known, slot)).lookup name = some slot ↔
      ∃ known, change.word known = name ∧ index.lookup known = some slot := by
  induction index with
  | nil => simp
  | cons entry index inductionHypothesis =>
      obtain ⟨own, ownSlot⟩ := entry
      rw [List.map_cons, List.lookup_cons]
      by_cases here : name = change.word own
      · subst here
        simp only [beq_self_eq_true, change.injective.eq_iff, exists_eq_left, List.lookup_cons]
      · have apart (known : String) (same : change.word known = name) : known ≠ own := by
          rintro rfl
          exact here same.symm
        rw [beq_false_of_ne here, inductionHypothesis]
        refine exists_congr fun known => and_congr_right fun same => ?_
        rw [List.lookup_cons, beq_false_of_ne (apart known same)]

namespace Register

/-- A register in other words. -/
def relabel (change : Relabelling) (register : Register) : Register where
  symbols := register.symbols.map (Symbol.relabel change)
  index := register.index.map fun (name, slot) => (change.word name, slot)
  indexed name slot := by
    have names : (register.symbols.map (Symbol.relabel change)).map (·.name) =
        (register.symbols.map (·.name)).map change.word := by
      rw [List.map_map, List.map_map]
      rfl
    rw [lookup_relabel_eq_some_iff, names, List.getElem?_map, Option.map_eq_some_iff]
    simp only [register.indexed, and_comm]

variable {register : Register} {symbol : Symbol}

@[simp] theorem relabel_empty : empty.relabel change = empty := rfl

/-- A name leads to the slot to which it led before. -/
@[simp] theorem slot?_relabel (register : Register) (name : String) :
    (register.relabel change).slot? (change.word name) = register.slot? name := by
  refine Option.ext fun slot => ?_
  rw [slot?, relabel, lookup_relabel_eq_some_iff, slot?]
  simp only [change.injective.eq_iff, exists_eq_left]

@[simp] theorem find?_relabel (register : Register) (name : String) :
    (register.relabel change).find? (change.word name) =
      (register.find? name).map (Symbol.relabel change) := by
  rw [find?, slot?_relabel, find?]
  cases register.slot? name with
  | none => rfl
  | some slot => exact List.getElem?_map ..

theorem add_relabel {other : Register} (same : other = register.relabel change)
    (fresh : register.slot? symbol.name = none)
    (alsoFresh : other.slot? (symbol.relabel change).name = none) :
    other.add (symbol.relabel change) alsoFresh = (register.add symbol fresh).relabel change := by
  subst same
  simp [add, relabel, Symbol.relabel]

end Register

/-- A scope in other words. -/
def Scope.relabel (change : Relabelling) (scope : Scope) : Scope :=
  { scope with register := scope.register.relabel change }

namespace ScopeTable

/-- A table in other words. -/
def relabel (change : Relabelling) (table : ScopeTable) : ScopeTable :=
  ⟨table.scopes.map (Scope.relabel change)⟩

variable {table : ScopeTable}

@[simp] theorem size_relabel (table : ScopeTable) : (table.relabel change).size = table.size :=
  Array.size_map

theorem scope_relabel (table : ScopeTable) (id : ScopeId) :
    (table.relabel change).scope id = (table.scope id).relabel change := by
  rw [scope, relabel, Array.getElem?_map, scope]
  cases table.scopes[id]? <;> rfl

@[simp] theorem parent?_relabel (table : ScopeTable) (id : ScopeId) :
    (table.relabel change).parent? id = table.parent? id := by
  rw [parent?, scope_relabel]
  rfl

@[simp] theorem binds_relabel (table : ScopeTable) (id : ScopeId) (name : String) :
    (table.relabel change).binds id (change.word name) = table.binds id name := by
  rw [binds, scope_relabel]
  exact congrArg Option.isSome (Register.slot?_relabel ..)

/-- What is done to one scope is done to it in other words. -/
theorem map_relabel_modify (scopes : Array Scope) (id : ScopeId) (alter other : Scope → Scope)
    (commutes : ∀ scope ∈ scopes[id]?,
      other (scope.relabel change) = (alter scope).relabel change) :
    (scopes.map (Scope.relabel change)).modify id other =
      (scopes.modify id alter).map (Scope.relabel change) := by
  refine Array.ext_getElem? fun index => ?_
  rw [Array.getElem?_modify, Array.getElem?_map, Array.getElem?_map, Array.getElem?_modify]
  split_ifs with here
  · subst here
    cases found : scopes[id]? with
    | none => rfl
    | some scope => exact congrArg some (commutes scope found)
  · rfl

theorem enter_relabel (table : ScopeTable) (parent : ScopeId) (kind : ScopeKind) :
    (table.relabel change).enter parent kind = (table.enter parent kind).relabel change := by
  let adopt (scope : Scope) : Scope := { scope with children := scope.children ++ [table.size] }
  have adopted : (table.scopes.map (Scope.relabel change)).modify parent adopt =
      (table.scopes.modify parent adopt).map (Scope.relabel change) :=
    map_relabel_modify table.scopes parent adopt adopt fun _ _ => rfl
  rw [enter, enter, size_relabel, relabel, relabel, Array.map_push, ← adopted]
  rfl

theorem add_relabel {id : ScopeId} {symbol : Symbol}
    (fresh : (table.scope id).slot? symbol.name = none)
    (alsoFresh : ((table.relabel change).scope id).slot? (symbol.relabel change).name = none) :
    (table.relabel change).add id (symbol.relabel change) alsoFresh =
      (table.add id symbol fresh).relabel change := by
  have registers : ((table.relabel change).scope id).register.add (symbol.relabel change)
      alsoFresh = ((table.scope id).register.add symbol fresh).relabel change :=
    Register.add_relabel (congrArg Scope.register (scope_relabel table id)) fresh alsoFresh
  refine congrArg ScopeTable.mk (map_relabel_modify table.scopes id
    (fun scope => { scope with register := (table.scope id).register.add symbol fresh })
    (fun scope => { scope with register := ((table.relabel change).scope id).register.add _ _ })
    fun scope _ => ?_)
  simp only [registers, Scope.relabel]

theorem bound_relabel (table : ScopeTable) (id : ScopeId) (symbol : Symbol) :
    (table.relabel change).bound id (symbol.relabel change) =
      (table.bound id symbol).relabel change := by
  have same : (table.relabel change).binds id (symbol.relabel change).name =
      table.binds id symbol.name := binds_relabel table id symbol.name
  cases taken : table.binds id symbol.name with
  | true => rw [bound_eq_self taken, bound_eq_self (same.trans taken)]
  | false =>
      have fresh := binds_eq_false_iff.mp taken
      have alsoFresh := binds_eq_false_iff.mp (same.trans taken)
      rw [bound_of_fresh fresh, bound_of_fresh alsoFresh, add_relabel fresh]

@[simp] theorem relabel_empty : empty.relabel change = empty := by
  simp [relabel, empty, Scope.relabel, Scope.opened]

theorem withBuiltins_relabel (builtins : List Symbol) :
    withBuiltins (builtins.map (Symbol.relabel change)) =
      (withBuiltins builtins).relabel change := by
  have bindAll (table : ScopeTable) :
      (builtins.map (Symbol.relabel change)).foldl (fun table symbol => table.bound root symbol)
          (table.relabel change) =
        (builtins.foldl (fun table symbol => table.bound root symbol) table).relabel change := by
    induction builtins generalizing table with
    | nil => rfl
    | cons symbol builtins inductionHypothesis =>
        rw [List.map_cons, List.foldl_cons, List.foldl_cons, bound_relabel, inductionHypothesis]
  have bound := bindAll empty
  rwa [relabel_empty] at bound

@[simp] theorem outer_relabel (table : ScopeTable) (id : ScopeId) :
    (table.relabel change).outer id = table.outer id := by
  rw [outer, outer, parent?_relabel]

theorem path_relabel (table : ScopeTable) (id : ScopeId) :
    (table.relabel change).path id = table.path id := by
  have same (steps : Nat) (id : ScopeId) :
      (table.relabel change).outward steps id = table.outward steps id := by
    induction steps generalizing id with
    | zero => rfl
    | succ steps inductionHypothesis =>
        simp only [outward, parent?_relabel, inductionHypothesis]
  exact same id id

/-- A name means the symbol that it meant before, in other words. -/
theorem lookup_relabel (table : ScopeTable) (id : ScopeId) (name : String) :
    (table.relabel change).lookup id (change.word name) =
      (table.lookup id name).map (Symbol.relabel change) := by
  rw [lookup, path_relabel, lookup]
  induction table.path id with
  | nil => rfl
  | cons scope others inductionHypothesis =>
      have here : ((table.relabel change).scope scope).find? (change.word name) =
          ((table.scope scope).find? name).map (Symbol.relabel change) := by
        rw [scope_relabel]
        exact Register.find?_relabel ..
      rw [List.findSome?_cons, List.findSome?_cons, here, inductionHypothesis]
      cases (table.scope scope).find? name <;> rfl

theorem declaredType_relabel (table : ScopeTable) (id : ScopeId) (name : String) :
    (table.relabel change).declaredType id (change.word name) =
      (table.declaredType id name).map change.word := by
  rw [declaredType, lookup_relabel, declaredType, Option.map_map, Option.map_map]
  rfl

end ScopeTable

namespace Session

/-- A session in other words. -/
def relabel (change : Relabelling) (session : Session) : Session :=
  ⟨session.scopes.relabel change, session.current⟩

theorem start_relabel (builtins : List Symbol) :
    start (builtins.map (Symbol.relabel change)) = (start builtins).relabel change :=
  congrArg (Session.mk · _) (ScopeTable.withBuiltins_relabel builtins)

theorem declaredType_relabel (session : Session) (name : String) :
    (session.relabel change).declaredType (change.word name) =
      (session.declaredType name).map change.word :=
  session.scopes.declaredType_relabel session.current name

/-- A step in other words does to a session what the step did, in other words. -/
theorem after_relabel_relabel (session : Session) (step : Step) :
    (session.relabel change).after (step.relabel change) =
      (session.after step).relabel change := by
  have enters (kind : ScopeKind) :
      (session.relabel change).enter kind = (session.enter kind).relabel change :=
    congrArg₂ Session.mk (session.scopes.enter_relabel session.current kind)
      (ScopeTable.size_relabel session.scopes)
  have leaves : (session.relabel change).leave = session.leave.relabel change :=
    congrArg (Session.mk _) (session.scopes.outer_relabel session.current)
  cases step with
  | enter kind => exact enters kind
  | openBlock => exact enters .block
  | leave | closeBlock => exact leaves
  | declare symbol location =>
      exact congrArg (Session.mk · _) (session.scopes.bound_relabel session.current symbol)
  | statement | check | initial => rfl

end Session
end BraceLang
