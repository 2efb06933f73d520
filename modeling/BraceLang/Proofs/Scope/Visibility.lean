import BraceLang.Proofs.Scope.Consistency

/-!
# What is visible in a scope

Looking up a name goes outward and stops at the first scope that binds it. The list of what is
visible is made the other way round, from the root inward, and goes on to the end: a symbol takes
over the place of an earlier one of its name. The two agree, since the last symbol of a name on
the way inward is the first one on the way outward.
-/

namespace BraceLang.ScopeTable

variable {table : ScopeTable} {id : ScopeId}

/-- The visible names are those on the way from the root inward, each where it first comes. -/
theorem names_visible (table : ScopeTable) (id : ScopeId) :
    (table.visible id).map (·.name) =
      (((table.path id).reverse.flatMap table.symbols).map (·.name)).eraseDups :=
  Register.names_foldl_put _

/-- No name is visible twice. -/
theorem nodup_visible (table : ScopeTable) (id : ScopeId) :
    ((table.visible id).map (·.name)).Nodup :=
  Register.nodup_names _

/-- The symbols of a scope are of different names, so it does not matter from which end they are
searched. -/
theorem find?_eq_find?_reverse (table : ScopeTable) (id : ScopeId) (name : String) :
    (table.scope id).find? name = (table.symbols id).reverse.find? (·.name = name) :=
  Register.find?_eq_of_mem_iff fun _ => List.mem_reverse

/-- A name means what it means in the list of what is visible. -/
theorem lookup_eq_find?_visible (table : ScopeTable) (id : ScopeId) (name : String) :
    table.lookup id name = (table.visible id).find? (·.name = name) := by
  have outward : ((table.path id).reverse.flatMap table.symbols).reverse =
      (table.path id).flatMap fun scope => (table.symbols scope).reverse := by
    rw [List.reverse_flatMap, List.reverse_reverse]
    rfl
  calc table.lookup id name
    _ = (table.path id).findSome? fun scope =>
          (table.symbols scope).reverse.find? (·.name = name) := by
      simp only [lookup, find?_eq_find?_reverse]
    _ = ((table.path id).reverse.flatMap table.symbols).reverse.find? (·.name = name) := by
      rw [outward, List.find?_flatMap]
    _ = (table.visible id).find? (·.name = name) := by
      rw [← Register.find?_foldl_put, Register.find?_eq, visible]

theorem lookup_eq_some_iff_mem_visible {name : String} {symbol : Symbol} :
    table.lookup id name = some symbol ↔ symbol ∈ table.visible id ∧ symbol.name = name := by
  rw [lookup_eq_find?_visible, visible, ← Register.find?_eq]
  exact Register.find?_eq_some_iff

theorem lookup_eq_none_iff_visible {name : String} :
    table.lookup id name = none ↔ ∀ symbol ∈ table.visible id, symbol.name ≠ name := by
  rw [lookup_eq_find?_visible, List.find?_eq_none]
  simp

/-- In every table that is built from the root alone, what is visible in a scope agrees with what
names mean there: no name is visible twice, a name means the visible symbol of that name, and it
means nothing if there is none. The names come in the order in which they first come on the way
from the root to the scope; so an inner binding stands in the place of the outermost one of its
name. -/
theorem visible_agrees_with_lookup {table : ScopeTable} (built : table.Built) (id : ScopeId)
    (inside : id < table.size) :
    ((table.visible id).map (·.name)).Nodup ∧
      (∀ name symbol, table.lookup id name = some symbol ↔
        symbol ∈ table.visible id ∧ symbol.name = name) ∧
      (∀ name, table.lookup id name = none ↔
        ∀ symbol ∈ table.visible id, symbol.name ≠ name) ∧
      ∃ chain, table.LeadsOut id chain ∧
        (table.visible id).map (·.name) =
          ((chain.reverse.flatMap table.symbols).map (·.name)).eraseDups :=
  ⟨nodup_visible table id, fun _ _ => lookup_eq_some_iff_mem_visible,
    fun _ => lookup_eq_none_iff_visible,
    table.path id, built.consistent.leadsOut inside, names_visible table id⟩

/-- One name bound on three levels, with others before and behind it: the innermost symbol stands
in the place of the outermost one. -/
theorem visible_agrees_with_lookup_thrice :
    let innermost : Symbol := ⟨"x", "String", .parameter⟩
    let outer := (empty.bound 0 ⟨"a", "int", .variable⟩).bound 0 ⟨"x", "int", .variable⟩
    let between := ((outer.enter 0 .classBody).bound 1 ⟨"b", "int", .variable⟩).bound 1
      ⟨"x", "double", .variable⟩
    let table := ((between.enter 1 .block).bound 2 innermost).bound 2 ⟨"a", "double", .variable⟩
    table.Built ∧ table.lookup 2 "x" = some innermost ∧ table.lookup 2 "y" = none ∧
      (table.visible 2).map (·.name) = ["a", "x", "b"] ∧
      ((table.visible 2).map (·.name)).Nodup ∧
      ∃ chain, table.LeadsOut 2 chain ∧
        ["a", "x", "b"] = ((chain.reverse.flatMap table.symbols).map (·.name)).eraseDups := by
  intro innermost outer between table
  have built : table.Built := by
    refine .bound (.bound (.enter (.bound (.bound (.enter (.bound (.bound .start ?_ _) ?_ _)
      ?_ _) ?_ _) ?_ _) ?_ _) ?_ _) ?_ _ <;> decide
  obtain ⟨distinct, means, silent, order⟩ := visible_agrees_with_lookup built 2 (by decide)
  have names : (table.visible 2).map (·.name) = ["a", "x", "b"] := by decide
  rw [names] at order
  exact ⟨built, (means "x" innermost).mpr ⟨by decide, rfl⟩, (silent "y").mpr (by decide), names,
    distinct, order⟩

end BraceLang.ScopeTable
