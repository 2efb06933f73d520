import Mathlib.Logic.Function.Iterate
import BraceLang.Proofs.Scope.Growth

/-!
# The encodings of a table agree

A table says some things more than once: who is inside whom by parents and by children, what
a scope binds by symbols and by an index, what was opened first by numbers and by parents.
`Consistent` lists in what these agree. Symbols and index agree in every register. Parents and
children agree in the table of the root alone, and neither an attempt to bind a symbol nor opening
a scope changes that, in whichever scope it happens. So everything that can be built is consistent,
and every way outward comes to the root.
-/

namespace BraceLang

namespace ScopeTable

variable {table later : ScopeTable} {id parent : ScopeId}

/-- A table comes from `start` by attempts to bind symbols and by opening scopes, each in a scope
that there is at that moment. -/
inductive BuiltFrom (start : ScopeTable) : ScopeTable → Prop where
  | start : BuiltFrom start start
  | bound {table : ScopeTable} {id : ScopeId} (built : BuiltFrom start table)
      (inside : id < table.size) (symbol : Symbol) : BuiltFrom start (table.bound id symbol)
  | enter {table : ScopeTable} {parent : ScopeId} (built : BuiltFrom start table)
      (inside : parent < table.size) (kind : ScopeKind) : BuiltFrom start (table.enter parent kind)

/-- A table comes from the one of the root alone. -/
def Built (table : ScopeTable) : Prop := BuiltFrom empty table

/-- An attempt to bind a symbol either is refused, because its name is bound, and changes nothing,
or puts the symbol behind the others of its scope and changes nothing else. -/
theorem bind_refuses_or_appends (inside : id < table.size) (symbol : Symbol) :
    table.binds id symbol.name = true ∧
        table.bind id symbol = .error ⟨symbol.name⟩ ∧ table.bound id symbol = table ∨
      table.binds id symbol.name = false ∧
        table.bind id symbol = .ok (table.bound id symbol) ∧
        (table.bound id symbol).size = table.size ∧
        (table.bound id symbol).symbols id = table.symbols id ++ [symbol] ∧
        (table.bound id symbol).scope id =
          { table.scope id with register := ((table.bound id symbol).scope id).register } ∧
        ∀ other, other ≠ id → (table.bound id symbol).scope other = table.scope other := by
  cases taken : table.binds id symbol.name with
  | true => exact .inl ⟨rfl, bind_of_binds taken, bound_eq_self taken⟩
  | false =>
      have fresh := binds_eq_false_iff.mp taken
      refine .inr ⟨rfl, ?_, size_bound id symbol, ?_, ?_, fun other apart => ?_⟩
      · rw [bind_of_fresh fresh, bound_of_fresh fresh]
      · rw [symbols_bound inside, if_pos ⟨rfl, taken⟩]
      · exact (scope_bound inside symbol id).trans (if_pos rfl)
      · rw [scope_bound inside, if_neg apart]

/-- Opening a scope puts it behind all others and makes it the last child of its parent. -/
theorem enter_appends (inside : parent < table.size) (kind : ScopeKind) :
    (table.enter parent kind).size = table.size + 1 ∧
      (table.enter parent kind).scope table.size = .opened kind (some parent) ∧
      (table.enter parent kind).scope parent =
        { table.scope parent with children := table.children parent ++ [table.size] } ∧
      ∀ other, other < table.size → other ≠ parent →
        (table.enter parent kind).scope other = table.scope other := by
  refine ⟨size_enter parent kind, ?_, ?_, fun other known apart => ?_⟩
  · rw [scope_enter inside, if_pos rfl]
  · rw [scope_enter inside, if_neg (Nat.ne_of_lt inside), if_pos rfl]
  · rw [scope_enter inside, if_neg (Nat.ne_of_lt known), if_neg apart]

/-- What is built only grows. -/
theorem BuiltFrom.growsTo (built : BuiltFrom table later) : table.GrowsTo later := by
  induction built with
  | start => exact .refl table
  | bound _ inside symbol inductionHypothesis =>
      exact inductionHypothesis.trans (.bound inside symbol)
  | enter _ inside kind inductionHypothesis => exact inductionHypothesis.trans (.enter inside kind)

/-- The scopes of a table are a tree around the root: parents and children say the same, and both
follow the order of the numbers. -/
structure Treelike (table : ScopeTable) : Prop where
  rooted : root < table.size
  orphan : ∀ id < table.size, table.parent? id = none ↔ id = root
  descending : table.Descending
  children : ∀ id child, child ∈ table.children id ↔ table.parent? child = some id
  ascending : ∀ id, (table.children id).Pairwise (· < ·)

/-- What a table says twice it says alike: parents and children, symbols and index, the order of
the numbers and the order of the scopes. -/
structure Consistent (table : ScopeTable) : Prop extends Treelike table where
  distinct : ∀ id, ((table.symbols id).map (·.name)).Nodup
  indexed : ∀ id name slot, (table.scope id).slot? name = some slot ↔
    ((table.symbols id).map (·.name))[slot]? = some name
  binds : ∀ id name, table.binds id name = true ↔ ∃ symbol ∈ table.symbols id, symbol.name = name

namespace Treelike

theorem empty : Treelike empty where
  rooted := Nat.one_pos
  orphan id inside := by
    obtain rfl := Nat.lt_one_iff.mp inside
    simp [root]
  descending id parent found := by simp at found
  children id child := by simp
  ascending id := by simp

theorem enter (treelike : table.Treelike) (inside : parent < table.size) (kind : ScopeKind) :
    (table.enter parent kind).Treelike where
  rooted := by
    rw [size_enter]
    exact Nat.succ_pos _
  orphan id known := by
    rw [size_enter] at known
    rw [parent?_enter inside]
    split_ifs with fresh
    · have below : id ≠ root := fresh ▸ Nat.ne_of_gt treelike.rooted
      simp [below]
    · exact treelike.orphan id (Nat.lt_of_le_of_ne (Nat.le_of_lt_succ known) fresh)
  descending := treelike.descending.enter inside kind
  children id child := by
    have unborn : table.parent? table.size = none := by
      rw [parent?, scope_of_size_le (Nat.le_refl _)]
      rfl
    have absent : table.size ∉ table.children id := by
      rw [treelike.children, unborn]
      exact (Option.some_ne_none id).symm
    rw [children_enter inside, parent?_enter inside]
    by_cases fresh : child = table.size
    · subst fresh
      rw [if_pos rfl, Option.some_inj]
      split_ifs with here
      · simp [here]
      · simp [absent, Ne.symm here]
    · rw [if_neg fresh, ← treelike.children]
      split_ifs
      · simp [fresh]
      · rfl
  ascending id := by
    rw [children_enter inside]
    split_ifs
    · refine List.pairwise_append.mpr ⟨treelike.ascending id, List.pairwise_singleton _ _, ?_⟩
      intro child known other added
      rw [List.mem_singleton.mp added]
      exact lt_size_of_parent? ((treelike.children id child).mp known)
    · exact treelike.ascending id

theorem bound (treelike : table.Treelike) (inside : id < table.size) (symbol : Symbol) :
    (table.bound id symbol).Treelike where
  rooted := by
    rw [size_bound]
    exact treelike.rooted
  orphan other known := by
    rw [size_bound] at known
    rw [parent?_bound inside]
    exact treelike.orphan other known
  descending := treelike.descending.bound inside symbol
  children other child := by
    rw [children_bound inside, parent?_bound inside]
    exact treelike.children other child
  ascending other := by
    rw [children_bound inside]
    exact treelike.ascending other

end Treelike

/-- Every symbol list agrees with its index, so a table is consistent if its scopes are a tree. -/
theorem Treelike.consistent (treelike : table.Treelike) : table.Consistent where
  toTreelike := treelike
  distinct _ := Register.nodup_names _
  indexed _ _ _ := Register.slot?_eq_some_iff
  binds _ _ := Register.binds_iff

/-- Whatever is built from a tree is a tree. -/
theorem BuiltFrom.treelike (built : BuiltFrom table later) (treelike : table.Treelike) :
    later.Treelike := by
  induction built with
  | start => exact treelike
  | bound _ inside symbol inductionHypothesis => exact inductionHypothesis.bound inside symbol
  | enter _ inside kind inductionHypothesis => exact inductionHypothesis.enter inside kind

theorem Built.consistent (built : table.Built) : table.Consistent :=
  (BuiltFrom.treelike built .empty).consistent

/-- Symbols may be bound in a scope one after the other. -/
theorem BuiltFrom.foldl_bound (built : BuiltFrom table later) (inside : id < later.size)
    (symbols : List Symbol) :
    BuiltFrom table (symbols.foldl (fun table symbol => table.bound id symbol) later) := by
  induction symbols generalizing later with
  | nil => exact built
  | cons symbol symbols inductionHypothesis =>
      exact inductionHypothesis (.bound built inside symbol) (by rwa [size_bound])

/-- The scopes of a chain from a scope out to the root, each followed by its parent. -/
structure LeadsOut (table : ScopeTable) (id : ScopeId) (chain : List ScopeId) : Prop where
  starts : chain.head? = some id
  linked : chain.IsChain fun inner outer => table.parent? inner = some outer
  ends : chain.getLast? = some root

namespace Treelike

/-- The way outward comes to the root. -/
theorem leadsOut (treelike : table.Treelike) (inside : id < table.size) :
    table.LeadsOut id (table.path id) where
  starts := by rw [path_eq_cons_around, List.head?_cons]
  linked := treelike.descending.isChain_path id
  ends := by
    obtain ⟨inner, outward, _⟩ := treelike.descending.exists_path_eq
      (fun id inside => (treelike.orphan id inside).mp) inside
    rw [outward, List.getLast?_concat]

/-- Leaving scopes one after the other comes to the root in as many steps as the depth says, and
stays there. -/
theorem outer_iterate_eq_root_iff (treelike : table.Treelike) (inside : id < table.size)
    (steps : Nat) : table.outer^[steps] id = root ↔ table.depth id ≤ steps := by
  induction id using Nat.strongRecOn generalizing steps with
  | ind id inductionHypothesis =>
      cases found : table.parent? id with
      | none =>
          obtain rfl := (treelike.orphan id inside).mp found
          have stays : table.outer root = root := by rw [outer, found, Option.getD_none]
          rw [Function.iterate_fixed stays, depth_eq_length_around, around_of_parent_eq_none found]
          simp
      | some parent =>
          have smaller := treelike.descending found
          have below : id ≠ root := fun same =>
            Option.some_ne_none parent (found.symm.trans ((treelike.orphan id inside).mpr same))
          have leaves : table.outer id = parent := by rw [outer, found, Option.getD_some]
          rw [treelike.descending.depth_of_parent found]
          cases steps with
          | zero => simp [below]
          | succ steps =>
              rw [Function.iterate_succ_apply, leaves, Nat.add_le_add_iff_right]
              exact inductionHypothesis parent smaller (Nat.lt_trans smaller inside) steps

end Treelike

end ScopeTable

namespace Session

variable {session : Session}

theorem built_start (builtins : List Symbol) : (start builtins).scopes.Built :=
  .foldl_bound .start Nat.one_pos builtins

theorem Rooted.built_after (rooted : session.Rooted) (built : session.scopes.Built) (step : Step) :
    (session.after step).scopes.Built := by
  cases step with
  | enter kind => exact .enter built rooted.inside kind
  | openBlock => exact .enter built rooted.inside .block
  | declare symbol _ => exact .bound built rooted.inside symbol
  | leave | closeBlock | statement | check | initial => exact built

/-- Whatever a script opens and declares, its scopes are built from the root alone. -/
theorem Rooted.built_run (rooted : session.Rooted) (built : session.scopes.Built)
    (script : List Step) : (session.run script).scopes.Built := by
  induction script generalizing session with
  | nil => exact built
  | cons step script inductionHypothesis =>
      exact inductionHypothesis (rooted.after step) (rooted.built_after built step)

end Session
end BraceLang
