import Mathlib.Tactic.SplitIfs
import BraceLang.Proofs.Resolution.Frames

/-!
# Scopes only grow

Carrying out a script opens scopes, and adds symbols and children at the end of those
there are. What a scope held before it holds afterwards, in the same order. Nor is anything
that was found wrong taken back.

A table may have grown at one scope only. As long as that one binds nothing more, names mean
what they meant in all scopes that there were.
-/

namespace BraceLang

namespace ScopeTable

/-- Every scope of a table is in another one, with the same region and parent and at least its
symbols and children, those first. -/
structure GrowsTo (table grown : ScopeTable) : Prop where
  size : table.size ≤ grown.size
  kind : ∀ id < table.size, grown.kind id = table.kind id
  parent : ∀ id < table.size, grown.parent? id = table.parent? id
  symbols : ∀ id < table.size, table.symbols id <+: grown.symbols id
  children : ∀ id < table.size, table.children id <+: grown.children id

namespace GrowsTo

variable {table grown last : ScopeTable}

theorem refl (table : ScopeTable) : table.GrowsTo table where
  size := Nat.le_refl _
  kind _ _ := rfl
  parent _ _ := rfl
  symbols _ _ := List.prefix_refl _
  children _ _ := List.prefix_refl _

theorem trans (first : table.GrowsTo grown) (second : grown.GrowsTo last) :
    table.GrowsTo last where
  size := Nat.le_trans first.size second.size
  kind id inside :=
    (second.kind id (Nat.lt_of_lt_of_le inside first.size)).trans (first.kind id inside)
  parent id inside :=
    (second.parent id (Nat.lt_of_lt_of_le inside first.size)).trans (first.parent id inside)
  symbols id inside :=
    (first.symbols id inside).trans (second.symbols id (Nat.lt_of_lt_of_le inside first.size))
  children id inside :=
    (first.children id inside).trans (second.children id (Nat.lt_of_lt_of_le inside first.size))

theorem enter {parent : ScopeId} (inside : parent < table.size) (kind : ScopeKind) :
    table.GrowsTo (table.enter parent kind) where
  size := by
    rw [size_enter]
    exact Nat.le_succ _
  kind id known := by rw [kind_enter inside, if_neg (Nat.ne_of_lt known)]
  parent id known := by rw [parent?_enter inside, if_neg (Nat.ne_of_lt known)]
  symbols id _ := by simp only [symbols_enter inside, List.prefix_rfl]
  children id _ := by
    rw [children_enter inside]
    split_ifs
    · exact List.prefix_append _ _
    · exact List.prefix_refl _

theorem bound {id : ScopeId} (inside : id < table.size) (symbol : Symbol) :
    table.GrowsTo (table.bound id symbol) where
  size := Nat.le_of_eq (size_bound id symbol).symm
  kind other _ := kind_bound inside symbol other
  parent other _ := parent?_bound inside symbol other
  symbols other _ := by
    rw [symbols_bound inside]
    split_ifs with same
    · rw [same.1]
      exact List.prefix_append _ _
    · exact List.prefix_refl _
  children other _ := by simp only [children_bound inside, List.prefix_rfl]

end GrowsTo

/-- A table has grown at one of its scopes: of the others nothing has changed, and the scopes
that were added are inside that one. -/
structure GrowsAt (own : ScopeId) (table grown : ScopeTable) : Prop where
  grows : table.GrowsTo grown
  others : ∀ id < table.size, id ≠ own → grown.scope id = table.scope id
  inside : ∀ id, table.size ≤ id → id < grown.size → own ∈ grown.around id

namespace GrowsAt

variable {table grown : ScopeTable} {own id : ScopeId}

theorem refl (own : ScopeId) (table : ScopeTable) : GrowsAt own table table where
  grows := .refl table
  others _ _ _ := rfl
  inside _ added known := absurd known (Nat.not_lt_of_le added)

/-- Where the table grows is not among the other scopes that there were. -/
theorem apart {other : ScopeId} (here : id = own ∨ table.size ≤ id) (known : other < table.size)
    (different : other ≠ own) : other ≠ id := by
  rintro rfl
  exact here.elim different fun added => Nat.not_lt_of_le added known

/-- A scope is opened in the one at which the table grows or in one that was added. -/
theorem enter (grows : GrowsAt own table grown) (descending : grown.Descending)
    (inside : id < grown.size) (here : id = own ∨ table.size ≤ id) (kind : ScopeKind) :
    GrowsAt own table (grown.enter id kind) where
  grows := grows.grows.trans (.enter inside kind)
  others other known different := by
    have old : other ≠ grown.size := Nat.ne_of_lt (Nat.lt_of_lt_of_le known grows.grows.size)
    rw [scope_enter inside, if_neg old, if_neg (apart here known different),
      grows.others other known different]
  inside other added known := by
    rw [size_enter] at known
    by_cases fresh : other = grown.size
    · rw [fresh, descending.around_entered inside, List.mem_cons]
      exact here.imp Eq.symm fun added => grows.inside id added inside
    · have old : other < grown.size := by omega
      rw [descending.around_enter inside kind old]
      exact grows.inside other added old

/-- A symbol is bound in the scope at which the table grows or in one that was added. -/
theorem bound (grows : GrowsAt own table grown) (descending : grown.Descending)
    (inside : id < grown.size) (here : id = own ∨ table.size ≤ id) (symbol : Symbol) :
    GrowsAt own table (grown.bound id symbol) where
  grows := grows.grows.trans (.bound inside symbol)
  others other known different := by
    rw [scope_bound inside, if_neg (apart here known different),
      grows.others other known different]
  inside other added known := by
    rw [size_bound] at known
    rw [descending.around_bound inside]
    exact grows.inside other added known

/-- As long as the scope at which a table grows binds nothing more, names mean what they meant in
every scope there was. -/
theorem lookup_eq (grows : GrowsAt own table grown) (descending : table.Descending)
    (grownDescending : grown.Descending) (kept : grown.symbols own = table.symbols own)
    (known : id < table.size) (name : String) : grown.lookup id name = table.lookup id name := by
  have outward : grown.path id = table.path id := by
    rw [path_eq_cons_around, path_eq_cons_around]
    congr 1
    exact descending.around_congr grownDescending fun other below =>
      grows.grows.parent other (Nat.lt_of_le_of_lt below known)
  have same : (table.path id).map grown.symbols = (table.path id).map table.symbols := by
    refine List.map_congr_left fun other member => ?_
    have old : other < table.size := by
      rw [path_eq_cons_around, List.mem_cons] at member
      rcases member with rfl | around
      · exact known
      · exact Nat.lt_trans (descending.lt_of_mem_around around) known
    by_cases here : other = own
    · rw [here, kept]
    · rw [symbols, grows.others other old here, symbols]
  rw [lookup_eq_findSome, lookup_eq_findSome, outward, same]

end GrowsAt
end ScopeTable

namespace Session

theorem run_append (session : Session) (front back : List Step) :
    session.run (front ++ back) = (session.run front).run back :=
  List.foldl_append

theorem diagnostics_append (session : Session) (front back : List Step) :
    session.diagnostics (front ++ back) =
      session.diagnostics front ++ (session.run front).diagnostics back := by
  induction front generalizing session with
  | nil => rfl
  | cons step front inductionHypothesis =>
      rw [List.cons_append, diagnostics, diagnostics, inductionHypothesis, List.append_assoc]
      rfl

end Session

namespace Session.Rooted

variable {session : Session}

theorem grows_after (rooted : session.Rooted) (step : Step) :
    session.scopes.GrowsTo (session.after step).scopes := by
  cases step with
  | enter kind => exact .enter rooted.inside kind
  | openBlock => exact .enter rooted.inside .block
  | declare symbol _ => exact .bound rooted.inside symbol
  | _ => exact .refl _

theorem run (rooted : session.Rooted) (script : List Step) : (session.run script).Rooted := by
  induction script generalizing session with
  | nil => exact rooted
  | cons step script inductionHypothesis => exact inductionHypothesis (rooted.after step)

/-- No script takes anything out of a scope. -/
theorem grows_run (rooted : session.Rooted) (script : List Step) :
    session.scopes.GrowsTo (session.run script).scopes := by
  induction script generalizing session with
  | nil => exact .refl _
  | cons step script inductionHypothesis =>
      exact (rooted.grows_after step).trans (inductionHypothesis (rooted.after step))

end Session.Rooted
end BraceLang
