import BraceLang.Proofs.Scope.Table
import BraceLang.Scope.Resolution

/-!
# The way outward

In a table that scopes are only added to, a parent has a smaller number than its
children. So the way from a scope to the root is never cut short, and it is that of the
parent with the scope in front. Neither binding a symbol nor opening a scope changes the
way outward from a scope that exists.
-/

namespace BraceLang.ScopeTable

variable {table : ScopeTable}

/-- A parent has a smaller number than its children. -/
def Descending (table : ScopeTable) : Prop :=
  ∀ ⦃id parent⦄, table.parent? id = some parent → parent < id

theorem Descending.enter {parent : ScopeId} (descending : table.Descending)
    (inside : parent < table.size) (kind : ScopeKind) : (table.enter parent kind).Descending := by
  intro id outer found
  rw [parent?_enter inside] at found
  split_ifs at found with fresh
  · cases found
    exact fresh ▸ inside
  · exact descending found

theorem Descending.bound {id : ScopeId} (descending : table.Descending)
    (inside : id < table.size) (symbol : Symbol) : (table.bound id symbol).Descending := by
  intro other outer found
  rw [parent?_bound inside] at found
  exact descending found

/-- The way outward is a matter of parents alone. -/
theorem path_congr {other : ScopeTable} (same : ∀ id, other.parent? id = table.parent? id)
    (id : ScopeId) : other.path id = table.path id := by
  have outward_congr (steps : Nat) (id : ScopeId) :
      other.outward steps id = table.outward steps id := by
    induction steps generalizing id with
    | zero => rfl
    | succ steps inductionHypothesis => simp only [outward, same, inductionHypothesis]
  exact outward_congr id id

/-- As many steps as the number of the scope are enough; more make no difference. -/
theorem Descending.outward_eq (descending : table.Descending) {steps others : Nat} {id : ScopeId}
    (enough : id ≤ steps) (alsoEnough : id ≤ others) :
    table.outward steps id = table.outward others id := by
  have root : table.parent? 0 = none :=
    Option.eq_none_iff_forall_ne_some.mpr fun parent found => Nat.not_lt_zero _ (descending found)
  induction steps generalizing others id with
  | zero =>
      obtain rfl : id = 0 := Nat.le_zero.mp enough
      cases others with
      | zero => rfl
      | succ others => rw [outward, outward, root]
  | succ steps inductionHypothesis =>
      cases others with
      | zero =>
          obtain rfl : id = 0 := Nat.le_zero.mp alsoEnough
          rw [outward, outward, root]
      | succ others =>
          cases found : table.parent? id with
          | none => rw [outward, outward, found]
          | some parent =>
              have smaller := descending found
              have same : table.outward steps parent = table.outward others parent :=
                inductionHypothesis (Nat.le_of_lt_succ (Nat.lt_of_lt_of_le smaller enough))
                  (Nat.le_of_lt_succ (Nat.lt_of_lt_of_le smaller alsoEnough))
              simp only [outward, found, same]

theorem path_of_parent_eq_none {id : ScopeId} (found : table.parent? id = none) :
    table.path id = [id] := by
  rw [path]
  cases id with
  | zero => rfl
  | succ id => rw [outward, found]

/-- The way outward from a scope is that from its parent with the scope in front. -/
theorem Descending.path_of_parent {id parent : ScopeId} (descending : table.Descending)
    (found : table.parent? id = some parent) : table.path id = id :: table.path parent := by
  have smaller := descending found
  cases id with
  | zero => exact absurd smaller (Nat.not_lt_zero _)
  | succ id =>
      have same := descending.outward_eq (Nat.le_of_lt_succ smaller) (Nat.le_refl parent)
      simp only [path, outward, found, same]

/-- The scopes around a scope, from the inside out. -/
def around (table : ScopeTable) (id : ScopeId) : List ScopeId := (table.path id).tail

theorem path_eq_cons_around (id : ScopeId) : table.path id = id :: table.around id := by
  rw [around, path]
  cases id with
  | zero => rfl
  | succ id =>
      rw [outward]
      split <;> rfl

@[simp] theorem mem_path_self (id : ScopeId) : id ∈ table.path id := by
  rw [path_eq_cons_around]
  exact List.mem_cons_self

theorem around_of_parent_eq_none {id : ScopeId} (found : table.parent? id = none) :
    table.around id = [] := by
  rw [around, path_of_parent_eq_none found, List.tail_cons]

theorem Descending.around_of_parent {id parent : ScopeId} (descending : table.Descending)
    (found : table.parent? id = some parent) :
    table.around id = parent :: table.around parent := by
  rw [around, descending.path_of_parent found, List.tail_cons, path_eq_cons_around]

/-- On the way outward every scope is followed by its parent. -/
theorem Descending.isChain_path (descending : table.Descending) (id : ScopeId) :
    (table.path id).IsChain fun inner outer => table.parent? inner = some outer := by
  induction id using Nat.strongRecOn with
  | ind id inductionHypothesis =>
      cases found : table.parent? id with
      | none =>
          rw [path_of_parent_eq_none found]
          exact .singleton id
      | some parent =>
          have further := inductionHypothesis parent (descending found)
          rw [path_eq_cons_around] at further
          rw [descending.path_of_parent found, path_eq_cons_around]
          exact .cons_cons found further

/-- The way outward from a scope on the way outward is the rest of that way. -/
theorem Descending.path_suffix (descending : table.Descending) {id other : ScopeId}
    (member : other ∈ table.path id) : table.path other <:+ table.path id := by
  induction id using Nat.strongRecOn with
  | ind id inductionHypothesis =>
      rw [path_eq_cons_around, List.mem_cons] at member
      rcases member with rfl | around
      · exact List.suffix_refl _
      cases found : table.parent? id with
      | none =>
          rw [around_of_parent_eq_none found] at around
          exact absurd around List.not_mem_nil
      | some parent =>
          rw [descending.around_of_parent found, ← path_eq_cons_around] at around
          rw [descending.path_of_parent found]
          exact (inductionHypothesis parent (descending found) around).trans (List.suffix_cons ..)

theorem depth_eq_length_around (id : ScopeId) : table.depth id = (table.around id).length := by
  rw [depth, around, List.length_tail]

/-- A scope lies one deeper than its parent. -/
theorem Descending.depth_of_parent {id parent : ScopeId} (descending : table.Descending)
    (found : table.parent? id = some parent) : table.depth id = table.depth parent + 1 := by
  rw [depth_eq_length_around, descending.around_of_parent found, List.length_cons,
    depth_eq_length_around]

/-- A name that a scope does not bind itself means there what it means in the parent. -/
theorem Descending.lookup_eq (descending : table.Descending) (id : ScopeId) (name : String) :
    table.lookup id name =
      ((table.scope id).find? name).or
        ((table.parent? id).bind fun parent => table.lookup parent name) := by
  cases found : table.parent? id with
  | none =>
      rw [lookup, path_of_parent_eq_none found]
      simp
  | some parent =>
      rw [lookup, descending.path_of_parent found, List.findSome?_cons, Option.bind_some, lookup]
      cases (table.scope id).find? name <;> rfl

/-- The scopes around a scope have smaller numbers. -/
theorem Descending.lt_of_mem_around (descending : table.Descending) {id other : ScopeId}
    (member : other ∈ table.around id) : other < id := by
  induction id using Nat.strongRecOn with
  | ind id inductionHypothesis =>
      cases found : table.parent? id with
      | none =>
          rw [around_of_parent_eq_none found] at member
          exact absurd member List.not_mem_nil
      | some parent =>
          have smaller := descending found
          rw [descending.around_of_parent found] at member
          rcases List.mem_cons.mp member with rfl | further
          · exact smaller
          · exact Nat.lt_trans (inductionHypothesis parent smaller further) smaller

theorem Descending.le_of_mem_path (descending : table.Descending) {id other : ScopeId}
    (member : other ∈ table.path id) : other ≤ id := by
  rw [path_eq_cons_around, List.mem_cons] at member
  exact member.elim Nat.le_of_eq fun around => Nat.le_of_lt (descending.lt_of_mem_around around)

/-- Numbers fall on the way outward. -/
theorem Descending.pairwise_path (descending : table.Descending) (id : ScopeId) :
    (table.path id).Pairwise (· > ·) :=
  List.isChain_iff_pairwise.mp ((descending.isChain_path id).imp fun _ _ found => descending found)

/-- If only the root has no parent, every way outward ends at the root and comes to it nowhere
else. -/
theorem Descending.exists_path_eq (descending : table.Descending)
    (orphans : ∀ id < table.size, table.parent? id = none → id = root) {id : ScopeId}
    (inside : id < table.size) : ∃ inner, table.path id = inner ++ [root] ∧ root ∉ inner := by
  induction id using Nat.strongRecOn with
  | ind id inductionHypothesis =>
      cases found : table.parent? id with
      | none =>
          obtain rfl := orphans id inside found
          exact ⟨[], path_of_parent_eq_none found, List.not_mem_nil⟩
      | some parent =>
          have smaller := descending found
          obtain ⟨inner, outward, absent⟩ :=
            inductionHypothesis parent smaller (Nat.lt_trans smaller inside)
          refine ⟨id :: inner, ?_, ?_⟩
          · rw [descending.path_of_parent found, outward, List.cons_append]
          · rw [List.mem_cons, not_or]
            exact ⟨Nat.ne_of_lt (Nat.lt_of_le_of_lt (Nat.zero_le parent) smaller), absent⟩

/-- The way outward only depends on the parents of the scopes up to its start. -/
theorem Descending.around_congr {changed : ScopeTable} (descending : table.Descending)
    (changedDescending : changed.Descending) {id : ScopeId}
    (same : ∀ other ≤ id, changed.parent? other = table.parent? other) :
    changed.around id = table.around id := by
  induction id using Nat.strongRecOn with
  | ind id inductionHypothesis =>
      have kept := same id (Nat.le_refl id)
      cases found : table.parent? id with
      | none => rw [around_of_parent_eq_none found, around_of_parent_eq_none (kept.trans found)]
      | some parent =>
          have smaller := descending found
          rw [descending.around_of_parent found,
            changedDescending.around_of_parent (kept.trans found),
            inductionHypothesis parent smaller fun other below =>
              same other (Nat.le_trans below (Nat.le_of_lt smaller))]

theorem Descending.around_enter {parent id : ScopeId} (descending : table.Descending)
    (inside : parent < table.size) (kind : ScopeKind) (known : id < table.size) :
    (table.enter parent kind).around id = table.around id := by
  refine descending.around_congr (descending.enter inside kind) fun other below => ?_
  rw [parent?_enter inside, if_neg (Nat.ne_of_lt (Nat.lt_of_le_of_lt below known))]

theorem Descending.around_entered {parent : ScopeId} (descending : table.Descending)
    (inside : parent < table.size) (kind : ScopeKind) :
    (table.enter parent kind).around table.size = parent :: table.around parent := by
  have opened : (table.enter parent kind).parent? table.size = some parent := by
    rw [parent?_enter inside, if_pos rfl]
  rw [(descending.enter inside kind).around_of_parent opened,
    descending.around_enter inside kind inside]

theorem Descending.around_bound {id : ScopeId} (descending : table.Descending)
    (inside : id < table.size) (symbol : Symbol) (other : ScopeId) :
    (table.bound id symbol).around other = table.around other :=
  descending.around_congr (descending.bound inside symbol) fun _ _ => parent?_bound inside symbol _

theorem Descending.path_enter {parent id : ScopeId} (descending : table.Descending)
    (inside : parent < table.size) (kind : ScopeKind) (known : id < table.size) :
    (table.enter parent kind).path id = table.path id := by
  rw [path_eq_cons_around, descending.around_enter inside kind known, ← path_eq_cons_around]

theorem path_bound {id : ScopeId} (inside : id < table.size) (symbol : Symbol) (other : ScopeId) :
    (table.bound id symbol).path other = table.path other :=
  path_congr (parent?_bound inside symbol) other

end BraceLang.ScopeTable
