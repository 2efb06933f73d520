import BraceLang.Proofs.Scope.Consistency
import BraceLang.Scope.Walk

/-!
# A walk goes through the scopes in preorder

In which order the scopes of a table were opened does not matter to a walk: it lists a scope, then
all that is inside its first child, then all that is inside the next one. `preorder` says so by a
recursion over the tree of the scopes. Numbers rise from a scope to its children, so a tree has at
most as many levels as scopes, and what is to be shown of a scope may be taken for granted of its
children.

A walk works off its agenda from the front, and whatever is on the agenda comes out in preorder.
Every scope comes out, since every way outward comes to the root, and none comes out twice, since
no way outward leads through two children of one scope.
-/

namespace BraceLang.ScopeTable

variable {table : ScopeTable} {id child other : ScopeId}

/-- A scope in front of the scopes inside it, down to as many levels. -/
def preorderWithin (table : ScopeTable) : (levels : Nat) → ScopeId → List ScopeId
  | 0, _ => []
  | levels + 1, id => id :: (table.children id).flatMap (table.preorderWithin levels)

/-- A scope in front of all scopes inside it, those inside an earlier child in front of those
inside a later one. -/
def preorder (table : ScopeTable) (id : ScopeId) : List ScopeId :=
  table.preorderWithin table.size id

namespace Treelike

variable (treelike : table.Treelike)
include treelike

theorem lt_of_mem_children (member : child ∈ table.children id) : id < child :=
  treelike.descending ((treelike.children id child).mp member)

theorem lt_size_of_mem_children (member : child ∈ table.children id) : child < table.size :=
  lt_size_of_parent? ((treelike.children id child).mp member)

/-- What holds of a scope whenever it holds of its children holds of all scopes. -/
@[elab_as_elim]
theorem induction_children {motive : (id : ScopeId) → id < table.size → Prop}
    (step : ∀ id inside, (∀ child (member : child ∈ table.children id),
      motive child (treelike.lt_size_of_mem_children member)) → motive id inside)
    (id : ScopeId) (inside : id < table.size) : motive id inside := by
  induction left : table.size - id using Nat.strongRecOn generalizing id with
  | ind _ inductionHypothesis =>
      refine step id inside fun child member => ?_
      subst left
      exact inductionHypothesis _
        (Nat.sub_lt_sub_left inside (treelike.lt_of_mem_children member)) child _ rfl

/-- As many levels as scopes from a scope on are enough; more make no difference. -/
theorem preorderWithin_eq {levels others : Nat} (inside : id < table.size)
    (enough : table.size ≤ id + levels) (alsoEnough : table.size ≤ id + others) :
    table.preorderWithin levels id = table.preorderWithin others id := by
  induction levels generalizing others id with
  | zero => exact absurd inside (Nat.not_lt_of_le enough)
  | succ levels inductionHypothesis =>
      obtain _ | others := others
      · exact absurd inside (Nat.not_lt_of_le alsoEnough)
      rw [preorderWithin, preorderWithin]
      refine congrArg (id :: ·) (List.flatMap_congr fun child member => ?_)
      have deeper (levels : Nat) : id + (levels + 1) ≤ child + levels := by
        rw [← Nat.succ_add_eq_add_succ]
        exact Nat.add_le_add_right (treelike.lt_of_mem_children member) levels
      exact inductionHypothesis (treelike.lt_size_of_mem_children member)
        (enough.trans (deeper levels)) (alsoEnough.trans (deeper others))

/-- In preorder a scope is followed by its children in preorder, the first child first. -/
theorem preorder_eq (inside : id < table.size) :
    table.preorder id = id :: (table.children id).flatMap table.preorder := by
  obtain ⟨levels, size⟩ := Nat.exists_eq_add_one_of_ne_zero (Nat.ne_zero_of_lt inside)
  rw [preorder, size, preorderWithin]
  refine congrArg (id :: ·) (List.flatMap_congr fun child member => ?_)
  have above := Nat.zero_lt_of_lt (treelike.lt_of_mem_children member)
  refine treelike.preorderWithin_eq (treelike.lt_size_of_mem_children member) ?_
    (Nat.le_add_left table.size child)
  rw [size]
  omega

theorem mem_preorder_iff_children (inside : id < table.size) :
    other ∈ table.preorder id ↔
      other = id ∨ ∃ child ∈ table.children id, other ∈ table.preorder child := by
  rw [treelike.preorder_eq inside, List.mem_cons, List.mem_flatMap]

/-- What is on the agenda of a walk comes out in preorder. -/
theorem walkFrom_eq_flatMap {agenda : List ScopeId} {rounds : Nat}
    (inside : ∀ id ∈ agenda, id < table.size)
    (enough : (agenda.flatMap table.preorder).length ≤ rounds) :
    table.walkFrom rounds agenda = agenda.flatMap table.preorder := by
  induction rounds generalizing agenda with
  | zero =>
      rw [List.eq_nil_of_length_eq_zero (Nat.le_zero.mp enough)]
      rfl
  | succ rounds inductionHypothesis =>
      cases agenda with
      | nil => rfl
      | cons id agenda =>
          obtain ⟨here, others⟩ := List.forall_mem_cons.mp inside
          -- The children take the place of their scope, so what is to come out stays the same.
          have same : (id :: agenda).flatMap table.preorder =
              id :: (table.children id ++ agenda).flatMap table.preorder := by
            rw [List.flatMap_cons, treelike.preorder_eq here, List.flatMap_append, List.cons_append]
          rw [same, List.length_cons] at enough
          rw [same, walkFrom, inductionHypothesis _ (Nat.le_of_succ_le_succ enough)]
          exact List.forall_mem_append.mpr
            ⟨fun child member => treelike.lt_size_of_mem_children member, others⟩

/-- What is inside a child of a scope that is listed is listed with it. -/
theorem mem_preorder_of_mem_children (inside : id < table.size)
    (member : other ∈ table.preorder id) (below : child ∈ table.children other) :
    child ∈ table.preorder id := by
  induction id, inside using treelike.induction_children with
  | step id inside inductionHypothesis =>
      rw [treelike.mem_preorder_iff_children inside] at member ⊢
      rcases member with rfl | ⟨between, among, member⟩
      · refine .inr ⟨child, below, ?_⟩
        rw [treelike.mem_preorder_iff_children (treelike.lt_size_of_mem_children below)]
        exact .inl rfl
      · exact .inr ⟨between, among, inductionHypothesis between among member⟩

/-- The scopes listed with a scope are those with it on their way outward. -/
theorem mem_preorder_iff (inside : id < table.size) (known : other < table.size) :
    other ∈ table.preorder id ↔ id ∈ table.path other := by
  constructor
  · intro member
    induction id, inside using treelike.induction_children with
    | step id inside inductionHypothesis =>
        rw [treelike.mem_preorder_iff_children inside] at member
        rcases member with rfl | ⟨child, among, member⟩
        · exact mem_path_self other
        · -- The way outward comes through the child, and goes on to the scope itself.
          have through := inductionHypothesis child among member
          have found := (treelike.children id child).mp among
          have onward := (treelike.descending.path_suffix through).subset
          rw [treelike.descending.path_of_parent found] at onward
          exact onward (List.mem_cons_of_mem _ (mem_path_self id))
  · intro around
    induction other using Nat.strongRecOn with
    | ind other inductionHypothesis =>
        cases found : table.parent? other with
        | none =>
            rw [path_of_parent_eq_none found, List.mem_singleton] at around
            rw [treelike.mem_preorder_iff_children inside]
            exact .inl around.symm
        | some parent =>
            rw [treelike.descending.path_of_parent found, List.mem_cons] at around
            rcases around with rfl | around
            · rw [treelike.mem_preorder_iff_children inside]
              exact .inl rfl
            · have smaller := treelike.descending found
              have member :=
                inductionHypothesis parent smaller (Nat.lt_trans smaller known) around
              exact treelike.mem_preorder_of_mem_children inside member
                ((treelike.children parent other).mpr found)

theorem lt_size_of_mem_preorder (inside : id < table.size) (member : other ∈ table.preorder id) :
    other < table.size := by
  induction id, inside using treelike.induction_children with
  | step id inside inductionHypothesis =>
      rw [treelike.mem_preorder_iff_children inside] at member
      rcases member with rfl | ⟨child, among, member⟩
      · exact inside
      · exact inductionHypothesis child among member

/-- A way outward that leads through two children of one scope leads twice through the same. -/
theorem eq_of_mem_path {parent second : ScopeId} (around : child ∈ table.path other)
    (alsoAround : second ∈ table.path other) (found : table.parent? child = some parent)
    (alsoFound : table.parent? second = some parent) : child = second := by
  -- The one that comes first is followed by the parent, and no child has so small a number.
  have follows {first last : ScopeId} (found : table.parent? first = some parent)
      (alsoFound : table.parent? last = some parent) (further : last ∈ table.path first) :
      first = last := by
    rw [treelike.descending.path_of_parent found, List.mem_cons] at further
    refine further.elim Eq.symm fun beyond => ?_
    have small := treelike.descending.le_of_mem_path beyond
    exact absurd (treelike.descending alsoFound) (Nat.not_lt_of_le small)
  obtain ⟨front, split⟩ := treelike.descending.path_suffix around
  obtain ⟨back, alsoSplit⟩ := treelike.descending.path_suffix alsoAround
  rcases List.suffix_or_suffix_of_suffix ⟨front, split⟩ ⟨back, alsoSplit⟩ with inner | outer
  · exact (follows alsoFound found (inner.subset (mem_path_self child))).symm
  · exact follows found alsoFound (outer.subset (mem_path_self second))

/-- No scope is listed twice. -/
theorem nodup_preorder (inside : id < table.size) : (table.preorder id).Nodup := by
  induction id, inside using treelike.induction_children with
  | step id inside inductionHypothesis =>
      have known {child : ScopeId} (member : child ∈ table.children id) :=
        treelike.lt_size_of_mem_children member
      rw [treelike.preorder_eq inside, List.nodup_cons, List.nodup_flatMap]
      refine ⟨fun member => ?_, inductionHypothesis, ?_⟩
      · obtain ⟨child, among, member⟩ := List.mem_flatMap.mp member
        have around := (treelike.mem_preorder_iff (known among) inside).mp member
        exact absurd (treelike.lt_of_mem_children among)
          (Nat.not_lt_of_le (treelike.descending.le_of_mem_path around))
      · refine (treelike.ascending id).imp_of_mem fun {first second} among alsoAmong apart => ?_
        refine List.disjoint_left.mpr fun other member alsoMember => ?_
        have inside := treelike.lt_size_of_mem_preorder (known among) member
        refine Nat.ne_of_lt apart (treelike.eq_of_mem_path
          ((treelike.mem_preorder_iff (known among) inside).mp member)
          ((treelike.mem_preorder_iff (known alsoAmong) inside).mp alsoMember)
          ((treelike.children id first).mp among) ((treelike.children id second).mp alsoAmong))

/-- The preorder of the root are all scopes, in some order. -/
theorem perm_preorder_root : (table.preorder root).Perm (List.range table.size) := by
  refine (List.perm_ext_iff_of_nodup (treelike.nodup_preorder treelike.rooted)
    List.nodup_range).mpr fun id => ?_
  rw [List.mem_range]
  refine ⟨treelike.lt_size_of_mem_preorder treelike.rooted, fun inside => ?_⟩
  rw [treelike.mem_preorder_iff treelike.rooted inside]
  exact List.mem_of_getLast? (treelike.leadsOut inside).ends

end Treelike

/-- In every table that is built from the root alone, in whichever scopes the others were opened,
a walk is the preorder of the root: each scope in front of what is inside its children, taken in
the order of their opening. With as many rounds as there are scopes its agenda is empty, so that
more rounds list nothing more, and it has listed every scope once. -/
theorem walk_eq_preorder {table : ScopeTable} (built : table.Built) :
    (∀ id < table.size,
      table.preorder id = id :: (table.children id).flatMap table.preorder ∧
        (table.children id).Pairwise (· < ·)) ∧
      table.walk = table.preorder root ∧
      (∀ rounds, table.size ≤ rounds → table.walkFrom rounds [root] = table.walk) ∧
      table.walk.Nodup ∧ ∀ id, id ∈ table.walk ↔ id < table.size := by
  have treelike := built.consistent.toTreelike
  have all := treelike.perm_preorder_root
  have whole : [root].flatMap table.preorder = table.preorder root := List.flatMap_singleton ..
  have enough : ([root].flatMap table.preorder).length = table.size := by
    rw [whole, all.length_eq, List.length_range]
  have worked (rounds : Nat) (more : table.size ≤ rounds) :
      table.walkFrom rounds [root] = table.preorder root := by
    rw [treelike.walkFrom_eq_flatMap (List.forall_mem_singleton.mpr treelike.rooted)
      (enough.trans_le more), whole]
  have walked : table.walk = table.preorder root := worked table.size (Nat.le_refl _)
  refine ⟨fun id inside => ⟨treelike.preorder_eq inside, treelike.ascending id⟩, walked,
    fun rounds more => (worked rounds more).trans walked.symm, ?_, fun id => ?_⟩
  · rw [walked]
    exact treelike.nodup_preorder treelike.rooted
  · rw [walked, all.mem_iff, List.mem_range]

/-- A scope that is opened last inside the one that was opened first. -/
theorem walk_eq_preorder_late :
    let table := (((empty.enter 0 .block).enter 0 .classBody).enter 2 .methodBody).enter 1 .block
    table.Built ∧ table.preorder 1 = [1, 4] ∧ table.walk = [0, 1, 4, 2, 3] ∧
      table.walk = table.preorder root ∧ table.walk.Nodup ∧ 3 ∈ table.walk := by
  intro table
  have built : table.Built := by
    refine .enter (.enter (.enter (.enter .start ?_ _) ?_ _) ?_ _) ?_ _ <;> decide
  obtain ⟨_, walked, _, distinct, all⟩ := walk_eq_preorder built
  exact ⟨built, by decide, by decide, walked, distinct, (all 3).mpr (by decide)⟩

end BraceLang.ScopeTable
