import BraceLang.Proofs.Analysis
import BraceLang.Proofs.Scope.Consistency
import BraceLang.Scope.Walk

/-!
# Scopes are numbered as they are walked

A script never comes back to a scope that it has left. So it opens every scope in the one that
was opened just before or in one around that, and the scope it is in is always on the way outward
from the last one. If a table was built like this, then behind each scope that a walk lists the
agenda begins with the scope of the next number.
-/

namespace BraceLang

namespace ScopeTable

variable {table : ScopeTable} {id parent : ScopeId}

/-- Every scope but the first was opened in the one before it or in one around that. -/
def OpenedInTurn (table : ScopeTable) : Prop :=
  ∀ id, id + 1 < table.size → ∃ parent ∈ table.path id, table.parent? (id + 1) = some parent

namespace OpenedInTurn

/-- Opening a scope on the way outward from the last one keeps the order. -/
theorem enter (inTurn : table.OpenedInTurn) (descending : table.Descending)
    (inside : parent < table.size) (around : parent ∈ table.path (table.size - 1))
    (kind : ScopeKind) : (table.enter parent kind).OpenedInTurn := by
  intro id next
  rw [size_enter] at next
  have known := Nat.lt_of_succ_lt_succ next
  rw [descending.path_enter inside kind known, parent?_enter inside]
  split_ifs with last
  · obtain rfl : id = table.size - 1 := Nat.eq_sub_of_add_eq last
    exact ⟨parent, around, rfl⟩
  · exact inTurn id (Nat.lt_of_le_of_ne known last)

theorem bound (inTurn : table.OpenedInTurn) (inside : id < table.size) (symbol : Symbol) :
    (table.bound id symbol).OpenedInTurn := by
  intro other next
  rw [size_bound] at next
  rw [path_bound inside, parent?_bound inside]
  exact inTurn other next

/-- A scope that is around a later one is around all those between. -/
theorem mem_path_of_le (inTurn : table.OpenedInTurn) (descending : table.Descending)
    {later other : ScopeId} (between : id ≤ later) (inside : later < table.size)
    (before : other ≤ id) (around : other ∈ table.path later) : other ∈ table.path id := by
  -- One scope further the way outward is that scope and a rest of the way from the one before.
  induction between with
  | refl => exact around
  | @step later between inductionHypothesis =>
      obtain ⟨parent, member, found⟩ := inTurn later inside
      rw [descending.path_of_parent found, List.mem_cons] at around
      have apart : other ≠ later + 1 :=
        Nat.ne_of_lt (Nat.lt_succ_of_le (Nat.le_trans before between))
      exact inductionHypothesis (Nat.lt_of_succ_lt inside)
        ((descending.path_suffix member).subset (around.resolve_left apart))

/-- A scope in which more is opened later on is not left when the next one is opened: it is on the
way outward from the parent of that one. -/
theorem mem_path_of_child (inTurn : table.OpenedInTurn) (descending : table.Descending)
    (next : table.parent? (id + 1) = some parent) {outer child : ScopeId}
    (around : outer ∈ table.path id) (opened : table.parent? child = some outer)
    (later : id < child) : outer ∈ table.path parent := by
  obtain _ | last := child
  · exact absurd later (Nat.not_lt_zero id)
  rcases Nat.eq_or_lt_of_le (Nat.le_of_lt_succ later) with rfl | beyond
  · obtain rfl := Option.some.inj (next.symm.trans opened)
    exact mem_path_self parent
  · have inside := lt_size_of_parent? opened
    obtain ⟨other, member, found⟩ := inTurn last inside
    obtain rfl := Option.some.inj (opened.symm.trans found)
    have before := descending.le_of_mem_path around
    have between := inTurn.mem_path_of_le descending beyond (Nat.lt_of_succ_lt inside)
      (Nat.le_succ_of_le before) member
    rw [descending.path_of_parent next, List.mem_cons] at between
    exact between.resolve_left (Nat.ne_of_lt (Nat.lt_succ_of_le before))

end OpenedInTurn

/-- Of ascending numbers, those above a number begin with the next one if it is among them. -/
theorem filter_lt_eq_cons {numbers : List Nat} (ascending : numbers.Pairwise (· < ·)) {number : Nat}
    (member : number + 1 ∈ numbers) :
    numbers.filter (number < ·) = (number + 1) :: numbers.filter (number + 1 < ·) := by
  induction numbers with
  | nil => exact absurd member List.not_mem_nil
  | cons first numbers inductionHypothesis =>
      obtain ⟨above, ascending⟩ := List.pairwise_cons.mp ascending
      rcases List.mem_cons.mp member with rfl | further
      · have same : numbers.filter (number < ·) = numbers.filter (number + 1 < ·) := by
          refine List.filter_congr fun other member => ?_
          have beyond := above other member
          rw [decide_eq_decide]
          omega
        simp [same]
      · have below := above _ further
        have unlisted : ¬ number < first := by omega
        have unlistedNext : ¬ number + 1 < first := by omega
        simp [unlisted, unlistedNext, inductionHypothesis ascending further]

/-- What a walk has still to list behind a scope and those inside it: of the scopes around it the
children that come later, from the inside out. -/
def pending (table : ScopeTable) (id : ScopeId) : List ScopeId :=
  (table.around id).flatMap fun outer => (table.children outer).filter (id < ·)

@[simp] theorem walkFrom_nil (table : ScopeTable) (rounds : Nat) :
    table.walkFrom rounds [] = [] := by
  cases rounds <;> rfl

namespace Treelike

/-- What a walk has to list behind a scope are the later children on the way outward from it. -/
theorem children_append_pending (treelike : table.Treelike) (id : ScopeId) :
    table.children id ++ table.pending id =
      (table.path id).flatMap fun outer => (table.children outer).filter (id < ·) := by
  have later : (table.children id).filter (id < ·) = table.children id :=
    List.filter_eq_self.mpr fun child member =>
      decide_eq_true (treelike.descending ((treelike.children id child).mp member))
  rw [path_eq_cons_around, List.flatMap_cons, later, pending]

/-- A scope inside the parent of the next one has no later children. -/
theorem later_children_eq_nil (treelike : table.Treelike) (inTurn : table.OpenedInTurn)
    (next : table.parent? (id + 1) = some parent) {outer : ScopeId} (around : outer ∈ table.path id)
    (left : outer ∉ table.path parent) : (table.children outer).filter (id < ·) = [] := by
  rw [List.filter_eq_nil_iff]
  intro child opened later
  exact left (inTurn.mem_path_of_child treelike.descending next around
    ((treelike.children outer child).mp opened) (of_decide_eq_true later))

/-- In every scope but its parent, the scope of the next number is not among the later children. -/
theorem later_children_succ (treelike : table.Treelike)
    (next : table.parent? (id + 1) = some parent) {outer : ScopeId} (apart : outer ≠ parent) :
    (table.children outer).filter (id < ·) = (table.children outer).filter (id + 1 < ·) := by
  refine List.filter_congr fun child opened => ?_
  have other : child ≠ id + 1 := by
    rintro rfl
    have found := (treelike.children outer _).mp opened
    exact apart (Option.some.inj (found.symm.trans next))
  rw [decide_eq_decide]
  exact ⟨fun later => Nat.lt_of_le_of_ne later (Ne.symm other), Nat.lt_of_succ_lt⟩

/-- Behind a scope the agenda begins with the scope of the next number, and goes on with what is
to be listed behind that one. -/
theorem children_append_pending_eq_cons (treelike : table.Treelike)
    (inTurn : table.OpenedInTurn) (next : id + 1 < table.size) :
    table.children id ++ table.pending id = (id + 1) :: table.pending (id + 1) := by
  obtain ⟨parent, member, found⟩ := inTurn id next
  -- On the way outward come scopes that are closed now, then the parent, then those around it.
  obtain ⟨inner, split⟩ := treelike.descending.path_suffix member
  have falls := treelike.descending.pairwise_path id
  rw [← split, List.pairwise_append] at falls
  have closed : ∀ outer ∈ inner, (table.children outer).filter (id < ·) = [] := by
    intro outer among
    exact treelike.later_children_eq_nil inTurn found (split ▸ List.mem_append_left _ among)
      fun around => Nat.lt_irrefl outer (falls.2.2 outer among outer around)
  have here : (table.children parent).filter (id < ·) =
      (id + 1) :: (table.children parent).filter (id + 1 < ·) :=
    filter_lt_eq_cons (treelike.ascending parent) ((treelike.children parent _).mpr found)
  have further : ∀ outer ∈ table.around parent, (table.children outer).filter (id < ·) =
      (table.children outer).filter (id + 1 < ·) := by
    intro outer around
    exact treelike.later_children_succ found
      (Nat.ne_of_lt (treelike.descending.lt_of_mem_around around))
  rw [treelike.children_append_pending, ← split, List.flatMap_append,
    List.flatMap_eq_nil_iff.mpr closed, path_eq_cons_around, List.flatMap_cons, here, pending,
    treelike.descending.around_of_parent found, List.flatMap_cons, List.nil_append,
    List.cons_append, List.flatMap_congr further]

/-- Behind the last scope nothing is left. -/
theorem children_append_pending_eq_nil (treelike : table.Treelike)
    (last : id + 1 = table.size) : table.children id ++ table.pending id = [] := by
  rw [treelike.children_append_pending, List.flatMap_eq_nil_iff]
  intro outer _
  rw [List.filter_eq_nil_iff]
  intro child opened
  have inside := lt_size_of_parent? ((treelike.children outer child).mp opened)
  rw [← last] at inside
  simpa using Nat.le_of_lt_succ inside

/-- From each scope on, a walk lists the scopes in the order of their numbers. -/
theorem walkFrom_eq (treelike : table.Treelike) (inTurn : table.OpenedInTurn)
    {first later rounds : Nat} (ends : first + later + 1 = table.size) (enough : later < rounds) :
    table.walkFrom rounds (first :: table.pending first) = List.range' first (later + 1) := by
  induction later generalizing first rounds with
  | zero =>
      obtain ⟨rounds, rfl⟩ := Nat.exists_eq_add_one_of_ne_zero (Nat.ne_zero_of_lt enough)
      rw [walkFrom, treelike.children_append_pending_eq_nil ends, walkFrom_nil]
      rfl
  | succ later inductionHypothesis =>
      obtain ⟨rounds, rfl⟩ := Nat.exists_eq_add_one_of_ne_zero (Nat.ne_zero_of_lt enough)
      have next : first + 1 < table.size := by omega
      rw [List.range'_succ, walkFrom, treelike.children_append_pending_eq_cons inTurn next,
        inductionHypothesis (by omega) (Nat.lt_of_succ_lt_succ enough)]

/-- A walk lists the scopes in the order of their numbers, and then its agenda is empty. -/
theorem walkFrom_root_eq (treelike : table.Treelike) (inTurn : table.OpenedInTurn)
    {rounds : Nat} (enough : table.size ≤ rounds) :
    table.walkFrom rounds [root] = List.range table.size := by
  have none_pending : table.pending root = [] := by
    have orphan := (treelike.orphan root treelike.rooted).mpr rfl
    rw [pending, around_of_parent_eq_none orphan, List.flatMap_nil]
  obtain ⟨later, ends⟩ := Nat.exists_eq_add_one_of_ne_zero (Nat.ne_zero_of_lt treelike.rooted)
  rw [ends] at enough
  rw [← none_pending, treelike.walkFrom_eq inTurn (by rw [root, Nat.zero_add, ends]) enough, ends,
    List.range_eq_range']
  rfl

/-- A scope that is opened in one left before is walked too early. -/
example :
    (((ScopeTable.empty.enter 0 .block).enter 0 .block).enter 1 .block).walk = [0, 1, 3, 2] := by
  decide

end Treelike
end ScopeTable

namespace Session

variable {session : Session}

/-- The scopes of a session were opened in turn, and the current one lies on the way outward from
the last one. -/
structure InTurn (session : Session) : Prop where
  opened : session.scopes.OpenedInTurn
  current : session.current ∈ session.scopes.path (session.scopes.size - 1)

namespace InTurn

theorem start (builtins : List Symbol) : (Session.start builtins).InTurn := by
  have alone : (Session.start builtins).scopes.size = 1 := (Follows.start builtins).size
  refine ⟨fun id next => ?_, ?_⟩
  · rw [alone] at next
    exact absurd (Nat.lt_of_succ_lt_succ next) (Nat.not_lt_zero id)
  · rw [alone]
    exact ScopeTable.mem_path_self ScopeTable.root

theorem enter (inTurn : session.InTurn) (rooted : session.Rooted) (kind : ScopeKind) :
    (session.enter kind).InTurn where
  opened := inTurn.opened.enter rooted.descending rooted.inside inTurn.current kind
  current := by
    rw [Session.enter, ScopeTable.size_enter, Nat.add_sub_cancel]
    exact ScopeTable.mem_path_self _

/-- The scope around the current one is further outward from the last one. -/
theorem leave (inTurn : session.InTurn) (rooted : session.Rooted) : session.leave.InTurn where
  opened := inTurn.opened
  current := by
    refine (rooted.descending.path_suffix inTurn.current).subset ?_
    rw [Session.leave, ScopeTable.outer]
    cases found : session.scopes.parent? session.current with
    | none => exact ScopeTable.mem_path_self session.current
    | some parent =>
        rw [Option.getD_some, rooted.descending.path_of_parent found]
        exact List.mem_cons_of_mem _ (ScopeTable.mem_path_self parent)

theorem declare (inTurn : session.InTurn) (rooted : session.Rooted) (symbol : Symbol)
    (location : Location) : (session.after (.declare symbol location)).InTurn where
  opened := inTurn.opened.bound rooted.inside symbol
  current := by
    rw [Session.after, ScopeTable.size_bound, ScopeTable.path_bound rooted.inside]
    exact inTurn.current

theorem after (inTurn : session.InTurn) (rooted : session.Rooted) (step : Step) :
    (session.after step).InTurn := by
  cases step with
  | enter kind => exact inTurn.enter rooted kind
  | openBlock => exact inTurn.enter rooted .block
  | leave | closeBlock => exact inTurn.leave rooted
  | declare symbol location => exact inTurn.declare rooted symbol location
  | statement | check | initial => exact inTurn

theorem run (inTurn : session.InTurn) (rooted : session.Rooted) (script : List Step) :
    (session.run script).InTurn := by
  induction script generalizing session with
  | nil => exact inTurn
  | cons step script inductionHypothesis =>
      exact inductionHypothesis (inTurn.after rooted step) (rooted.after step)

end InTurn
end Session

/-- Whatever its braces open, leave open or close too often, a program that can be read has its
scopes numbered in the order in which they are walked: a walk lists all of them by their numbers,
and with that it is at its end, however many more rounds it is given. -/
theorem scopes_numbered_in_walk_order {builtins : List Symbol} {tokens : List Token}
    {analysis : Analysis} (analyzed : analyzeTokens builtins tokens = .ok analysis) :
    analysis.scopes.walk = List.range analysis.scopes.size ∧
      ∀ rounds, analysis.scopes.size ≤ rounds →
        analysis.scopes.walkFrom rounds [ScopeTable.root] = analysis.scopes.walk := by
  obtain ⟨script, items, _, rfl⟩ := analyzeTokens_eq_ok_iff.mp analyzed
  have rooted := Session.Rooted.start builtins
  have built := rooted.built_run (Session.built_start builtins) script
  have inTurn := (Session.InTurn.start builtins).run rooted script
  have walked := built.consistent.walkFrom_root_eq inTurn.opened (Nat.le_refl _)
  exact ⟨walked, fun rounds enough =>
    (built.consistent.walkFrom_root_eq inTurn.opened enough).trans walked.symm⟩

/-- A closing brace too many, a method in a class, a block in a block and a block that is never
closed, with both branches of a conditional in it and one more block never closed behind them. -/
theorem scopes_numbered_in_walk_order_mixed :
    let tokens := [Lexeme.op "\x7d", .keyword "class", .name "A", .op "\x7b",
      .type "int", .name "f", .op "(", .op ")", .op "\x7b", .op "\x7d", .op "\x7d",
      .op "\x7b", .op "\x7b", .op "\x7d", .op "\x7d", .op "\x7d", .op "\x7b",
      .keyword "if", .op "(", .name "x", .op ")", .op "\x7b", .op "\x7d",
      .keyword "else", .keyword "if", .op "(", .name "y", .op ")", .op "\x7b", .op "\x7d",
      .op "\x7b", .endOfInput].map (·.token .start)
    ∃ analysis, analyzeTokens [] tokens = .ok analysis ∧
      (List.range 9).map analysis.scopes.parent? =
        [none, some 0, some 1, some 0, some 3, some 0, some 5, some 5, some 5] ∧
      analysis.scopes.walk = [0, 1, 2, 3, 4, 5, 6, 7, 8] ∧
      analysis.scopes.walkFrom 100 [ScopeTable.root] = analysis.scopes.walk := by
  intro tokens
  obtain ⟨analysis, analyzed⟩ : ∃ analysis, analyzeTokens [] tokens = .ok analysis := ⟨_, rfl⟩
  obtain ⟨walked, ended⟩ := scopes_numbered_in_walk_order analyzed
  have size : analysis.scopes.size = 9 := by
    cases analyzed
    decide
  have parents : (List.range 9).map analysis.scopes.parent? =
      [none, some 0, some 1, some 0, some 3, some 0, some 5, some 5, some 5] := by
    cases analyzed
    decide
  rw [size] at walked ended
  exact ⟨analysis, analyzed, parents, walked, ended 100 (by decide)⟩

end BraceLang
