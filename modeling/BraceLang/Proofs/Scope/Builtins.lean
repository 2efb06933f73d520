import BraceLang.Event
import BraceLang.Proofs.Scope.Growth

/-!
# Builtins have no say in the form of a program

Reading does not look at what names mean, so whether a program can be read, and as which
tree, is the same whatever the builtins are. Of its scopes the builtins decide only what the
root binds: a name is refused by a scope because of the symbols of that scope and of no
other. What is found wrong depends on the builtins, but nothing depends on what is found
wrong.

Two sessions with different builtins are followed along the same script, step by step.
-/

namespace BraceLang

namespace ScopeTable

/-- Two tables have the same scopes, of which only the roots may bind different symbols. -/
structure SameBelowRoot (table other : ScopeTable) : Prop where
  size : other.size = table.size
  kind : ∀ id, other.kind id = table.kind id
  parent : ∀ id, other.parent? id = table.parent? id
  children : ∀ id, other.children id = table.children id
  symbols : ∀ id, id ≠ root → other.symbols id = table.symbols id

namespace SameBelowRoot

variable {table other last : ScopeTable}

theorem refl (table : ScopeTable) : table.SameBelowRoot table where
  size := rfl
  kind _ := rfl
  parent _ := rfl
  children _ := rfl
  symbols _ _ := rfl

theorem symm (same : table.SameBelowRoot other) : other.SameBelowRoot table where
  size := same.size.symm
  kind id := (same.kind id).symm
  parent id := (same.parent id).symm
  children id := (same.children id).symm
  symbols id below := (same.symbols id below).symm

theorem trans (first : table.SameBelowRoot other) (second : other.SameBelowRoot last) :
    table.SameBelowRoot last where
  size := second.size.trans first.size
  kind id := (second.kind id).trans (first.kind id)
  parent id := (second.parent id).trans (first.parent id)
  children id := (second.children id).trans (first.children id)
  symbols id below := (second.symbols id below).trans (first.symbols id below)

theorem enter (same : table.SameBelowRoot other) {parent : ScopeId} (inside : parent < table.size)
    (kind : ScopeKind) : (table.enter parent kind).SameBelowRoot (other.enter parent kind) := by
  have alsoInside : parent < other.size := Nat.lt_of_lt_of_eq inside same.size.symm
  constructor
  · rw [size_enter, size_enter, same.size]
  · intro id
    rw [kind_enter inside, kind_enter alsoInside, same.size, same.kind]
  · intro id
    rw [parent?_enter inside, parent?_enter alsoInside, same.size, same.parent]
  · intro id
    rw [children_enter inside, children_enter alsoInside, same.size, same.children]
  · intro id below
    rw [symbols_enter inside, symbols_enter alsoInside, same.symbols id below]

/-- A scope below the root refuses the same names in both tables. -/
theorem bound (same : table.SameBelowRoot other) {id : ScopeId} (inside : id < table.size)
    (symbol : Symbol) : (table.bound id symbol).SameBelowRoot (other.bound id symbol) := by
  have alsoInside : id < other.size := Nat.lt_of_lt_of_eq inside same.size.symm
  constructor
  · rw [size_bound, size_bound, same.size]
  · intro scope
    rw [kind_bound inside, kind_bound alsoInside, same.kind]
  · intro scope
    rw [parent?_bound inside, parent?_bound alsoInside, same.parent]
  · intro scope
    rw [children_bound inside, children_bound alsoInside, same.children]
  · intro scope below
    rw [symbols_bound inside, symbols_bound alsoInside, same.symbols scope below]
    by_cases own : scope = id
    · subst own
      rw [binds_congr (same.symbols scope below), same.symbols scope below]
    · rw [if_neg fun both => own both.1, if_neg fun both => own both.1]

/-- What the root alone binds makes no difference below it. -/
theorem bound_root (same : table.SameBelowRoot other) (inside : root < other.size)
    (symbol : Symbol) : table.SameBelowRoot (other.bound root symbol) := by
  constructor
  · rw [size_bound, same.size]
  · intro id
    rw [kind_bound inside, same.kind]
  · intro id
    rw [parent?_bound inside, same.parent]
  · intro id
    rw [children_bound inside, same.children]
  · intro id below
    rw [symbols_bound inside, if_neg fun both => below both.1, same.symbols id below]

theorem withBuiltins (builtins : List Symbol) : empty.SameBelowRoot (withBuiltins builtins) := by
  have bindsAll (table : ScopeTable) (same : empty.SameBelowRoot table) :
      empty.SameBelowRoot (builtins.foldl (fun table symbol => table.bound root symbol) table) := by
    induction builtins generalizing table with
    | nil => exact same
    | cons symbol builtins inductionHypothesis =>
        have inside : root < table.size := Nat.lt_of_lt_of_eq Nat.one_pos same.size.symm
        exact inductionHypothesis _ (same.bound_root inside symbol)
  exact bindsAll empty (.refl empty)

end SameBelowRoot
end ScopeTable

namespace Session

/-- Two sessions are in the same scope of tables that differ at most in the symbols of the root. -/
structure SameBelowRoot (session other : Session) : Prop where
  scopes : session.scopes.SameBelowRoot other.scopes
  current : other.current = session.current

namespace SameBelowRoot

variable {session other : Session}

theorem start (builtins others : List Symbol) :
    (Session.start builtins).SameBelowRoot (Session.start others) where
  scopes := (ScopeTable.SameBelowRoot.withBuiltins builtins).symm.trans (.withBuiltins others)
  current := rfl

theorem enter (same : session.SameBelowRoot other) (rooted : session.Rooted) (kind : ScopeKind) :
    (session.enter kind).SameBelowRoot (other.enter kind) where
  scopes := by
    rw [Session.enter, Session.enter, same.current]
    exact same.scopes.enter rooted.inside kind
  current := same.scopes.size

theorem leave (same : session.SameBelowRoot other) : session.leave.SameBelowRoot other.leave where
  scopes := same.scopes
  current := by
    rw [Session.leave, Session.leave, ScopeTable.outer, ScopeTable.outer, same.current,
      same.scopes.parent]

theorem after (same : session.SameBelowRoot other) (rooted : session.Rooted) (step : Step) :
    (session.after step).SameBelowRoot (other.after step) := by
  cases step with
  | enter kind => exact same.enter rooted kind
  | openBlock => exact same.enter rooted .block
  | leave | closeBlock => exact same.leave
  | declare symbol _ =>
      refine ⟨?_, same.current⟩
      rw [Session.after, Session.after, same.current]
      exact same.scopes.bound rooted.inside symbol
  | statement | check | initial => exact same

/-- No script makes two sessions differ in more than the symbols of the root. -/
theorem run (same : session.SameBelowRoot other) (rooted : session.Rooted) (script : List Step) :
    (session.run script).SameBelowRoot (other.run script) := by
  induction script generalizing session other with
  | nil => exact same
  | cons step script inductionHypothesis =>
      exact inductionHypothesis (same.after rooted step) (rooted.after step)

end SameBelowRoot
end Session

/-- Whether an event tells of something wrong. -/
def Event.isDiagnosed : Event → Bool
  | .diagnosed _ => true
  | _ => false

namespace Session.SameBelowRoot

variable {session other : Session}

/-- At a step the same happens in both sessions, except for what is found wrong. -/
theorem observe_eq (same : session.SameBelowRoot other) (total : Nat) (step : Step) :
    (session.observe total step).filter (!·.isDiagnosed) =
      (other.observe total step).filter (!·.isDiagnosed) := by
  have silent (diagnostics : List Diagnostic) :
      (diagnostics.map Event.diagnosed).filter (!·.isDiagnosed) = [] := by
    simp [Event.isDiagnosed]
  cases step with
  | statement => rfl
  | enter | openBlock => rw [observe, observe, same.current, same.scopes.size]
  | leave | closeBlock => rw [observe, observe, same.current, same.leave.current]
  | declare | check | initial =>
      rw [observe, observe, silent, silent]
      all_goals nofun

/-- In the course of a script the same happens in both sessions, except for what is found wrong. -/
theorem events_eq (same : session.SameBelowRoot other) (rooted : session.Rooted) (total : Nat)
    (script : List Step) :
    (session.events total script).filter (!·.isDiagnosed) =
      (other.events total script).filter (!·.isDiagnosed) := by
  induction script generalizing session other with
  | nil => rfl
  | cons step script inductionHypothesis =>
      rw [events, events, List.filter_append, List.filter_append, same.observe_eq,
        inductionHypothesis (same.after rooted step) (rooted.after step)]

end Session.SameBelowRoot

/-- What happens in the course of an analysis, also of one that fails, but for what is found
wrong. -/
def eventsOfForm (builtins : List Symbol) (tokens : List Token) : List Event :=
  ((Session.start builtins).events (Input.ofTokens tokens).ahead.length
    (Reading.ofTokens tokens).script).filter (!·.isDiagnosed)

end BraceLang
