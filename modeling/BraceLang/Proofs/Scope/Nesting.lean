import BraceLang.Proofs.Analysis
import BraceLang.Proofs.Scope.Braces
import BraceLang.Proofs.Scope.Table

/-!
# Scopes nest like braces

A machine that only looks at braces numbers the opening ones and keeps a stack of those
still open. `Follows` ties a session to it: the same scopes with the same parents and
children, and the current scope on top of the stack. Every step of a session keeps the
tie, since what a script opens and closes are the braces of the program.
-/

namespace BraceLang

/-- A stack of scope numbers, never empty, with the parents of the scopes 1, 2 and so on. -/
structure BraceMachine where
  parents : List ScopeId
  top : ScopeId
  below : List ScopeId

namespace BraceMachine

/-- Only the root is on the stack. -/
def start : BraceMachine := ⟨[], 0, []⟩

/-- How many scopes there are, the root included. -/
def size (machine : BraceMachine) : Nat := machine.parents.length + 1

/-- The scope around a scope. -/
def parent? (machine : BraceMachine) : ScopeId → Option ScopeId
  | 0 => none
  | id + 1 => machine.parents[id]?

/-- The scopes directly in a scope, in ascending order. -/
def children (machine : BraceMachine) (id : ScopeId) : List ScopeId :=
  (List.range machine.size).filter (machine.parent? · = some id)

/-- An opening brace pushes the next number on its parent; a closing one pops unless only the
root is left. -/
def after (machine : BraceMachine) : Brace → BraceMachine
  | .opened => ⟨machine.parents ++ [machine.top], machine.size, machine.top :: machine.below⟩
  | .closed =>
    match machine.below with
    | [] => machine
    | outer :: below => ⟨machine.parents, outer, below⟩

/-- The machine after tokens, of which only the braces matter. -/
def run (machine : BraceMachine) (tokens : List Token) : BraceMachine :=
  (braces tokens).foldl after machine

end BraceMachine

/-- Tokens in which every brace has its partner. -/
inductive Balanced : List Token → Prop where
  | nil : Balanced []
  | other {token : Token} {rest : List Token} (plain : token.toLexeme.brace? = none)
      (others : Balanced rest) : Balanced (token :: rest)
  | nested {inside rest : List Token} (opening closing : Location) (nested : Balanced inside)
      (others : Balanced rest) :
      Balanced ((Lexeme.op "\x7b").token opening ::
        (inside ++ (Lexeme.op "\x7d").token closing :: rest))

namespace BraceMachine

variable {machine : BraceMachine}

/-- The stack leads from each scope to the one around it, down to the root. -/
inductive Chain (parents : List ScopeId) : ScopeId → List ScopeId → Prop where
  | root : Chain parents 0 []
  | inner {id outer : ScopeId} {below : List ScopeId} (parent : parents[id]? = some outer)
      (others : Chain parents outer below) : Chain parents (id + 1) (outer :: below)

theorem Chain.le_length {parents : List ScopeId} {id : ScopeId} {below : List ScopeId}
    (chain : Chain parents id below) : id ≤ parents.length := by
  cases chain with
  | root => exact Nat.zero_le _
  | inner parent => exact (List.getElem?_eq_some_iff.mp parent).1

theorem Chain.append {parents : List ScopeId} {id : ScopeId} {below : List ScopeId}
    (chain : Chain parents id below) (parent : ScopeId) : Chain (parents ++ [parent]) id below := by
  induction chain with
  | root => exact .root
  | inner parent _ inductionHypothesis =>
      exact .inner (List.getElem?_append_left (List.getElem?_eq_some_iff.mp parent).1 ▸ parent)
        inductionHypothesis

/-- The stack of a machine is a chain after every brace if it was one before. -/
theorem Chain.after (chain : Chain machine.parents machine.top machine.below) (brace : Brace) :
    Chain (machine.after brace).parents (machine.after brace).top (machine.after brace).below := by
  cases brace with
  | opened => exact .inner List.getElem?_concat_length (chain.append machine.top)
  | closed =>
      obtain ⟨parents, top, below⟩ := machine
      cases chain with
      | root => exact .root
      | inner _ others => exact others

theorem size_opened : (machine.after .opened).size = machine.size + 1 := by
  simp [after, size]

theorem size_closed : (machine.after .closed).size = machine.size := by
  rw [after]
  split <;> rfl

theorem parent?_opened (id : ScopeId) :
    (machine.after .opened).parent? id =
      if id = machine.size then some machine.top else machine.parent? id := by
  obtain _ | id := id
  · rfl
  · simp only [after, parent?, size, Nat.add_right_cancel_iff, List.getElem?_append]
    by_cases old : id < machine.parents.length
    · rw [if_pos old, if_neg (Nat.ne_of_lt old)]
    · by_cases fresh : id = machine.parents.length
      · simp [fresh]
      · have beyond : machine.parents.length < id := by omega
        rw [if_neg old, if_neg fresh, List.getElem?_eq_none (by simp; omega),
          List.getElem?_eq_none (by omega)]

theorem children_opened (id : ScopeId) :
    (machine.after .opened).children id =
      if id = machine.top then machine.children id ++ [machine.size] else machine.children id := by
  have same : (List.range machine.size).filter ((machine.after .opened).parent? · = some id) =
      machine.children id := by
    refine List.filter_congr fun other member => ?_
    rw [parent?_opened, if_neg (Nat.ne_of_lt (List.mem_range.mp member))]
  rw [children, size_opened, List.range_succ, List.filter_append, same, List.filter_cons,
    List.filter_nil, parent?_opened, if_pos rfl]
  by_cases own : id = machine.top
  · simp [own]
  · simp [own, Ne.symm own]

end BraceMachine

/-- A session has the scopes of a machine, and its current scope is on top of the stack. -/
structure Session.Follows (session : Session) (machine : BraceMachine) : Prop where
  size : session.scopes.size = machine.size
  parent : ∀ id, session.scopes.parent? id = machine.parent? id
  children : ∀ id, session.scopes.children id = machine.children id
  current : session.current = machine.top
  chain : BraceMachine.Chain machine.parents machine.top machine.below

@[simp] theorem Session.run_cons (session : Session) (step : Step) (script : List Step) :
    session.run (step :: script) = (session.after step).run script := rfl

namespace Session.Follows

variable {session : Session} {machine : BraceMachine}

theorem inside (follows : session.Follows machine) : session.current < session.scopes.size := by
  have bounded := follows.chain.le_length
  rw [follows.current, follows.size, BraceMachine.size]
  exact Nat.lt_succ_of_le bounded

/-- Only the root has no parent. -/
theorem eq_root_of_parent (follows : session.Follows machine) {id : ScopeId}
    (inside : id < session.scopes.size) (orphan : session.scopes.parent? id = none) :
    id = ScopeTable.root := by
  rw [follows.size, BraceMachine.size] at inside
  rw [follows.parent] at orphan
  cases id with
  | zero => rfl
  | succ id => exact absurd orphan (by simp [BraceMachine.parent?, Nat.lt_of_succ_lt_succ inside])

theorem opened (follows : session.Follows machine) (kind : ScopeKind) :
    (session.enter kind).Follows (machine.after .opened) where
  size := by
    rw [enter, ScopeTable.size_enter, follows.size, BraceMachine.size_opened]
  parent id := by
    rw [enter, ScopeTable.parent?_enter follows.inside, BraceMachine.parent?_opened, follows.size,
      follows.current, follows.parent]
  children id := by
    rw [enter, ScopeTable.children_enter follows.inside, BraceMachine.children_opened, follows.size,
      follows.current, follows.children]
  current := follows.size
  chain := follows.chain.after .opened

theorem closed (follows : session.Follows machine) :
    session.leave.Follows (machine.after .closed) := by
  obtain ⟨size, parent, children, current, chain⟩ := follows
  have outer := parent session.current
  rw [current] at outer
  have leaves : session.leave.current = (session.scopes.parent? machine.top).getD machine.top := by
    rw [leave, ScopeTable.outer, current]
  obtain ⟨parents, top, below⟩ := machine
  cases chain with
  | root => exact ⟨size, parent, children, leaves.trans (by rw [outer]; rfl), .root⟩
  | inner link others =>
      refine ⟨size, parent, children, leaves.trans ?_, others⟩
      rw [outer, BraceMachine.parent?, link]
      rfl

theorem bound (follows : session.Follows machine) (symbol : Symbol) :
    Follows ⟨session.scopes.bound session.current symbol, session.current⟩ machine where
  size := (ScopeTable.size_bound ..).trans follows.size
  parent id := (ScopeTable.parent?_bound follows.inside symbol id).trans (follows.parent id)
  children id := (ScopeTable.children_bound follows.inside symbol id).trans (follows.children id)
  current := follows.current
  chain := follows.chain

/-- A step does to a session what its brace does to the machine. -/
theorem after (follows : session.Follows machine) (step : Step) :
    (session.after step).Follows (step.brace?.elim machine machine.after) := by
  cases step with
  | enter kind => exact follows.opened kind
  | openBlock => exact follows.opened .block
  | leave => exact follows.closed
  | closeBlock => exact follows.closed
  | declare symbol _ => exact follows.bound symbol
  | statement | check | initial => exact follows

theorem run (follows : session.Follows machine) (script : List Step) :
    (session.run script).Follows ((moves script).foldl BraceMachine.after machine) := by
  induction script generalizing session machine with
  | nil => exact follows
  | cons step script inductionHypothesis =>
      rw [run_cons, moves_cons, List.foldl_append]
      have further := inductionHypothesis (follows.after step)
      cases found : step.brace? <;> simpa [found] using further

theorem start (builtins : List Symbol) : (Session.start builtins).Follows .start := by
  have bindsAll (session : Session) (follows : session.Follows .start) :
      Follows ⟨builtins.foldl (fun table symbol => table.bound ScopeTable.root symbol)
        session.scopes, session.current⟩ .start := by
    induction builtins generalizing session with
    | nil => exact follows
    | cons symbol builtins inductionHypothesis =>
        have bound := follows.bound symbol
        rw [follows.current] at bound
        exact follows.current ▸ inductionHypothesis _ bound
  refine bindsAll ⟨.empty, ScopeTable.root⟩ ⟨rfl, ?_, ?_, rfl, .root⟩
  · rintro (_ | id)
    · rfl
    · rfl
  · rintro (_ | id)
    · rfl
    · rfl

end Session.Follows

namespace BraceMachine

variable {machine : BraceMachine}

theorem run_plain {token : Token} (plain : token.toLexeme.brace? = none) (rest : List Token) :
    machine.run (token :: rest) = machine.run rest := by
  rw [run, braces_cons, plain, run]
  rfl

theorem closed_of_below {outer : ScopeId} {below : List ScopeId}
    (stacked : machine.below = outer :: below) :
    (machine.after .closed).top = outer ∧ (machine.after .closed).below = below := by
  rw [after, stacked]
  exact ⟨rfl, rfl⟩

/-- Behind balanced tokens the stack is as it was before. -/
theorem stack_of_balanced {tokens : List Token} (balanced : Balanced tokens) :
    (machine.run tokens).top = machine.top ∧ (machine.run tokens).below = machine.below := by
  induction balanced generalizing machine with
  | nil => exact ⟨rfl, rfl⟩
  | other plain _ inductionHypothesis =>
      rw [run_plain plain]
      exact inductionHypothesis
  | @nested inside rest opening closing _ _ insideKept restKept =>
      have kept : ((machine.after .opened).run inside).below = machine.top :: machine.below :=
        insideKept.2
      obtain ⟨top, below⟩ := closed_of_below kept
      have split : machine.run ((Lexeme.op "\x7b").token opening ::
          (inside ++ (Lexeme.op "\x7d").token closing :: rest)) =
          (((machine.after .opened).run inside).after .closed).run rest := by
        simp [run]
      rw [split, ← top, ← below]
      exact restKept

/-- Every opening brace adds a scope, and nothing else does. -/
theorem size_run (tokens : List Token) :
    (machine.run tokens).size = machine.size + tokens.countP (·.is (.op "\x7b")) := by
  induction tokens generalizing machine with
  | nil => rfl
  | cons first rest inductionHypothesis =>
      by_cases opening : first.toLexeme = .op "\x7b"
      · have grown : machine.run (first :: rest) = (machine.after .opened).run rest := by
          simp [run, opening]
        have counted : first.is (.op "\x7b") = true := (Token.is_iff ..).mpr opening
        rw [grown, inductionHypothesis, size_opened, List.countP_cons, if_pos counted]
        omega
      · have uncounted : ¬ first.is (.op "\x7b") = true := mt (Token.is_iff ..).mp opening
        rw [List.countP_cons, if_neg uncounted, Nat.add_zero]
        by_cases closing : first.toLexeme = .op "\x7d"
        · have kept : machine.run (first :: rest) = (machine.after .closed).run rest := by
            simp [run, closing]
          rw [kept, inductionHypothesis, size_closed]
        · have plain : first.toLexeme.brace? = none := by
            rw [Lexeme.brace?, if_neg opening, if_neg closing]
          rw [run_plain plain, inductionHypothesis]

end BraceMachine

/-- The scopes of an analysis are those of the machine that only looks at the braces in
front of the end of input. -/
theorem scopes_nest_like_braces {builtins : List Symbol} {tokens : List Token}
    {analysis : Analysis} (analyzed : analyzeTokens builtins tokens = .ok analysis) :
    let input := tokens.takeWhile (·.kind ≠ .endOfInput)
    let machine := BraceMachine.start.run input
    analysis.scopes.size = machine.size ∧
      machine.size = 1 + input.countP (·.is (.op "\x7b")) ∧
      (∀ id, analysis.scopes.parent? id = machine.parent? id) ∧
      (∀ id, analysis.scopes.children id = machine.children id) ∧
      analysis.current = machine.top ∧
      (Balanced input → analysis.current = ScopeTable.root) := by
  intro input machine
  obtain ⟨script, items, taken, rfl⟩ := analyzeTokens_eq_ok_iff.mp analyzed
  have follows := (Session.Follows.start builtins).run script
  rw [← taken.braces, Input.ofTokens_ahead] at follows
  refine ⟨follows.size, ?_, follows.parent, follows.children, follows.current, fun balanced => ?_⟩
  · exact (BraceMachine.size_run input).trans rfl
  · exact follows.current.trans (BraceMachine.stack_of_balanced balanced).1

/-- A stray brace, a loop with a block in its body, and a block that is never closed. -/
theorem scopes_nest_like_braces_mixed :
    let tokens := [Lexeme.op "\x7d", .keyword "while", .op "(", .name "x", .op ")", .op "\x7b",
      .op "\x7b", .op "\x7d", .op "\x7d", .op "\x7b", .endOfInput].map (·.token .start)
    ∃ analysis, analyzeTokens [] tokens = .ok analysis ∧ analysis.scopes.size = 4 ∧
      analysis.scopes.parent? 2 = some 1 ∧ analysis.scopes.children 0 = [1, 3] ∧
      analysis.current = 3 := by
  intro tokens
  obtain ⟨analysis, analyzed⟩ : ∃ analysis, analyzeTokens [] tokens = .ok analysis := ⟨_, rfl⟩
  obtain ⟨size, _, parent, children, current, _⟩ := scopes_nest_like_braces analyzed
  exact ⟨analysis, analyzed, size, parent 2, children 0, current⟩

end BraceLang
