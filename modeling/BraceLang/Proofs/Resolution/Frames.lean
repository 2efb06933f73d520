import BraceLang.Proofs.Resolution.Resolver
import BraceLang.Proofs.Scope.Nesting
import BraceLang.Proofs.Scope.Path

/-!
# The scopes around a session are a stack of frames

Of the table of a session only the scopes on the way outward from the current one have a
say in what is found wrong. Their symbols are a stack of frames, and every step of a
script does to that stack what a resolver would do. So a script can be carried out
without a table.
-/

namespace BraceLang

open Resolver

/-- What a step of a script does to a stack of frames. -/
def Step.resolve : Step → Resolver
  | .enter _ => fun frames => (frames.push, [])
  | .openBlock => fun frames => (frames.push, [])
  | .leave => fun frames => (frames.pop, [])
  | .closeBlock => fun frames => (frames.pop, [])
  | .declare symbol location => Resolver.declare symbol location
  | .check expression => Resolver.check expression
  | .initial name type value => Resolver.initial name type value
  | .statement _ _ => idle

/-- Carry out a script on a stack of frames. -/
def Resolver.script : List Step → Resolver
  | [] => idle
  | step :: steps => step.resolve.andThen (script steps)

/-- The symbols of the current scope and of those around it. -/
def Session.frames (session : Session) : Frames :=
  ⟨session.scopes.symbols session.current,
    (session.scopes.around session.current).map session.scopes.symbols⟩

/-- The symbols of the scopes on the way outward are asked in turn. -/
theorem ScopeTable.lookup_eq_findSome (table : ScopeTable) (id : ScopeId) (name : String) :
    table.lookup id name = ((table.path id).map table.symbols).findSome? (meaning · name) := by
  rw [lookup, List.findSome?_map]
  exact congrArg (List.findSome? · _) (funext fun scope => table.find?_eq scope name)

/-- The current scope is one of the table, and parents have smaller numbers. -/
structure Session.Rooted (session : Session) : Prop where
  inside : session.current < session.scopes.size
  descending : session.scopes.Descending

namespace Session.Rooted

variable {session : Session}

theorem start (builtins : List Symbol) : (Session.start builtins).Rooted where
  inside := (Follows.start builtins).inside
  descending id parent found := by
    rw [(Follows.start builtins).parent] at found
    cases id <;> simp [BraceMachine.parent?, BraceMachine.start] at found

theorem enter (rooted : session.Rooted) (kind : ScopeKind) : (session.enter kind).Rooted where
  inside := by
    rw [Session.enter, ScopeTable.size_enter]
    exact Nat.lt_succ_self _
  descending := rooted.descending.enter rooted.inside kind

theorem leave (rooted : session.Rooted) : session.leave.Rooted where
  inside := by
    rw [Session.leave, ScopeTable.outer]
    cases found : session.scopes.parent? session.current with
    | none => exact rooted.inside
    | some parent => exact Nat.lt_trans (rooted.descending found) rooted.inside
  descending := rooted.descending

theorem after (rooted : session.Rooted) (step : Step) : (session.after step).Rooted := by
  cases step with
  | enter kind => exact rooted.enter kind
  | openBlock => exact rooted.enter .block
  | leave | closeBlock => exact rooted.leave
  | declare symbol _ =>
      exact ⟨Nat.lt_of_lt_of_eq rooted.inside (ScopeTable.size_bound ..).symm,
        rooted.descending.bound rooted.inside symbol⟩
  | statement | check | initial => exact rooted

end Session.Rooted

namespace Session

variable {session : Session}

theorem frames_enter (rooted : session.Rooted) (kind : ScopeKind) :
    (session.enter kind).frames = session.frames.push := by
  have fresh : session.scopes.symbols session.scopes.size = [] := by
    rw [ScopeTable.symbols, ScopeTable.scope_of_size_le (Nat.le_refl _)]
    rfl
  have same : (session.scopes.enter session.current kind).symbols = session.scopes.symbols :=
    funext (ScopeTable.symbols_enter rooted.inside kind)
  rw [frames, enter, rooted.descending.around_entered rooted.inside, same, fresh]
  rfl

theorem frames_leave (rooted : session.Rooted) : session.leave.frames = session.frames.pop := by
  simp only [frames, leave, ScopeTable.outer, Frames.pop]
  cases found : session.scopes.parent? session.current with
  | none =>
      rw [ScopeTable.around_of_parent_eq_none found, Option.getD_none,
        ScopeTable.around_of_parent_eq_none found]
      rfl
  | some parent =>
      rw [rooted.descending.around_of_parent found]
      rfl

theorem binds_eq_isSome (session : Session) (name : String) :
    session.scopes.binds session.current name = (meaning session.frames.top name).isSome := by
  rw [Bool.eq_iff_iff, meaning, List.find?_isSome, ScopeTable.binds_eq_any]
  exact List.any_eq_true

theorem frames_declare (rooted : session.Rooted) (symbol : Symbol) (location : Location) :
    (session.after (.declare symbol location)).frames =
      (declare symbol location session.frames).1 := by
  have outer : (session.scopes.around session.current).map
      (session.scopes.bound session.current symbol).symbols =
      (session.scopes.around session.current).map session.scopes.symbols := by
    refine List.map_congr_left fun id member => ?_
    have other := Nat.ne_of_lt (rooted.descending.lt_of_mem_around member)
    rw [ScopeTable.symbols_bound rooted.inside, if_neg fun both => other both.1]
  have top := ScopeTable.symbols_bound rooted.inside symbol session.current
  rw [after, frames, rooted.descending.around_bound rooted.inside, outer, top, declare,
    ← binds_eq_isSome]
  cases session.scopes.binds session.current symbol.name
  · rw [if_pos ⟨rfl, rfl⟩]
    rfl
  · rw [if_neg (by simp)]
    rfl

theorem declaredType_eq (session : Session) :
    session.declaredType = session.frames.declaredType := by
  ext name : 1
  have outward : session.frames.top :: session.frames.outer =
      (session.scopes.path session.current).map session.scopes.symbols := by
    rw [ScopeTable.path_eq_cons_around, List.map_cons]
    rfl
  rw [Frames.declaredType, Frames.lookup, outward, ← ScopeTable.lookup_eq_findSome]
  rfl

/-- A step does to the frames of a session what a resolver does. -/
theorem frames_after (rooted : session.Rooted) (step : Step) :
    (session.after step).frames = (step.resolve session.frames).1 := by
  cases step with
  | enter kind => exact frames_enter rooted kind
  | openBlock => exact frames_enter rooted .block
  | leave | closeBlock => exact frames_leave rooted
  | declare symbol location => exact frames_declare rooted symbol location
  | statement | check | initial => rfl

/-- A session finds wrong at a step what a resolver does. -/
theorem diagnose_eq (session : Session) (step : Step) :
    session.diagnose step = (step.resolve session.frames).2 := by
  cases step with
  | declare symbol location =>
      rw [diagnose, binds_eq_isSome, Step.resolve, declare]
      split <;> rfl
  | check expression =>
      rw [diagnose, Node.typing_eq_typed, declaredType_eq]
      rfl
  | initial name type value =>
      rw [diagnose, Node.typing_eq_typed, declaredType_eq]
      rfl
  | statement | enter | leave | openBlock | closeBlock => rfl

/-- What a session finds wrong in the course of a script is found on its frames. -/
theorem diagnostics_eq (rooted : session.Rooted) (steps : List Step) :
    session.diagnostics steps = (script steps session.frames).2 := by
  induction steps generalizing session with
  | nil => rfl
  | cons step steps inductionHypothesis =>
      rw [diagnostics, diagnose_eq, inductionHypothesis (rooted.after step), frames_after rooted]
      rfl

end Session

section Builtins

theorem meaning_append (front back : List Symbol) (name : String) :
    meaning (front ++ back) name = (meaning front name).or (meaning back name) :=
  List.find?_append

theorem meaning_cons (symbol : Symbol) (frame : List Symbol) (name : String) :
    meaning (symbol :: frame) name =
      if symbol.name = name then some symbol else meaning frame name := by
  rw [meaning, List.find?_cons]
  by_cases same : symbol.name = name <;> simp [same, meaning]

/-- Of symbols declared in turn the first of each name stands. -/
theorem meaning_declareAll (symbols declared : List Symbol) (name : String) :
    meaning (ScopeTable.declareAll symbols declared) name = meaning (symbols ++ declared) name := by
  induction declared generalizing symbols with
  | nil => exact congrArg (meaning · name) (List.append_nil symbols).symm
  | cons symbol declared inductionHypothesis =>
      rw [ScopeTable.declareAll, List.foldl_cons, ← ScopeTable.declareAll, inductionHypothesis,
        ScopeTable.declareIn]
      split_ifs with taken
      · rw [meaning_append, meaning_append, meaning_cons]
        by_cases same : symbol.name = name
        · have known : (meaning symbols name).isSome = true := by
            rw [meaning, List.find?_isSome, ← same]
            simpa using taken
          obtain ⟨first, found⟩ := Option.isSome_iff_exists.mp known
          rw [found, Option.some_or, Option.some_or]
        · rw [if_neg same]
      · rw [List.append_assoc, List.singleton_append]

/-- In front of the first step the builtins are declared at the root. -/
theorem Session.symbols_start (builtins : List Symbol) :
    (start builtins).scopes.symbols ScopeTable.root = ScopeTable.declareAll [] builtins :=
  ScopeTable.symbols_foldl_bound Nat.one_pos builtins

/-- In front of the first step there is one frame, in which of each name the first builtin
stands. -/
theorem Session.frames_start (builtins : List Symbol) :
    (start builtins).frames.outer = [] ∧
      ∀ name, meaning (start builtins).frames.top name = meaning builtins name := by
  have root : (start builtins).scopes.parent? ScopeTable.root = none :=
    (Follows.start builtins).parent ScopeTable.root
  have top : (start builtins).frames.top = ScopeTable.declareAll [] builtins :=
    symbols_start builtins
  refine ⟨List.map_eq_nil_iff.mpr (ScopeTable.around_of_parent_eq_none root), fun name => ?_⟩
  rw [top, meaning_declareAll, List.nil_append]

end Builtins

end BraceLang
