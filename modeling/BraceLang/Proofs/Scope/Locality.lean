import BraceLang.Proofs.Course
import BraceLang.Proofs.Node.Declarations
import BraceLang.Proofs.Scope.Growth
import BraceLang.Proofs.Lockstep.Statement
import BraceLang.Proofs.Statement.Soundness

/-!
# A statement touches only its own scope

What a statement opens lies inside the scope in which it stands, and what it declares there
is the name of the declaration that it is, if it is one. No other scope changes. So what a
name means in a scope that was there before is changed by declarations alone, however many
names a loop or a conditional declares inside.

That nothing around a statement changes is shown of courses: wherever a course has come, the
scopes it has opened and not yet left lie on the way outward from the current scope to the
one in which it began. What is declared in that one is read off the tree.
-/

namespace BraceLang

/-- How many of the scopes opened around a step are open after it. -/
def Step.depthAfter (depth : Nat) : Step → Nat
  | .enter _ => depth + 1
  | .openBlock => depth + 1
  | .leave => depth - 1
  | .closeBlock => depth - 1
  | _ => depth

/-- How many of the scopes opened around a script are open after it. -/
def depthAfter (depth : Nat) (script : List Step) : Nat := script.foldl Step.depthAfter depth

/-- What a script declares in a scope when it begins inside of `depth` scopes opened in that
one. -/
def declaredAround : (depth : Nat) → List Step → List Symbol
  | _, [] => []
  | depth, step :: script =>
    (if depth = 0 then step.symbol?.toList else []) ++
      declaredAround (step.depthAfter depth) script

section Around

variable (depth : Nat) (step : Step) (front back script : List Step)

@[simp] theorem depthAfter_nil : depthAfter depth [] = depth := rfl

@[simp] theorem depthAfter_cons :
    depthAfter depth (step :: script) = depthAfter (step.depthAfter depth) script := rfl

@[simp] theorem depthAfter_append :
    depthAfter depth (front ++ back) = depthAfter (depthAfter depth front) back :=
  List.foldl_append

@[simp] theorem declaredAround_nil : declaredAround depth [] = [] := rfl

@[simp] theorem declaredAround_cons :
    declaredAround depth (step :: script) =
      (if depth = 0 then step.symbol?.toList else []) ++
        declaredAround (step.depthAfter depth) script := rfl

theorem declaredAround_cons_of_none {depth : Nat} {step : Step} {script : List Step}
    (undeclared : step.symbol? = none) :
    declaredAround depth (step :: script) = declaredAround (step.depthAfter depth) script := by
  rw [declaredAround_cons, undeclared, Option.toList_none, ite_self, List.nil_append]

@[simp] theorem declaredAround_append :
    declaredAround depth (front ++ back) =
      declaredAround depth front ++ declaredAround (depthAfter depth front) back := by
  induction front generalizing depth with
  | nil => rfl
  | cons step front inductionHypothesis =>
      rw [List.cons_append, declaredAround_cons, inductionHypothesis, declaredAround_cons,
        depthAfter_cons, List.append_assoc]

/-- Two scripts that declare nothing around and come back do the same one after the other. -/
theorem around_append {depth : Nat} {front back : List Step}
    (first : declaredAround depth front = [] ∧ depthAfter depth front = depth)
    (second : declaredAround depth back = [] ∧ depthAfter depth back = depth) :
    declaredAround depth (front ++ back) = [] ∧ depthAfter depth (front ++ back) = depth := by
  rw [declaredAround_append, depthAfter_append, first.1, first.2]
  exact second

/-- What is done in a scope of its own declares nothing around it and comes back. -/
theorem around_framed (kind : ScopeKind)
    (inside : declaredAround (depth + 1) script = [] ∧ depthAfter (depth + 1) script = depth + 1) :
    declaredAround depth (.enter kind :: (script ++ .leave :: back)) = declaredAround depth back ∧
      depthAfter depth (.enter kind :: (script ++ .leave :: back)) = depthAfter depth back := by
  obtain ⟨silent, returns⟩ := inside
  constructor
  · rw [declaredAround_cons_of_none rfl, declaredAround_append]
    change declaredAround (depth + 1) script ++ declaredAround (depthAfter (depth + 1) script) _ = _
    rw [silent, returns, List.nil_append, declaredAround_cons_of_none rfl]
    rfl
  · rw [depthAfter_cons, depthAfter_append]
    change depthAfter (depthAfter (depth + 1) script) _ = _
    rw [returns]
    rfl

end Around

namespace Session

/-- A session has come from `base` into scopes opened since, the innermost first, and in the scope
of `base` it has declared some symbols. -/
structure ComesFrom (base session : Session) (opened : List ScopeId) (declared : List Symbol) :
    Prop where
  grows : base.scopes.GrowsAt base.current session.scopes
  outward : session.current :: session.scopes.around session.current =
    opened ++ base.current :: session.scopes.around base.current
  fresh : ∀ id ∈ opened, base.scopes.size ≤ id
  own : session.scopes.symbols base.current =
    ScopeTable.declareAll (base.scopes.symbols base.current) declared

namespace ComesFrom

variable {base session : Session} {opened : List ScopeId} {declared : List Symbol}
  {scope : ScopeId} {symbol : Symbol} {location : Location}

theorem refl (base : Session) : base.ComesFrom base [] [] where
  grows := .refl _ _
  outward := rfl
  fresh := nofun
  own := rfl

/-- The current scope is the one of `base` or has been opened since. -/
theorem here (comes : base.ComesFrom session opened declared) :
    session.current = base.current ∨ base.scopes.size ≤ session.current := by
  have outward := comes.outward
  cases opened with
  | nil => exact .inl (List.cons.inj outward).1
  | cons scope opened =>
      have same : session.current = scope := (List.cons.inj outward).1
      exact .inr (same ▸ comes.fresh scope List.mem_cons_self)

theorem base_inside (comes : base.ComesFrom session opened declared) (rooted : base.Rooted) :
    base.current < session.scopes.size :=
  Nat.lt_of_lt_of_le rooted.inside comes.grows.grows.size

theorem enter (comes : base.ComesFrom session opened declared) (baseRooted : base.Rooted)
    (rooted : session.Rooted) (kind : ScopeKind) :
    base.ComesFrom (session.enter kind) (session.scopes.size :: opened) declared where
  grows := comes.grows.enter rooted.descending rooted.inside comes.here kind
  outward := by
    rw [Session.enter, rooted.descending.around_entered rooted.inside, comes.outward,
      rooted.descending.around_enter rooted.inside kind (comes.base_inside baseRooted)]
    rfl
  fresh scope member := by
    rcases List.mem_cons.mp member with rfl | old
    · exact comes.grows.grows.size
    · exact comes.fresh scope old
  own := by rw [Session.enter, ScopeTable.symbols_enter rooted.inside, comes.own]

/-- A scope that was opened since is left for the next one outward. -/
theorem leave (comes : base.ComesFrom session (scope :: opened) declared)
    (rooted : session.Rooted) : base.ComesFrom session.leave opened declared where
  grows := comes.grows
  outward := by
    obtain ⟨_, around⟩ := List.cons.inj comes.outward
    rw [Session.leave, ScopeTable.outer]
    cases found : session.scopes.parent? session.current with
    | none =>
        rw [ScopeTable.around_of_parent_eq_none found] at around
        exact absurd around.symm (List.append_ne_nil_of_right_ne_nil _ (List.cons_ne_nil _ _))
    | some parent =>
        rw [rooted.descending.around_of_parent found] at around
        exact around
  fresh other member := comes.fresh other (.tail _ member)
  own := comes.own

theorem grows_declare (comes : base.ComesFrom session opened declared) (rooted : session.Rooted) :
    base.scopes.GrowsAt base.current (session.after (.declare symbol location)).scopes :=
  comes.grows.bound rooted.descending rooted.inside comes.here symbol

theorem outward_declare (comes : base.ComesFrom session opened declared)
    (rooted : session.Rooted) :
    let later := session.after (.declare symbol location)
    later.current :: later.scopes.around later.current =
      opened ++ base.current :: later.scopes.around base.current := by
  simp only [after, rooted.descending.around_bound rooted.inside, comes.outward]

/-- In a scope that was opened since, a declaration leaves the scope of `base` alone. -/
theorem declare_inside (comes : base.ComesFrom session (scope :: opened) declared)
    (baseRooted : base.Rooted) (rooted : session.Rooted) :
    base.ComesFrom (session.after (.declare symbol location)) (scope :: opened) declared where
  grows := comes.grows_declare rooted
  outward := comes.outward_declare rooted
  fresh := comes.fresh
  own := by
    have same : session.current = scope := (List.cons.inj comes.outward).1
    have added := comes.fresh scope List.mem_cons_self
    have apart : base.current ≠ session.current := by
      rw [same]
      exact Nat.ne_of_lt (Nat.lt_of_lt_of_le baseRooted.inside added)
    rw [after, ScopeTable.symbols_bound_of_ne rooted.inside symbol _ apart, comes.own]

/-- In the scope of `base` itself, a declaration binds its name unless it is bound. -/
theorem declare_own (comes : base.ComesFrom session [] declared) (rooted : session.Rooted) :
    base.ComesFrom (session.after (.declare symbol location)) [] (declared ++ [symbol]) where
  grows := comes.grows_declare rooted
  outward := comes.outward_declare rooted
  fresh := comes.fresh
  own := by
    have same : session.current = base.current := (List.cons.inj comes.outward).1
    have bound := ScopeTable.symbols_bound_self rooted.inside symbol
    rw [same, comes.own, ← ScopeTable.declareAll_concat] at bound
    rw [after, same, bound]

end ComesFrom
end Session

/-- A course that closes the scopes opened since `base` comes back to the scope of `base`. It
declares there what it declares around those scopes. -/
theorem Course.comesFrom {openers : List Opener} {ahead rest : List Token} {script : List Step}
    (course : Course openers ahead script rest) {base session : Session}
    {opened : List ScopeId} {declared : List Symbol}
    (comes : base.ComesFrom session opened declared) (baseRooted : base.Rooted)
    (rooted : session.Rooted) (matched : opened.length = openers.length) :
    base.ComesFrom (session.run script) []
      (declared ++ declaredAround openers.length script) := by
  induction course generalizing session opened declared with
  | done =>
      obtain rfl := List.eq_nil_of_length_eq_zero matched
      rw [declaredAround, List.append_nil]
      exact comes
  | taken _ _ inductionHypothesis => exact inductionHypothesis comes rooted matched
  | @remark openers _ _ _ step remarks _ inductionHypothesis =>
      cases step with
      | declare symbol location =>
          have after := rooted.after (.declare symbol location)
          cases openers with
          | nil =>
              obtain rfl := List.eq_nil_of_length_eq_zero matched
              have further := inductionHypothesis (comes.declare_own rooted) after rfl
              rw [List.append_assoc] at further
              exact further
          | cons opener openers =>
              obtain _ | ⟨scope, opened⟩ := opened
              · cases matched
              exact inductionHypothesis (comes.declare_inside baseRooted rooted) after matched
      | check | initial =>
          rw [declaredAround_cons_of_none rfl]
          exact inductionHypothesis comes rooted matched
      | statement | enter | leave | openBlock | closeBlock => exact remarks.elim
  | statement _ _ inductionHypothesis =>
      rw [declaredAround_cons_of_none rfl]
      exact inductionHypothesis comes rooted matched
  | enter kind _ inductionHypothesis =>
      rw [declaredAround_cons_of_none rfl]
      exact inductionHypothesis (comes.enter baseRooted rooted kind) (rooted.enter kind)
        (congrArg Nat.succ matched)
  | openBlock _ inductionHypothesis =>
      rw [declaredAround_cons_of_none rfl]
      exact inductionHypothesis (comes.enter baseRooted rooted .block) (rooted.enter .block)
        (congrArg Nat.succ matched)
  | leave _ inductionHypothesis | closeBlock _ inductionHypothesis =>
      obtain _ | ⟨scope, opened⟩ := opened
      · cases matched
      exact inductionHypothesis (comes.leave rooted) rooted.leave (Nat.succ.inj matched)

namespace Grammar

/-- The symbol that an item declares in the scope in which it stands. -/
def Item.symbol? : Item → Option Symbol
  | .node tree => tree.symbol?
  | _ => none

/-- What a script declares in a scope around, and that it comes back to the depth at which it
began. Only a statement or a method that stands in the scope itself declares something in it,
and only lone braces among statements change the depth. -/
def Construct.DeclaresAround (script : List Step) :
    (construct : Construct) → construct.Yield → Prop
  | .statement, item | .marked, item => ∀ depth,
      declaredAround depth script = (if depth = 0 then item.symbol?.toList else []) ∧
        depthAfter depth script = item.openAfter depth
  | .body openBlocks, _ => ∀ depth,
      declaredAround (depth + 1 + openBlocks) script = [] ∧
        depthAfter (depth + 1 + openBlocks) script = depth + 1
  | .conditional, _ | .otherwise, _ => ∀ depth,
      declaredAround depth script = [] ∧ depthAfter depth script = depth
  | .method _, node => ∀ depth,
      declaredAround depth script = (if depth = 0 then node.symbol?.toList else []) ∧
        depthAfter depth script = depth
  | .members _, _ => ∀ depth,
      declaredAround (depth + 1) script = [] ∧ depthAfter (depth + 1) script = depth + 1

section Parts

variable {ahead rest : List Token} {script : List Step} (depth : Nat)

theorem TakesClause.declaresAround {closing : Lexeme} {value : Option Node}
    (taken : TakesClause closing ahead script value rest) :
    declaredAround depth script = [] ∧ depthAfter depth script = depth := by
  cases taken <;> simp [Step.symbol?, Step.depthAfter]

theorem TakesVariable.declaresAround {node : Node} (taken : TakesVariable ahead script node rest) :
    declaredAround depth script = (if depth = 0 then node.symbol?.toList else []) ∧
      depthAfter depth script = depth := by
  cases taken <;> simp [Step.symbol?, Step.depthAfter, Node.symbol?]

theorem TakesInitializer.declaresAround {init : Option Node}
    (taken : TakesInitializer ahead script init rest) :
    declaredAround (depth + 1) script = [] ∧ depthAfter (depth + 1) script = depth + 1 := by
  cases taken with
  | clause taken => exact taken.declaresAround (depth + 1)
  | declared taken => exact taken.declaresAround (depth + 1)

theorem TakesFurtherParameters.declaresAround {params : List Param}
    (taken : TakesFurtherParameters ahead script params rest) :
    declaredAround (depth + 1) script = [] ∧ depthAfter (depth + 1) script = depth + 1 := by
  induction taken with
  | closed => exact ⟨rfl, rfl⟩
  | next _ _ _ _ _ _ inductionHypothesis => exact inductionHypothesis

theorem TakesParameters.declaresAround {params : List Param}
    (taken : TakesParameters ahead script params rest) :
    declaredAround (depth + 1) script = [] ∧ depthAfter (depth + 1) script = depth + 1 := by
  cases taken with
  | none => exact ⟨rfl, rfl⟩
  | some _ _ _ _ others => exact others.declaresAround depth

end Parts

/-- Only a closing brace is read as one. -/
theorem Takes.starts_of_closed {ahead rest : List Token} {script : List Step}
    (taken : Takes .statement ahead script Item.closed rest) :
    (Lexeme.op "\x7d").Starts ahead := by
  cases taken with
  | statement taken =>
      cases taken with
      | closed brace rest => exact ⟨brace, rest, rfl⟩

/-- An expression is no declaration. -/
theorem Derives.symbol?_eq_none {used : List Token} {node : Node}
    (derived : Derives .expression used node) : node.symbol? = none := by
  have nothing := derived.declarations_eq_nil
  rw [Node.declarations_eq, Node.declared] at nothing
  simp_all

/-- What a construct declares around everything that it opens is at most the symbol of a
declaration that stands in the scope itself. -/
theorem Takes.declaresAround {construct : Construct} {ahead rest : List Token}
    {script : List Step} {value : construct.Yield}
    (taken : Takes construct ahead script value rest) :
    construct.DeclaresAround script value := by
  induction taken with
  | @statement ahead _ script _ _ inductionHypothesis =>
      intro depth
      have unmarked : declaredAround depth (mark ahead ++ script) = declaredAround depth script ∧
          depthAfter depth (mark ahead ++ script) = depthAfter depth script := by
        cases ahead with
        | nil => exact ⟨rfl, rfl⟩
        | cons => exact ⟨declaredAround_cons_of_none rfl, rfl⟩
      rw [unmarked.1, unmarked.2]
      exact inductionHypothesis depth
  | declared taken => exact taken.declaresAround
  | method _ _ _ inductionHypothesis => exact inductionHypothesis
  | expression _ _ _ derived =>
      intro depth
      simp [Item.symbol?, derived.symbol?_eq_none, Step.symbol?, Step.depthAfter, Item.openAfter]
  | @conditional _ _ _ node taken inductionHypothesis =>
      have undeclared : node.symbol? = none := by cases taken; rfl
      intro depth
      simp [Item.symbol?, undeclared, inductionHypothesis depth, Item.openAfter]
  | whileLoop _ _ _ _ _ _ inductionHypothesis =>
      intro depth
      obtain ⟨silent, returns⟩ := around_framed depth [] _ .block (inductionHypothesis depth)
      rw [declaredAround_cons_of_none rfl]
      exact ⟨silent.trans (ite_self _).symm, returns⟩
  | forLoop _ _ _ initTaken guardTaken updateTaken _ inductionHypothesis =>
      intro depth
      have init := initTaken.declaresAround depth
      have guard := guardTaken.declaresAround (depth + 1)
      have update := updateTaken.declaresAround (depth + 1)
      have body := inductionHypothesis depth
      obtain ⟨silent, returns⟩ := around_framed depth [] _ .block (around_append init
        (around_append guard (around_append update body)))
      simp only [List.append_assoc] at silent returns
      exact ⟨silent.trans (ite_self _).symm, returns⟩
  | returned _ taken =>
      intro depth
      obtain ⟨silent, returns⟩ := taken.declaresAround depth
      exact ⟨silent.trans (ite_self _).symm, returns⟩
  | closedJump jumps | openJump jumps => cases jumps <;> exact fun _ => ⟨(ite_self _).symm, rfl⟩
  | classBody _ _ _ _ _ inductionHypothesis =>
      intro depth
      obtain ⟨silent, returns⟩ := around_framed depth [] _ .classBody (inductionHypothesis depth)
      rw [declaredAround_cons]
      exact ⟨(congrArg (_ ++ ·) silent).trans (List.append_nil _), returns⟩
  | opened | closed | idle => exact fun _ => ⟨by simp [Step.symbol?, Item.symbol?], rfl⟩
  | noElse => exact fun _ => ⟨rfl, rfl⟩
  | arm _ _ _ _ _ _ _ bodyAround othersAround =>
      intro depth
      obtain ⟨silent, returns⟩ := around_framed depth _ _ .block (bodyAround depth)
      rw [declaredAround_cons_of_none rfl]
      exact ⟨silent.trans (othersAround depth).1, returns.trans (othersAround depth).2⟩
  | elseBody _ _ _ inductionHypothesis =>
      exact fun depth => around_framed depth [] _ .block (inductionHypothesis depth)
  | elseIf _ _ inductionHypothesis => exact inductionHypothesis
  | methodRest returnType name namePlace _ _ paramsTaken _ inductionHypothesis =>
      intro depth
      obtain ⟨silent, returns⟩ := around_framed depth [] _ .methodBody
        (around_append (paramsTaken.declaresAround depth) (inductionHypothesis depth))
      rw [List.append_assoc] at silent returns
      rw [declaredAround_cons, Node.symbol?, declared_type returnType name namePlace]
      exact ⟨(congrArg (_ ++ ·) silent).trans (List.append_nil _), returns⟩
  | bodyEnd | membersEnd => exact fun _ => ⟨rfl, rfl⟩
  | @bodyItem openBlocks _ _ _ _ _ item _ inside first _ firstAround othersAround =>
      intro depth
      -- A lone closing brace finds a block of the body open, so the depth stays above that of
      -- the body.
      have lifted : item.openAfter (depth + 1 + openBlocks) =
          depth + 1 + item.openAfter openBlocks := by
        cases item with
        | closed =>
            have opened : openBlocks ≠ 0 := fun none => inside none first.starts_of_closed
            exact Nat.add_sub_assoc (Nat.one_le_iff_ne_zero.mpr opened) _
        | node | opened | nothing => rfl
      obtain ⟨silent, returns⟩ := firstAround (depth + 1 + openBlocks)
      rw [if_neg (by omega)] at silent
      rw [declaredAround_append, depthAfter_append, silent, returns, lifted]
      exact othersAround depth
  | field _ taken _ inductionHypothesis =>
      exact fun depth => around_append (taken.declaresAround (depth + 1))
        (inductionHypothesis depth)
  | typedMethod _ _ _ _ _ methodAround othersAround
  | constructor _ _ _ _ methodAround othersAround =>
      exact fun depth => around_append (methodAround (depth + 1)) (othersAround depth)

end Grammar

/-- A statement changes no scope but the one in which it stands, and declares in that one what
it declares around everything that it opens. -/
theorem Grammar.ItemCourse.growsAt {ahead rest : List Token} {script : List Step}
    {item : Grammar.Item} (course : ItemCourse ahead script item rest) {session : Session}
    (rooted : session.Rooted) :
    session.scopes.GrowsAt session.current (session.run script).scopes ∧
      (session.run script).scopes.symbols session.current =
        ScopeTable.declareAll (session.scopes.symbols session.current)
          (declaredAround 0 script) := by
  cases course with
  | opened rest brace =>
      exact ⟨.enter (.refl _ _) rooted.descending rooted.inside (.inl rfl) .block,
        ScopeTable.symbols_enter rooted.inside ..⟩
  | closed rest brace => exact ⟨.refl _ _, rfl⟩
  | @whole first _ _ _ _ _ _ _ course =>
      have comes := (Course.statement first course).comesFrom (.refl session) rooted rooted rfl
      exact ⟨comes.grows, comes.own⟩

/-- Wherever a statement is read, it changes of the scopes that there are only the current one,
which keeps its kind, its parent and its children and gets the symbol of the statement if that
is a declaration of a name not yet bound there. New scopes are inside of the current one, and
what was found wrong before stays first in the log. A statement that is no declaration leaves
what every name means in every scope that there was. -/
theorem statement_touches_own_scope (builtins : List Symbol) (before : List Step)
    {stop : Terminator} {ahead rest : List Token} {item : Grammar.Item} {tokens : Nat}
    (nonempty : ahead ≠ []) (enough : ahead.length ≤ tokens)
    (read : (Grammar.statementWithin tokens stop ahead).result = .ok (item, rest)) :
    let session := (Session.start builtins).run before
    let script := (Grammar.statementWithin tokens stop ahead).script
    let later := (session.run script).scopes
    let own := session.current
    (∀ id < session.scopes.size, id ≠ own → later.scope id = session.scopes.scope id) ∧
      later.kind own = session.scopes.kind own ∧
      later.parent? own = session.scopes.parent? own ∧
      session.scopes.children own <+: later.children own ∧
      later.symbols own = session.scopes.symbols own ++
        (item.symbol?.filter fun symbol => !session.scopes.binds own symbol.name).toList ∧
      session.scopes.size ≤ later.size ∧
      (∀ id, session.scopes.size ≤ id → id < later.size → own ∈ later.around id) ∧
      (Session.start builtins).diagnostics before <+:
        (Session.start builtins).diagnostics (before ++ script) ∧
      (item.symbol? = none → ∀ id < session.scopes.size, ∀ name,
        later.lookup id name = session.scopes.lookup id name) := by
  intro session script later own
  have rooted : session.Rooted := (Session.Rooted.start builtins).run before
  have reads : Scripted.Reads (Grammar.statementWithin tokens) stop ahead script item rest :=
    congrArg (Outcome.mk script) read
  have dispatched : Grammar.ItemCourse ahead script item rest := by
    have both := (Grammar.dispatchesInStep_statementWithin enough enough stop ahead nonempty
      (Nat.le_refl _)).2
    rw [reads] at both
    exact both
  have declared : declaredAround 0 script = item.symbol?.toList :=
    ((Grammar.soundWithin_statementWithin tokens reads nonempty enough).declaresAround 0).1
  obtain ⟨grows, symbols⟩ := dispatched.growsAt rooted
  rw [declared] at symbols
  refine ⟨grows.others, grows.grows.kind _ rooted.inside, grows.grows.parent _ rooted.inside,
    grows.grows.children _ rooted.inside, ?_, grows.grows.size, grows.inside, ?_, ?_⟩
  · exact symbols.trans (ScopeTable.declareAll_toList ..)
  · rw [Session.diagnostics_append]
    exact List.prefix_append _ _
  · intro none id known name
    rw [none] at symbols
    exact grows.lookup_eq rooted.descending (rooted.run script).descending symbols known name

/-- A loop in an open block whose body hides a name of the root and, in a block of its own, one
of the block around the loop. -/
theorem statement_touches_own_scope_hiding :
    let before := [Step.declare ⟨"x", "int", .variable⟩ .start, .openBlock,
      .declare ⟨"y", "int", .variable⟩ .start]
    let ahead := [Lexeme.keyword "while", .op "(", .name "x", .op ")", .op "\x7b",
      .type "String", .name "x", .semicolon, .op "\x7b", .type "String", .name "y", .semicolon,
      .op "\x7d", .op "\x7d"].map (·.token .start)
    let session := (Session.start []).run before
    let read := Grammar.statementWithin 14 ⟨.start, []⟩ ahead
    let later := (session.run read.script).scopes
    session.current = 1 ∧ later.size = 4 ∧
      later.lookup 3 "x" = some ⟨"x", "String", .variable⟩ ∧
      later.lookup 3 "y" = some ⟨"y", "String", .variable⟩ ∧
      later.symbols 1 = [⟨"y", "int", .variable⟩] ∧
      (∀ id, 2 ≤ id → id < 4 → 1 ∈ later.around id) ∧
      ∀ id < 2, ∀ name, later.lookup id name = session.scopes.lookup id name := by
  intro before ahead session read later
  obtain ⟨item, rest, found, undeclared⟩ : ∃ item rest, read.result = .ok (item, rest) ∧
      item.symbol? = none := ⟨_, _, rfl, rfl⟩
  obtain ⟨_, _, _, _, _, _, inside, _, kept⟩ := statement_touches_own_scope [] before
    (List.cons_ne_nil _ _) (Nat.le_refl ahead.length) found
  have current : session.current = 1 := rfl
  have known : session.scopes.size = 2 := rfl
  have opened : later.size = 4 := by decide
  refine ⟨current, opened, by decide, by decide, by decide, fun id fresh bounded => ?_,
    fun id bounded => kept undeclared id (known ▸ bounded)⟩
  exact current ▸ inside id (known ▸ fresh) (opened ▸ bounded)

end BraceLang
