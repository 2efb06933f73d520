import Mathlib.Data.List.Forall2
import BraceLang.Proofs.Scope.Regions
import BraceLang.Proofs.Statement.Shape

/-!
# The scopes of methods and classes

A method and a class each have a scope of their own, of a kind that nothing else has. The methods
and classes of a tree in preorder are those whose scopes are opened, in the order of opening: a
tree is only put together when its scopes have been left, and keeps the fields of a class in
front of its methods, but no field holds a method or a class.

`Opens` ties what a construct adds to a table to what it yields. Parameters are declared only
where the scope of their method has just been opened, so in every other scope, and behind the
parameters of a method, no further one is found.
-/

namespace BraceLang

/-- Whether a region is that of a method or a class. -/
def ScopeKind.isNamed : ScopeKind → Bool
  | .methodBody => true
  | .classBody => true
  | _ => false

namespace Node

/-- Whether a node is a method or a class. -/
def isNamed : Node → Bool
  | .methodDecl _ _ _ _ _ => true
  | .classDecl _ _ _ _ => true
  | _ => false

/-- The methods and classes among the nodes of a tree. -/
def named (node : Node) : List Node := node.preorder.filter isNamed

theorem named_eq (node : Node) :
    node.named = (if node.isNamed then [node] else []) ++ node.children.flatMap named := by
  rw [named, preorder_eq, List.filter_cons, List.filter_flatMap]
  cases node.isNamed <;> rfl

/-- In an expression through and through there is no method and no class. -/
theorem IsValue.named_eq_nil {node : Node} (value : node.IsValue) : node.named = [] := by
  rw [named, List.filter_eq_nil_iff]
  intro part member
  have expression := (value part member).1
  cases part <;> first | exact Bool.false_ne_true | exact absurd expression Bool.false_ne_true

theorem flatMap_named_eq_nil {nodes : List Node} (values : ∀ node ∈ nodes, node.IsValue) :
    nodes.flatMap named = [] :=
  List.flatMap_eq_nil_iff.mpr fun node member => (values node member).named_eq_nil

/-- Nor is there one in a variable with at most expressions below it. -/
theorem IsVariable.named_eq_nil {node : Node} (declares : node.IsVariable)
    (values : ∀ child ∈ node.children, child.IsValue) : node.named = [] := by
  rw [named_eq, flatMap_named_eq_nil values]
  cases declares
  rfl

section Statements

variable (guard : Node) (init condition update : Option Node) (body fields methods : List Node)
  (location : Location)

@[simp] theorem named_methodDecl (returnType : Option String) (name : String)
    (params : List Param) :
    (methodDecl returnType name params body location).named =
      methodDecl returnType name params body location :: body.flatMap named :=
  named_eq _

@[simp] theorem named_classDecl (name : String) :
    (classDecl name fields methods location).named =
      classDecl name fields methods location :: (fields ++ methods).flatMap named :=
  named_eq _

@[simp] theorem named_ifStmt (otherwise : Option (List Node)) :
    (ifStmt guard body otherwise location).named =
      guard.named ++ (body.flatMap named ++ (otherwise.getD []).flatMap named) :=
  (named_eq _).trans (congrArg (_ ++ ·) List.flatMap_append)

@[simp] theorem named_whileStmt :
    (whileStmt guard body location).named = guard.named ++ body.flatMap named :=
  named_eq _

@[simp] theorem named_forStmt :
    (forStmt init condition update body location).named =
      init.toList.flatMap named ++ (condition.toList.flatMap named ++
        (update.toList.flatMap named ++ body.flatMap named)) := by
  rw [named_eq, children, List.flatMap_append, List.flatMap_append, List.flatMap_append]
  rfl

@[simp] theorem named_returnStmt :
    (returnStmt init location).named = init.toList.flatMap named :=
  named_eq _

end Statements

end Node

namespace Grammar.Member

variable {className : String} {all : List Member}

theorem flatMap_named_fields (members : ∀ member ∈ all, member.IsOf className) :
    (all.filterMap field?).flatMap Node.named = [] := by
  rw [List.flatMap_eq_nil_iff]
  intro node member
  obtain ⟨_ | _, among, found⟩ := List.mem_filterMap.mp member
  · cases found
    exact (members _ among).1.named_eq_nil (members _ among).2
  · cases found

/-- As fields hold no methods and no classes, those of a class are in the order of its members,
whichever of them come first. -/
theorem flatMap_named (members : ∀ member ∈ all, member.IsOf className) :
    (all.filterMap field? ++ all.filterMap method?).flatMap Node.named =
      (all.map node).flatMap Node.named := by
  rw [List.flatMap_append, flatMap_named_fields members, List.nil_append]
  induction all with
  | nil => rfl
  | cons member others inductionHypothesis =>
      obtain ⟨first, others⟩ := List.forall_mem_cons.mp members
      cases member with
      | field tree =>
          rw [List.filterMap_cons_none rfl, List.map_cons, List.flatMap_cons,
            inductionHypothesis others]
          exact (congrArg (· ++ _) (first.1.named_eq_nil first.2)).symm
      | method tree => exact congrArg (tree.named ++ ·) (inductionHypothesis others)

end Grammar.Member

namespace ScopeTable

variable {table middle grown : ScopeTable} {id parent : ScopeId}

/-- Whether a scope is that of a method or a class. The symbols of a method are its parameters, of
one name the first, and behind them others that are no parameters. -/
def IsScopeOf (table : ScopeTable) (id : ScopeId) : Node → Prop
  | .methodDecl _ _ params _ _ =>
    table.kind id = .methodBody ∧ ∃ locals,
      table.symbols id = (params.map Param.symbol).eraseDupsBy (·.name == ·.name) ++ locals ∧
        ∀ symbol ∈ locals, symbol.kind ≠ .parameter
  | .classDecl _ _ _ _ => table.kind id = .classBody
  | _ => False

/-- The scopes of methods and classes among the scopes of numbers from `first` on. -/
def namedFrom (table : ScopeTable) (first count : Nat) : List ScopeId :=
  (List.range' first count).filter fun id => (table.kind id).isNamed

/-- A table has grown by the scopes of methods and classes and by others. No parameter was added
but to the former. -/
structure Opens (table grown : ScopeTable) (nodes : List Node) : Prop where
  size : table.size ≤ grown.size
  kind : ∀ id < table.size, grown.kind id = table.kind id
  symbols : ∀ id < table.size, ∃ added, grown.symbols id = table.symbols id ++ added ∧
    ∀ symbol ∈ added, symbol.kind ≠ .parameter
  named : List.Forall₂ (fun node id => grown.IsScopeOf id node) nodes
    (grown.namedFrom table.size (grown.size - table.size))
  others : ∀ id, table.size ≤ id → id < grown.size → grown.kind id ≠ .methodBody →
    ∀ symbol ∈ grown.symbols id, symbol.kind ≠ .parameter

/-- Only a scope of the table is that of a method or a class. -/
theorem IsScopeOf.lt_size {node : Node} (scope : table.IsScopeOf id node) : id < table.size := by
  refine Nat.lt_of_not_le fun beyond => ?_
  have block : table.kind id = .block := by
    rw [kind, scope_of_size_le beyond]
    rfl
  cases node with
  | methodDecl => exact ScopeKind.noConfusion (block.symm.trans scope.1)
  | classDecl => exact ScopeKind.noConfusion (block.symm.trans scope)
  | _ => exact scope

namespace Opens

variable {nodes others : List Node}

/-- What a scope is the scope of stays so, as long as no parameters are added. -/
theorem isScopeOf {node : Node} (opens : table.Opens grown nodes)
    (scope : table.IsScopeOf id node) : grown.IsScopeOf id node := by
  have inside := scope.lt_size
  have kept := opens.kind id inside
  cases node with
  | methodDecl =>
      obtain ⟨region, locals, symbols, plain⟩ := scope
      obtain ⟨added, more, alsoPlain⟩ := opens.symbols id inside
      refine ⟨kept.trans region, locals ++ added, ?_, ?_⟩
      · rw [more, symbols, List.append_assoc]
      · exact List.forall_mem_append.mpr ⟨plain, alsoPlain⟩
  | classDecl => exact kept.trans scope
  | _ => exact scope

theorem refl (table : ScopeTable) : table.Opens table [] where
  size := Nat.le_refl _
  kind _ _ := rfl
  symbols id _ := ⟨[], (List.append_nil _).symm, List.forall_mem_nil _⟩
  named := by
    rw [Nat.sub_self]
    exact .nil
  others id added inside := absurd inside (Nat.not_lt_of_le added)

theorem trans (first : table.Opens middle nodes) (second : middle.Opens grown others) :
    table.Opens grown (nodes ++ others) where
  size := Nat.le_trans first.size second.size
  kind id inside :=
    (second.kind id (Nat.lt_of_lt_of_le inside first.size)).trans (first.kind id inside)
  symbols id inside := by
    obtain ⟨added, grows, plain⟩ := first.symbols id inside
    obtain ⟨further, growsFurther, alsoPlain⟩ :=
      second.symbols id (Nat.lt_of_lt_of_le inside first.size)
    refine ⟨added ++ further, ?_, List.forall_mem_append.mpr ⟨plain, alsoPlain⟩⟩
    rw [growsFurther, grows, List.append_assoc]
  named := by
    -- The scopes opened first have smaller numbers, and keep their kinds.
    have split : grown.namedFrom table.size (grown.size - table.size) =
        middle.namedFrom table.size (middle.size - table.size) ++
          grown.namedFrom middle.size (grown.size - middle.size) := by
      have lower : table.size + (middle.size - table.size) = middle.size :=
        Nat.add_sub_cancel' first.size
      have total : grown.size - table.size =
          (middle.size - table.size) + (grown.size - middle.size) := by
        have := second.size
        omega
      rw [namedFrom, total, ← List.range'_append_1, lower, List.filter_append]
      refine congrArg (· ++ _) (List.filter_congr fun id member => ?_)
      rw [second.kind id (lower ▸ (List.mem_range'_1.mp member).2)]
    rw [split]
    exact List.rel_append (first.named.imp fun node id => second.isScopeOf) second.named
  others id added inside region := by
    by_cases known : id < middle.size
    · obtain ⟨further, grows, plain⟩ := second.symbols id known
      rw [second.kind id known] at region
      rw [grows]
      exact List.forall_mem_append.mpr ⟨first.others id added known region, plain⟩
    · exact second.others id (Nat.le_of_not_lt known) inside region

/-- Where a scope is opened, the table has grown by that scope. -/
theorem enter (inside : parent < table.size) (kind : ScopeKind)
    (scope : List.Forall₂ (fun node id => (table.enter parent kind).IsScopeOf id node) nodes
      (if kind.isNamed then [table.size] else [])) :
    table.Opens (table.enter parent kind) nodes where
  size := by
    rw [size_enter]
    exact Nat.le_succ _
  kind id known := by rw [kind_enter inside, if_neg (Nat.ne_of_lt known)]
  symbols id _ := ⟨[], by rw [symbols_enter inside, List.append_nil], List.forall_mem_nil _⟩
  named := by
    have own : (table.enter parent kind).kind table.size = kind := by
      rw [kind_enter inside, if_pos rfl]
    rw [size_enter, Nat.add_sub_cancel_left, namedFrom, List.range'_one, List.filter_cons, own]
    exact scope
  others id added known _ := by
    rw [symbols_enter inside, ScopeTable.symbols, scope_of_size_le added]
    exact List.forall_mem_nil _

theorem bound (inside : id < table.size) {symbol : Symbol} (plain : symbol.kind ≠ .parameter) :
    table.Opens (table.bound id symbol) [] where
  size := Nat.le_of_eq (size_bound ..).symm
  kind other _ := kind_bound inside symbol other
  symbols other _ := by
    rw [symbols_bound inside]
    split_ifs with here
    · exact ⟨[symbol], by rw [here.1], List.forall_mem_singleton.mpr plain⟩
    · exact ⟨[], (List.append_nil _).symm, List.forall_mem_nil _⟩
  named := by
    rw [size_bound, Nat.sub_self]
    exact .nil
  others other added known := by
    rw [size_bound] at known
    exact absurd known (Nat.not_lt_of_le added)

end Opens

/-- Binding symbols in one scope changes only what that scope binds. -/
theorem foldl_bound_apart (inside : id < table.size) (symbols : List Symbol) :
    let later := symbols.foldl (fun table symbol => table.bound id symbol) table
    later.size = table.size ∧ (∀ other, later.kind other = table.kind other) ∧
      ∀ other, other ≠ id → later.symbols other = table.symbols other := by
  induction symbols generalizing table with
  | nil => exact ⟨rfl, fun _ => rfl, fun _ _ => rfl⟩
  | cons symbol symbols inductionHypothesis =>
      have still : id < (table.bound id symbol).size := by rwa [size_bound]
      obtain ⟨size, kinds, apart⟩ := inductionHypothesis still
      refine ⟨size.trans (size_bound ..), fun other => ?_, fun other different => ?_⟩
      · exact (kinds other).trans (kind_bound inside symbol other)
      · exact (apart other different).trans (symbols_bound_of_ne inside symbol other different)

/-- The scope of a method is opened and its parameters are bound there before anything else. -/
theorem Opens.method (inside : parent < table.size) (returnType : Option String) (name : String)
    (params : List Param) (body : List Node) (location : Location) :
    table.Opens ((params.map Param.symbol).foldl
        (fun later symbol => later.bound table.size symbol) (table.enter parent .methodBody))
      [.methodDecl returnType name params body location] := by
  have entered : table.size < (table.enter parent .methodBody).size := by
    rw [size_enter]
    exact Nat.lt_succ_self _
  obtain ⟨size, kinds, apart⟩ := foldl_bound_apart entered (params.map Param.symbol)
  have own := symbols_foldl_bound entered (params.map Param.symbol)
  have fresh : (table.enter parent .methodBody).symbols table.size = [] := by
    rw [symbols_enter inside, ScopeTable.symbols, scope_of_size_le (Nat.le_refl _)]
    rfl
  have region : (table.enter parent .methodBody).kind table.size = .methodBody := by
    rw [kind_enter inside, if_pos rfl]
  rw [fresh, declareAll_nil] at own
  generalize (params.map Param.symbol).foldl
    (fun later symbol => later.bound table.size symbol) (table.enter parent .methodBody) = later
    at size kinds apart own ⊢
  rw [size_enter] at size
  refine ⟨?_, ?_, ?_, ?_, ?_⟩
  · rw [size]
    exact Nat.le_succ _
  · intro id known
    rw [kinds, kind_enter inside, if_neg (Nat.ne_of_lt known)]
  · intro id known
    refine ⟨[], ?_, List.forall_mem_nil _⟩
    rw [apart id (Nat.ne_of_lt known), symbols_enter inside, List.append_nil]
  · have scope : later.IsScopeOf table.size
        (.methodDecl returnType name params body location) :=
      ⟨(kinds _).trans region, [], own.trans (List.append_nil _).symm, List.forall_mem_nil _⟩
    have alone : later.namedFrom table.size (later.size - table.size) = [table.size] := by
      rw [size, Nat.add_sub_cancel_left, namedFrom, List.range'_one, List.filter_cons, kinds,
        region]
      rfl
    rw [alone]
    exact .cons scope .nil
  · intro id added known other
    rw [size] at known
    obtain rfl := Nat.le_antisymm (Nat.le_of_lt_succ known) added
    exact absurd ((kinds _).trans region) other

/-- The root is the scope of no method and no class. -/
theorem KeepsRegions.named_eq (keeps : table.KeepsRegions) (inhabited : 0 < table.size) :
    ((List.range table.size).filter fun id => (table.kind id).isNamed) =
      table.namedFrom 1 (table.size - 1) := by
  have global : table.kind root = .global := (keeps.global root inhabited).mpr rfl
  obtain ⟨others, size⟩ := Nat.exists_eq_add_one_of_ne_zero (Nat.ne_of_gt inhabited)
  rw [size, List.range_eq_range', List.range'_succ, List.filter_cons]
  change (if (table.kind root).isNamed then _ else _) = _
  rw [global]
  rfl

end ScopeTable

/-- Whether a script, wherever it is carried out, opens the scopes of `nodes` in turn. -/
def OpensScopes (script : List Step) (nodes : List Node) : Prop :=
  ∀ session : Session, session.Rooted → session.scopes.Opens (session.run script).scopes nodes

namespace OpensScopes

variable {script front back : List Step} {nodes others : List Node}

theorem nil : OpensScopes [] [] := fun session _ => .refl session.scopes

theorem append (first : OpensScopes front nodes) (second : OpensScopes back others) :
    OpensScopes (front ++ back) (nodes ++ others) := fun session rooted => by
  rw [Session.run_append]
  exact (first session rooted).trans (second _ (rooted.run front))

/-- A step that neither opens a scope nor declares anything opens no scope. -/
theorem cons_of_kept {step : Step}
    (kept : ∀ session : Session, (session.after step).scopes = session.scopes)
    (further : OpensScopes script nodes) : OpensScopes (step :: script) nodes :=
  fun session rooted => by
    rw [← kept session]
    exact further _ (rooted.after step)

theorem declare {symbol : Symbol} (plain : symbol.kind ≠ .parameter) (location : Location)
    (further : OpensScopes script nodes) : OpensScopes (.declare symbol location :: script) nodes :=
  fun session rooted =>
    (ScopeTable.Opens.bound rooted.inside plain).trans
      (further (session.after (.declare symbol location)) (rooted.after _))

theorem check (expression : Node) (further : OpensScopes script nodes) :
    OpensScopes (.check expression :: script) nodes :=
  .cons_of_kept (fun _ => rfl) further

theorem leave (further : OpensScopes script nodes) : OpensScopes (.leave :: script) nodes :=
  .cons_of_kept (fun _ => rfl) further

theorem openBlock : OpensScopes [.openBlock] [] := fun _ rooted =>
  .enter rooted.inside .block .nil

/-- A block itself is the scope of no method and no class. -/
theorem block (inside : OpensScopes script nodes) (further : OpensScopes back others) :
    OpensScopes (.enter .block :: (script ++ .leave :: back)) (nodes ++ others) :=
  fun _ rooted =>
    (ScopeTable.Opens.enter rooted.inside .block .nil).trans
      (inside.append (leave further) _ (rooted.enter .block))

/-- The scope of a class is opened in front of those of its members. -/
theorem classBody (inside : OpensScopes script nodes) (name : String) (fields methods : List Node)
    (location : Location) :
    OpensScopes (.enter .classBody :: (script ++ [.leave]))
      (.classDecl name fields methods location :: nodes) := fun session rooted => by
  have scope : (session.scopes.enter session.current .classBody).IsScopeOf session.scopes.size
      (.classDecl name fields methods location) := by
    rw [ScopeTable.IsScopeOf, ScopeTable.kind_enter rooted.inside, if_pos rfl]
  have members := inside.append (leave nil) _ (rooted.enter .classBody)
  rw [List.append_nil] at members
  exact (ScopeTable.Opens.enter rooted.inside .classBody (.cons scope .nil)).trans members

end OpensScopes

namespace Grammar

open Node

section Parts

variable {ahead rest : List Token} {script : List Step}

theorem TakesClause.opensScopes {closing : Lexeme} {value : Option Node}
    (taken : TakesClause closing ahead script value rest) : OpensScopes script [] := by
  cases taken with
  | absent => exact .nil
  | present => exact .check _ .nil

theorem TakesVariable.opensScopes {node : Node} (taken : TakesVariable ahead script node rest) :
    OpensScopes script [] := by
  cases taken with
  | plain => exact .declare SymbolKind.noConfusion _ .nil
  | initialized =>
      exact .declare SymbolKind.noConfusion _ (.cons_of_kept (fun _ => rfl) .nil)

theorem TakesVariable.named_eq_nil {node : Node} (taken : TakesVariable ahead script node rest) :
    node.named = [] :=
  taken.isVariable.named_eq_nil taken.isValue_of_mem_children

theorem TakesInitializer.named_eq_nil {init : Option Node}
    (taken : TakesInitializer ahead script init rest) : init.toList.flatMap Node.named = [] := by
  cases taken with
  | clause taken => exact flatMap_named_eq_nil taken.isValue
  | declared taken => exact (List.flatMap_singleton ..).trans taken.named_eq_nil

theorem TakesInitializer.opensScopes {init : Option Node}
    (taken : TakesInitializer ahead script init rest) : OpensScopes script [] := by
  cases taken with
  | clause taken => exact taken.opensScopes
  | declared taken => exact taken.opensScopes

/-- The symbols of parameters are bound in turn where they are read. -/
theorem TakesFurtherParameters.run {params : List Param}
    (taken : TakesFurtherParameters ahead script params rest) (session : Session) :
    session.run script = ⟨(params.map Param.symbol).foldl
      (fun later symbol => later.bound session.current symbol) session.scopes,
        session.current⟩ := by
  induction taken generalizing session with
  | closed => rfl
  | next _ _ _ _ _ _ inductionHypothesis => exact inductionHypothesis _

theorem TakesParameters.run {params : List Param}
    (taken : TakesParameters ahead script params rest) (session : Session) :
    session.run script = ⟨(params.map Param.symbol).foldl
      (fun later symbol => later.bound session.current symbol) session.scopes,
        session.current⟩ := by
  cases taken with
  | none => rfl
  | some _ _ _ _ others => exact others.run _

/-- The scope of a method is opened in front of those in its body. -/
theorem TakesParameters.opensScopes {params : List Param} {inside : List Step} {nodes : List Node}
    (taken : TakesParameters ahead script params rest) (opens : OpensScopes inside nodes)
    (returnType : Option String) (name : String) (body : List Node) (location : Location) :
    OpensScopes (.enter .methodBody :: (script ++ (inside ++ [.leave])))
      (.methodDecl returnType name params body location :: nodes) := fun session rooted => by
  have bound := taken.run (session.enter .methodBody)
  have further := opens.append (.leave .nil) ((session.enter .methodBody).run script)
    ((rooted.enter .methodBody).run script)
  rw [List.append_nil, ← Session.run_append, bound] at further
  exact (ScopeTable.Opens.method rooted.inside returnType name params body location).trans further

theorem opensScopes_mark (ahead : List Token) : OpensScopes (mark ahead) [] := by
  cases ahead with
  | nil => exact .nil
  | cons => exact .cons_of_kept (fun _ => rfl) .nil

end Parts

/-- A construct opens the scopes of the methods and classes of what it yields. -/
theorem Takes.opensScopes {construct : Construct} {ahead rest : List Token} {script : List Step}
    {value : construct.Yield} (taken : Takes construct ahead script value rest) :
    OpensScopes script ((construct.nodes value).flatMap Node.named) := by
  induction taken with
  | statement _ inductionHypothesis => exact (opensScopes_mark _).append inductionHypothesis
  | declared taken =>
      simpa [Construct.nodes, Item.nodes, taken.named_eq_nil] using taken.opensScopes
  | method _ _ _ inductionHypothesis
  | conditional _ inductionHypothesis
  | elseIf _ _ inductionHypothesis => exact inductionHypothesis
  | expression _ _ _ derived =>
      simpa [Construct.nodes, Item.nodes, derived.isValue.named_eq_nil]
        using OpensScopes.check _ .nil
  | whileLoop _ _ _ _ guarded _ inductionHypothesis =>
      refine .check _ ?_
      simpa [Construct.nodes, Item.nodes, guarded.isValue.named_eq_nil]
        using inductionHypothesis.block .nil
  | forLoop _ _ _ initTaken guardTaken updateTaken _ inductionHypothesis =>
      have framed := (initTaken.opensScopes.append (guardTaken.opensScopes.append
        (updateTaken.opensScopes.append inductionHypothesis))).block .nil
      simpa [Construct.nodes, Item.nodes, initTaken.named_eq_nil,
        flatMap_named_eq_nil guardTaken.isValue, flatMap_named_eq_nil updateTaken.isValue]
        using framed
  | returned _ taken =>
      simpa [Construct.nodes, Item.nodes, flatMap_named_eq_nil taken.isValue]
        using taken.opensScopes
  | closedJump jumps | openJump jumps => cases jumps <;> exact .nil
  | @classBody name word namePlace _ _ _ _ members taken inductionHypothesis =>
      -- The scopes are opened in the order of the members, whichever of them the class keeps first.
      have framed := inductionHypothesis.classBody name (members.filterMap Member.field?)
        (members.filterMap Member.method?) word
      rw [Construct.nodes, ← Member.flatMap_named taken.stands] at framed
      refine .declare SymbolKind.noConfusion namePlace ?_
      simpa [Construct.nodes, Item.nodes] using framed
  | opened => exact .openBlock
  | closed => exact .cons_of_kept (fun _ => rfl) .nil
  | idle | noElse | bodyEnd | membersEnd => exact .nil
  | arm _ _ _ _ guarded _ _ bodyOpens othersOpen =>
      refine .check _ ?_
      simpa [Construct.nodes, guarded.isValue.named_eq_nil] using bodyOpens.block othersOpen
  | elseBody _ _ _ inductionHypothesis =>
      simpa [Construct.nodes] using inductionHypothesis.block .nil
  | methodRest returnType name namePlace _ _ paramsTaken _ inductionHypothesis =>
      refine .declare SymbolKind.noConfusion namePlace ?_
      simpa [Construct.nodes] using paramsTaken.opensScopes inductionHypothesis
        (returnType.map (·.text)) name _
        (returnType.getD ((Lexeme.name name).token namePlace)).location
  | bodyItem _ _ _ firstOpens othersOpen =>
      simpa [Construct.nodes] using firstOpens.append othersOpen
  | field _ taken _ inductionHypothesis =>
      simpa [Construct.nodes, Member.node, taken.named_eq_nil]
        using taken.opensScopes.append inductionHypothesis
  | typedMethod _ _ _ _ _ methodOpens othersOpen
  | constructor _ _ _ _ methodOpens othersOpen =>
      simpa [Construct.nodes, Member.node] using methodOpens.append othersOpen

theorem TakesProgram.opensScopes {ahead : List Token} {script : List Step} {items : List Item}
    (taken : TakesProgram ahead script items) :
    OpensScopes script ((items.flatMap Item.nodes).flatMap Node.named) := by
  induction taken with
  | nil => exact .nil
  | cons first _ inductionHypothesis =>
      rw [List.flatMap_cons, List.flatMap_append]
      exact first.opensScopes.append inductionHypothesis

end Grammar

/-- The kinds of scopes mirror the tree of a program. Only the root is global. The methods and
classes of the tree in preorder are those of the scopes of methods and classes in the order of
their numbers, and the parameters of each method stand in front in its scope. No other parameter
is bound anywhere, unless it is a builtin. In a class nothing is opened but methods and nothing
is bound but variables and methods. Constructors stand in the class that has their name. -/
theorem scope_kinds_mirror_tree {builtins : List Symbol} {tokens : List Token}
    {analysis : Analysis} (analyzed : analyzeTokens builtins tokens = .ok analysis) :
    (∀ id < analysis.scopes.size, analysis.scopes.kind id = .global ↔ id = ScopeTable.root) ∧
    List.Forall₂ (fun node id => analysis.scopes.IsScopeOf id node)
      (analysis.program.preorder.filter Node.isNamed)
      ((List.range analysis.scopes.size).filter fun id => (analysis.scopes.kind id).isNamed) ∧
    (∃ own,
      analysis.scopes.symbols ScopeTable.root = builtins.eraseDupsBy (·.name == ·.name) ++ own ∧
        ∀ symbol ∈ own, symbol.kind ≠ .parameter) ∧
    (∀ id < analysis.scopes.size, id ≠ ScopeTable.root → analysis.scopes.kind id ≠ .methodBody →
      ∀ symbol ∈ analysis.scopes.symbols id, symbol.kind ≠ .parameter) ∧
    (∀ id, analysis.scopes.kind id = .classBody →
      (∀ child ∈ analysis.scopes.children id, analysis.scopes.kind child = .methodBody) ∧
        ∀ symbol ∈ analysis.scopes.symbols id,
          symbol.kind = .variable ∨ symbol.kind = .method) ∧
    ∀ name params body location,
      analysis.program ≠ .methodDecl none name params body location ∧
        ∀ parent ∈ analysis.program.preorder,
          .methodDecl none name params body location ∈ parent.children →
            ∃ fields methods place, parent = .classDecl name fields methods place := by
  obtain ⟨script, items, taken, rfl⟩ := analyzeTokens_eq_ok_iff.mp analyzed
  have rooted := Session.Rooted.start builtins
  have single : (Session.start builtins).scopes.size = 1 := (Session.Follows.start builtins).size
  have opens := taken.opensScopes (Session.start builtins) rooted
  have tree := (rooted.built_run (Session.built_start builtins) script).consistent
  obtain ⟨later, suits⟩ : ∃ later, Suits [.global] script later :=
    taken.suits (List.forall_mem_singleton.mpr ScopeKind.noConfusion)
  rw [← Session.regions_start builtins] at suits
  have keeps := Session.keepsRegions_run rooted (Session.keepsRegions_start builtins) suits
  have fits : ((Input.ofTokens tokens).program items).FitsThroughout := taken.fits _
  have inhabited : 0 < (Session.start builtins).scopes.size := single ▸ Nat.one_pos
  refine ⟨keeps.global, ?_, ?_, fun id inside inner => opens.others id ?_ inside,
    fun id region => ⟨fun child member => ?_, keeps.symbols id region⟩,
    fun name params body location => ⟨Node.noConfusion, fun parent among member => ?_⟩⟩
  · have scopes := keeps.named_eq (Nat.lt_of_lt_of_le inhabited opens.size)
    have nodes : ((Input.ofTokens tokens).program items).named =
        (items.flatMap Grammar.Item.nodes).flatMap Node.named := Node.named_eq _
    have named := opens.named
    rw [single, ← scopes, ← nodes] at named
    exact named
  · have root := opens.symbols ScopeTable.root inhabited
    rw [Session.symbols_start, ScopeTable.declareAll_nil] at root
    exact root
  · rw [single]
    exact Nat.one_le_iff_ne_zero.mpr inner
  · exact keeps.children child id ((tree.children id child).mp member) region
  · rcases (fits parent among).of_mem_children member with value | stands | own
    · cases value
    · cases stands
    · obtain ⟨_, fields, methods, place, rfl, ⟨⟩⟩ := own
      exact ⟨fields, methods, place, rfl⟩

/-- A class in a block that is never closed: a constructor in front of a field, a method with two
parameters of one name and a class in its body, and behind them a method in an else branch. -/
theorem scope_kinds_mirror_tree_nested :
    let tokens := [Lexeme.op "\x7b", .keyword "class", .name "A", .op "\x7b",
      .name "A", .op "(", .op ")", .op "\x7b", .op "\x7d", .type "int", .name "x", .semicolon,
      .type "int", .name "f", .op "(", .type "int", .name "p", .op ",", .type "char", .name "p",
      .op ")", .op "\x7b", .type "int", .name "y", .semicolon, .keyword "class", .name "B",
      .op "\x7b", .op "\x7d", .op "\x7d", .op "\x7d",
      .keyword "if", .op "(", .name "x", .op ")", .op "\x7b", .op "\x7d", .keyword "else",
      .op "\x7b", .type "void", .name "g", .op "(", .op ")", .op "\x7b", .op "\x7d", .op "\x7d",
      .endOfInput].map (·.token .start)
    ∃ analysis, analyzeTokens standardBuiltins tokens = .ok analysis ∧
      (List.range 9).map analysis.scopes.kind =
        [.global, .block, .classBody, .methodBody, .methodBody, .classBody, .block, .block,
          .methodBody] ∧
      (analysis.program.preorder.filter Node.isNamed).length = 5 ∧
      List.Forall₂ (fun node id => analysis.scopes.IsScopeOf id node)
        (analysis.program.preorder.filter Node.isNamed) [2, 3, 4, 5, 8] ∧
      analysis.scopes.symbols 4 = [⟨"p", "int", .parameter⟩, ⟨"y", "int", .variable⟩,
        ⟨"B", "class", .className⟩] := by
  intro tokens
  obtain ⟨analysis, analyzed⟩ : ∃ analysis, analyzeTokens standardBuiltins tokens = .ok analysis :=
    ⟨_, rfl⟩
  obtain ⟨-, mirrored, -⟩ := scope_kinds_mirror_tree analyzed
  have named : (List.range analysis.scopes.size).filter
      (fun id => (analysis.scopes.kind id).isNamed) = [2, 3, 4, 5, 8] := by
    cases analyzed
    decide +kernel
  rw [named] at mirrored
  refine ⟨analysis, analyzed, ?_, mirrored.length_eq, mirrored, ?_⟩
  · cases analyzed
    decide +kernel
  · cases analyzed
    decide +kernel

end BraceLang
