import Mathlib.Data.List.Nodup
import BraceLang.Proofs.Analysis
import BraceLang.Proofs.Node.Declarations
import BraceLang.Proofs.Scope.Growth

/-!
# Every declaration is accounted for

What a step declares is either bound in the current scope or found to be bound there
already, never both. So the names that a script declares are those of the symbols that it
adds to the table and those that it reports as declared twice, each as often. No scope
binds a name twice.
-/

namespace BraceLang

/-- The name that a diagnostic reports as declared twice. -/
def Diagnostic.redeclared? : Diagnostic → Option String
  | .redeclared name _ => some name
  | _ => none

/-- The names reported as declared twice. -/
def redeclared (diagnostics : List Diagnostic) : List String :=
  diagnostics.filterMap Diagnostic.redeclared?

@[simp] theorem redeclared_append (front back : List Diagnostic) :
    redeclared (front ++ back) = redeclared front ++ redeclared back :=
  List.filterMap_append

section Uses

variable {declared : String → Option String}

namespace Typing

theorem redeclared_ofReference (type : Option String) (name : String) (location : Location) :
    redeclared (ofReference type name location).diagnostics = [] := by
  cases type <;> rfl

theorem redeclared_ofBinary {left right : Typing} (op : BinaryOp) (location : Location)
    (lefts : redeclared left.diagnostics = []) (rights : redeclared right.diagnostics = []) :
    redeclared (ofBinary op left right location).diagnostics = [] := by
  rw [ofBinary, redeclared_append, redeclared_append, lefts, rights]
  cases left.type.agrees right.type <;> rfl

theorem redeclared_ofAssignment {target value : Typing} (written : String) (location : Location)
    (targets : redeclared target.diagnostics = []) (values : redeclared value.diagnostics = []) :
    redeclared (ofAssignment target value written location).diagnostics = [] := by
  rw [ofAssignment, redeclared_append, redeclared_append, targets, values]
  cases target.type.agrees value.type <;> rfl

end Typing

namespace Node

mutual

/-- No use of a name is reported as a declaration. -/
theorem redeclared_typed : (node : Node) → redeclared (node.typed declared).diagnostics = []
  | .number _ _ => rfl
  | .string _ _ => rfl
  | .reference name location => Typing.redeclared_ofReference _ name location
  | .binary op left right location => by
      rw [typed]
      exact Typing.redeclared_ofBinary op location (redeclared_typed left) (redeclared_typed right)
  | .unary _ operand _ => by
      rw [typed]
      exact redeclared_typed operand
  | .step _ operand _ => by
      rw [typed]
      exact redeclared_typed operand
  | .assignment target value location => by
      rw [typed]
      exact Typing.redeclared_ofAssignment _ location (redeclared_typed target)
        (redeclared_typed value)
  | .field object _ _ => by
      rw [typed]
      exact redeclared_typed object
  | .call callee args _ => by
      rw [typed, redeclared_append, redeclared_typed callee, redeclared_findingsOfArgs args]
      rfl
  | .variableDecl _ _ _ _
  | .methodDecl _ _ _ _ _
  | .classDecl _ _ _ _
  | .block _ _
  | .ifStmt _ _ _ _
  | .whileStmt _ _ _
  | .forStmt _ _ _ _ _
  | .returnStmt _ _
  | .breakStmt _
  | .continueStmt _ => rfl

theorem redeclared_findingsOfArgs : (args : List Node) →
    redeclared (findingsOfArgs declared args) = []
  | [] => rfl
  | arg :: args => by
      rw [findingsOfArgs, redeclared_append, redeclared_typed arg, redeclared_findingsOfArgs args]
      rfl

end

end Node
end Uses

namespace ScopeTable

variable {table : ScopeTable} {id : ScopeId}

/-- All symbols of a table, scope by scope. -/
def bindings (table : ScopeTable) : List Symbol := (List.range table.size).flatMap table.symbols

theorem bindings_eq (inhabited : 0 < table.size) :
    table.bindings =
      table.symbols root ++ (List.range' 1 (table.size - 1)).flatMap table.symbols := by
  obtain ⟨more, inhabited⟩ := Nat.exists_eq_add_of_lt inhabited
  rw [bindings, inhabited, List.range_eq_range', Nat.zero_add, List.range'_succ, List.flatMap_cons,
    Nat.add_sub_cancel]
  rfl

theorem bindings_enter (inside : id < table.size) (kind : ScopeKind) :
    (table.enter id kind).bindings = table.bindings := by
  have kept : (table.enter id kind).symbols = table.symbols := funext (symbols_enter inside kind)
  have fresh : table.symbols table.size = [] := by
    rw [symbols, scope_of_size_le (Nat.le_refl _)]
    rfl
  rw [bindings, size_enter, kept, List.range_succ, List.flatMap_append, List.flatMap_singleton,
    fresh, List.append_nil]
  rfl

/-- One more element in one of several lists is one more element of all together. -/
theorem perm_flatMap_concat {α β : Type} {lists more : α → List β} {index : α} {added : β}
    (here : more index = lists index ++ [added])
    (others : ∀ other, other ≠ index → more other = lists other) {all : List α}
    (distinct : all.Nodup) (member : index ∈ all) :
    (all.flatMap more).Perm (added :: all.flatMap lists) := by
  induction all with
  | nil => cases member
  | cons first rest inductionHypothesis =>
      obtain ⟨apart, distinct⟩ := List.nodup_cons.mp distinct
      rw [List.flatMap_cons, List.flatMap_cons]
      by_cases same : first = index
      · subst same
        have kept : rest.flatMap more = rest.flatMap lists :=
          List.flatMap_congr fun other member =>
            others other (ne_of_mem_of_not_mem member apart)
        rw [kept, here, List.append_assoc]
        exact List.perm_middle
      · have inside : index ∈ rest := (List.mem_cons.mp member).resolve_left (Ne.symm same)
        rw [others first same]
        exact ((inductionHypothesis distinct inside).append_left _).trans List.perm_middle

/-- A symbol that is bound is one more symbol of the table. -/
theorem bindings_bound (inside : id < table.size) {symbol : Symbol}
    (unbound : table.binds id symbol.name = false) :
    (table.bound id symbol).bindings.Perm (symbol :: table.bindings) := by
  rw [bindings, size_bound]
  refine perm_flatMap_concat ?_ (symbols_bound_of_ne inside symbol) List.nodup_range
    (List.mem_range.mpr inside)
  rw [symbols_bound inside, if_pos ⟨rfl, unbound⟩]

/-- Whether no two symbols of a scope have the same name. -/
def Distinct (symbols : List Symbol) : Prop := (symbols.map (·.name)).Nodup

theorem Distinct.declareIn {symbols : List Symbol} (distinct : Distinct symbols)
    (symbol : Symbol) : Distinct (ScopeTable.declareIn symbols symbol) := by
  rw [ScopeTable.declareIn]
  split_ifs with taken
  · exact distinct
  · have fresh : symbol.name ∉ symbols.map (·.name) := by simpa using taken
    rw [Distinct, List.map_append]
    exact List.nodup_append.mpr ⟨distinct, List.nodup_singleton _, fun name known other added =>
      List.mem_singleton.mp added ▸ ne_of_mem_of_not_mem known fresh⟩

theorem Distinct.declareAll {symbols : List Symbol} (distinct : Distinct symbols)
    (declared : List Symbol) : Distinct (ScopeTable.declareAll symbols declared) := by
  induction declared generalizing symbols with
  | nil => exact distinct
  | cons symbol declared inductionHypothesis =>
      exact inductionHypothesis (distinct.declareIn symbol)

end ScopeTable

namespace Session

variable {session : Session}

/-- What is declared from one session to the next is bound in the meantime or reported, each
declaration once. -/
def Accounts (session later : Session) (declared : List Symbol) (found : List Diagnostic) : Prop :=
  (later.scopes.bindings.map (·.name) ++ redeclared found).Perm
    (session.scopes.bindings.map (·.name) ++ declared.map (·.name))

theorem Accounts.trans {middle later : Session} {front back : List Symbol}
    {found further : List Diagnostic} (first : session.Accounts middle front found)
    (second : middle.Accounts later back further) :
    session.Accounts later (front ++ back) (found ++ further) := by
  let names (session : Session) := session.scopes.bindings.map (·.name)
  rw [Accounts, redeclared_append, List.map_append]
  calc
    List.Perm (names later ++ (redeclared found ++ redeclared further))
        (names later ++ redeclared further ++ redeclared found) := by
      rw [List.append_assoc]
      exact List.perm_append_comm.append_left _
    List.Perm _ (names middle ++ back.map (·.name) ++ redeclared found) :=
      second.append_right _
    List.Perm _ (names middle ++ redeclared found ++ back.map (·.name)) := by
      rw [List.append_assoc, List.append_assoc]
      exact List.perm_append_comm.append_left _
    List.Perm _ (names session ++ (front.map (·.name) ++ back.map (·.name))) := by
      rw [← List.append_assoc]
      exact first.append_right _

/-- Where nothing is declared, nothing is reported as declared twice. -/
theorem accounts_idle {later : Session} {found : List Diagnostic}
    (kept : later.scopes.bindings = session.scopes.bindings) (silent : redeclared found = []) :
    session.Accounts later [] found :=
  .of_eq (by rw [kept, silent]; rfl)

/-- A declaration binds its symbol, or reports its name. -/
theorem accounts_declare (rooted : session.Rooted) (symbol : Symbol) (location : Location) :
    session.Accounts (session.after (.declare symbol location)) [symbol]
      (session.diagnose (.declare symbol location)) := by
  cases taken : session.scopes.binds session.current symbol.name with
  | true =>
      have kept : session.after (.declare symbol location) = session := by
        rw [after, ScopeTable.bound_eq_self taken]
      rw [Accounts, kept, diagnose, if_pos taken]
      exact .refl _
  | false =>
      have silent : session.diagnose (.declare symbol location) = [] := by
        rw [diagnose, taken]
        rfl
      have added := (ScopeTable.bindings_bound rooted.inside taken).map (·.name)
      rw [Accounts, silent, redeclared, List.filterMap_nil, List.append_nil]
      exact added.trans (List.perm_append_singleton ..).symm

theorem accounts_after (rooted : session.Rooted) (step : Step) :
    session.Accounts (session.after step) step.symbol?.toList (session.diagnose step) := by
  cases step with
  | declare symbol location => exact accounts_declare rooted symbol location
  | enter kind => exact accounts_idle (ScopeTable.bindings_enter rooted.inside kind) rfl
  | openBlock => exact accounts_idle (ScopeTable.bindings_enter rooted.inside .block) rfl
  | leave | closeBlock | statement => exact accounts_idle rfl rfl
  | check expression =>
      refine accounts_idle rfl ?_
      rw [diagnose, Node.typing_eq_typed]
      exact Node.redeclared_typed expression
  | initial name type value =>
      refine accounts_idle rfl ?_
      have silent : ∀ type found place, redeclared (clash name type found place) = [] := by
        intro type found place
        rw [clash]
        split_ifs <;> rfl
      rw [diagnose, Node.typing_eq_typed, redeclared_append, Node.redeclared_typed, silent]
      rfl

/-- What a script declares is bound or reported by the time it has been carried out. -/
theorem accounts_run (rooted : session.Rooted) (script : List Step) :
    session.Accounts (session.run script) (declarations script) (session.diagnostics script) := by
  induction script generalizing session with
  | nil => exact accounts_idle rfl rfl
  | cons step script inductionHypothesis =>
      rw [declarations_cons, diagnostics]
      exact (accounts_after rooted step).trans (inductionHypothesis (rooted.after step))

/-- No step binds a name twice in one scope. -/
theorem distinct_after (rooted : session.Rooted)
    (distinct : ∀ id, ScopeTable.Distinct (session.scopes.symbols id)) (step : Step)
    (id : ScopeId) : ScopeTable.Distinct ((session.after step).scopes.symbols id) := by
  have entered (kind : ScopeKind) :
      ScopeTable.Distinct ((session.enter kind).scopes.symbols id) := by
    rw [enter, ScopeTable.symbols_enter rooted.inside]
    exact distinct id
  cases step with
  | declare symbol location =>
      by_cases here : id = session.current
      · subst here
        rw [after, ScopeTable.symbols_bound_self rooted.inside]
        exact (distinct _).declareIn symbol
      · rw [after, ScopeTable.symbols_bound_of_ne rooted.inside symbol id here]
        exact distinct id
  | enter kind => exact entered kind
  | openBlock => exact entered .block
  | leave | closeBlock | statement | check | initial => exact distinct id

theorem distinct_run (rooted : session.Rooted)
    (distinct : ∀ id, ScopeTable.Distinct (session.scopes.symbols id)) (script : List Step)
    (id : ScopeId) : ScopeTable.Distinct ((session.run script).scopes.symbols id) := by
  induction script generalizing session with
  | nil => exact distinct id
  | cons step script inductionHypothesis =>
      exact inductionHypothesis (rooted.after step) (distinct_after rooted distinct step)

theorem distinct_start (builtins : List Symbol) (id : ScopeId) :
    ScopeTable.Distinct ((start builtins).scopes.symbols id) := by
  by_cases here : id = ScopeTable.root
  · subst here
    rw [symbols_start]
    have empty : ScopeTable.Distinct [] := List.nodup_nil
    exact empty.declareAll builtins
  · have beyond : (start builtins).scopes.size ≤ id := by
      rw [(Follows.start builtins).size]
      exact Nat.one_le_iff_ne_zero.mpr here
    rw [ScopeTable.symbols, ScopeTable.scope_of_size_le beyond]
    exact List.nodup_nil

end Session

/-- Every declaration in the tree of a program is bound in some scope or reported as made
twice, once for each time that it is made. Besides, the root binds the builtins, of which the
first of each name stand in front. No scope binds a name twice. -/
theorem declarations_accounted_for {builtins : List Symbol} {tokens : List Token}
    {analysis : Analysis} (analyzed : analyzeTokens builtins tokens = .ok analysis) :
    ∃ own,
      analysis.scopes.symbols ScopeTable.root = builtins.eraseDupsBy (·.name == ·.name) ++ own ∧
      (analysis.program.declarations.map (·.name)).Perm
        ((own ++ (List.range' 1 (analysis.scopes.size - 1)).flatMap
          analysis.scopes.symbols).map (·.name) ++ redeclared analysis.diagnostics) ∧
      ∀ id, ((analysis.scopes.symbols id).map (·.name)).Nodup := by
  obtain ⟨script, items, taken, rfl⟩ := analyzeTokens_eq_ok_iff.mp analyzed
  have rooted := Session.Rooted.start builtins
  have single : (Session.start builtins).scopes.size = 1 := (Session.Follows.start builtins).size
  have grows := rooted.grows_run script
  obtain ⟨own, grown⟩ := grows.symbols ScopeTable.root (single ▸ Nat.one_pos)
  rw [Session.symbols_start, ScopeTable.declareAll_nil] at grown
  refine ⟨own, grown.symm, ?_, Session.distinct_run rooted (Session.distinct_start builtins) script⟩
  have builtinsAlone : (Session.start builtins).scopes.bindings =
      builtins.eraseDupsBy (·.name == ·.name) := by
    rw [ScopeTable.bindings_eq (single ▸ Nat.one_pos), single, Session.symbols_start,
      ScopeTable.declareAll_nil]
    exact List.append_nil _
  have accounts := Session.accounts_run rooted script
  rw [Session.Accounts, builtinsAlone,
    ScopeTable.bindings_eq (Nat.lt_of_lt_of_le Nat.one_pos (single ▸ grows.size)), ← grown,
    List.append_assoc, List.map_append, List.append_assoc] at accounts
  have declared : ((Input.ofTokens tokens).program items).declarations =
      (items.flatMap Grammar.Item.nodes).flatMap Node.declarations := Node.declarations_block _ _
  rw [Analysis.ofScript, declared]
  exact (taken.declarations_perm.map _).symm.trans
    ((List.perm_append_left_iff _).mp accounts).symm

/-- A class whose method comes in front of its field and has two parameters of one name and a
loop with a variable of its own, and a variable with the name of a builtin that is given twice. -/
theorem declarations_accounted_for_mixed :
    let builtins := [⟨"a", "int", .global⟩, ⟨"b", "int", .global⟩, ⟨"a", "String", .global⟩]
    let tokens := [Lexeme.keyword "class", .name "A", .op "\x7b", .type "int", .name "f", .op "(",
      .type "int", .name "p", .op ",", .type "int", .name "p", .op ")", .op "\x7b",
      .keyword "for", .op "(", .type "int", .name "i", .semicolon, .semicolon, .op ")",
      .op "\x7b", .op "\x7d", .op "\x7d", .type "int", .name "x", .semicolon, .op "\x7d",
      .type "int", .name "a", .semicolon, .endOfInput].map (·.token .start)
    ∃ analysis, analyzeTokens builtins tokens = .ok analysis ∧
      analysis.program.declarations.map (·.name) = ["A", "x", "f", "p", "p", "i", "a"] ∧
      redeclared analysis.diagnostics = ["p", "a"] ∧
      ∃ own, analysis.scopes.symbols ScopeTable.root = builtins.take 2 ++ own ∧
        own = [⟨"A", "class", .className⟩] ∧
        (analysis.program.declarations.map (·.name)).Perm
          ((own ++ (List.range' 1 (analysis.scopes.size - 1)).flatMap
            analysis.scopes.symbols).map (·.name) ++ ["p", "a"]) ∧
        ∀ id, ((analysis.scopes.symbols id).map (·.name)).Nodup := by
  intro builtins tokens
  obtain ⟨analysis, analyzed⟩ : ∃ analysis, analyzeTokens builtins tokens = .ok analysis :=
    ⟨_, rfl⟩
  obtain ⟨own, root, accounted, distinct⟩ := declarations_accounted_for analyzed
  have names : analysis.program.declarations.map (·.name) =
      ["A", "x", "f", "p", "p", "i", "a"] := by
    cases analyzed
    decide
  have twice : redeclared analysis.diagnostics = ["p", "a"] := by
    cases analyzed
    decide
  have bound : analysis.scopes.symbols ScopeTable.root =
      builtins.take 2 ++ [⟨"A", "class", .className⟩] := by
    cases analyzed
    decide
  have first : builtins.eraseDupsBy (·.name == ·.name) = builtins.take 2 := by decide
  rw [twice] at accounted
  rw [first] at root
  exact ⟨analysis, analyzed, names, twice, own, root,
    List.append_cancel_left (root.symm.trans bound), accounted, distinct⟩

end BraceLang
