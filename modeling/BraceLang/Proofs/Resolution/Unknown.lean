import BraceLang.Proofs.Analysis
import BraceLang.Proofs.Scope.Builtins

/-!
# An unknown name does not cascade

What is found wrong with a program that uses an unknown name is compared with what is found
wrong once a builtin of that name is added. The reports of the name go; all others stay, in
their order; and where its uses now have a type, clashes of types may come to light. So not
knowing a name hides mistakes and never makes any up.

The argument is a comparison of two runs. The unknown type is below every type; an
expression typed with more names known has a type that is not below the one it had, and is
found to have the mistakes it had before, the reports of the name aside.
-/

namespace BraceLang

/-- `whole` has the elements of `front` and those of `back`, both in their order. -/
inductive Interleaved {α : Type} : (front back whole : List α) → Prop where
  | nil : Interleaved [] [] []
  | left {front back whole : List α} (first : α) (others : Interleaved front back whole) :
      Interleaved (first :: front) back (first :: whole)
  | right {front back whole : List α} (first : α) (others : Interleaved front back whole) :
      Interleaved front (first :: back) (first :: whole)

namespace Interleaved

variable {α : Type} {front back whole front₂ back₂ whole₂ : List α}

theorem append (first : Interleaved front back whole) (second : Interleaved front₂ back₂ whole₂) :
    Interleaved (front ++ front₂) (back ++ back₂) (whole ++ whole₂) := by
  induction first with
  | nil => exact second
  | left first _ inductionHypothesis => exact .left first inductionHypothesis
  | right first _ inductionHypothesis => exact .right first inductionHypothesis

theorem of_left (front : List α) : Interleaved front [] front := by
  induction front with
  | nil => exact .nil
  | cons first front inductionHypothesis => exact .left first inductionHypothesis

theorem sublist (interleaved : Interleaved front back whole) : front.Sublist whole := by
  induction interleaved with
  | nil => exact .slnil
  | left first _ inductionHypothesis => exact inductionHypothesis.cons_cons first
  | right first _ inductionHypothesis => exact inductionHypothesis.cons first

end Interleaved

namespace Diagnostic

/-- Whether a diagnostic reports that a name is not declared. -/
def reports (name : String) : Diagnostic → Bool
  | .undeclared other _ => other = name
  | _ => false

/-- Whether a diagnostic is about two types that do not agree. -/
def isClash : Diagnostic → Bool
  | .mismatch _ _ _ _ => true
  | .incompatible _ _ _ _ => true
  | _ => false

theorem reports_of_isClash {diagnostic : Diagnostic} (clash : diagnostic.isClash = true)
    (name : String) : diagnostic.reports name = false := by
  cases diagnostic with
  | redeclared | undeclared => cases clash
  | mismatch | incompatible => rfl

end Diagnostic

/-- What is found wrong with a name unknown, and with the name known: its reports are gone, the
rest is as it was, and clashes of types may have come in between. -/
structure Uncovers (name : String) (unknown known : List Diagnostic) : Prop where
  settled : ∀ diagnostic ∈ known, diagnostic.reports name = false
  kept : ∃ clashes, Interleaved (unknown.filter (!·.reports name)) clashes known ∧
    ∀ clash ∈ clashes, clash.isClash = true

namespace Uncovers

variable {name : String} {unknown known unknown₂ known₂ found : List Diagnostic}

theorem append (first : Uncovers name unknown known) (second : Uncovers name unknown₂ known₂) :
    Uncovers name (unknown ++ unknown₂) (known ++ known₂) where
  settled diagnostic member := by
    rcases List.mem_append.mp member with front | back
    · exact first.settled diagnostic front
    · exact second.settled diagnostic back
  kept := by
    obtain ⟨clashes, interleaved, clashing⟩ := first.kept
    obtain ⟨clashes₂, interleaved₂, clashing₂⟩ := second.kept
    refine ⟨clashes ++ clashes₂, ?_, fun clash member => ?_⟩
    · rw [List.filter_append]
      exact interleaved.append interleaved₂
    · rcases List.mem_append.mp member with front | back
      · exact clashing clash front
      · exact clashing₂ clash back

/-- What does not report the name stays. -/
theorem same (silent : ∀ diagnostic ∈ found, diagnostic.reports name = false) :
    Uncovers name found found where
  settled := silent
  kept := by
    have all : found.filter (!·.reports name) = found :=
      List.filter_eq_self.mpr fun diagnostic member => by rw [silent diagnostic member]; rfl
    exact ⟨[], all.symm ▸ .of_left found, nofun⟩

theorem nil : Uncovers name [] [] := same nofun

/-- The report of the name goes. -/
theorem report (location : Location) : Uncovers name [.undeclared name location] [] where
  settled := nofun
  kept := ⟨[], by simpa [Diagnostic.reports] using Interleaved.nil, nofun⟩

/-- A clash may come to light. -/
theorem clash {diagnostic : Diagnostic} (clash : diagnostic.isClash = true) :
    Uncovers name [] [diagnostic] where
  settled other member := by
    obtain rfl := List.mem_singleton.mp member
    exact Diagnostic.reports_of_isClash clash name
  kept := by
    refine ⟨[diagnostic], .right diagnostic .nil, fun other member => ?_⟩
    obtain rfl := List.mem_singleton.mp member
    exact clash

end Uncovers

/-- The unknown type is below every type, and every type below itself. -/
inductive Ty.Below : Ty → Ty → Prop where
  | unknown (type : Ty) : Below .unknown type
  | same (type : Ty) : Below type type

/-- Two types that are known and differ also differ when others are known better; whether they
agree may turn out otherwise. -/
theorem Uncovers.clashes {name : String} {left right betterLeft betterRight : Ty}
    {report : Ty → Ty → Diagnostic} (clashes : ∀ left right, (report left right).isClash = true)
    (lower : left.Below betterLeft) (alsoLower : right.Below betterRight) :
    Uncovers name (if left.agrees right then [] else [report left right])
      (if betterLeft.agrees betterRight then [] else [report betterLeft betterRight]) := by
  have revealed : Uncovers name []
      (if betterLeft.agrees betterRight then [] else [report betterLeft betterRight]) := by
    split_ifs
    · exact .nil
    · exact .clash (clashes _ _)
  cases lower with
  | unknown => exact revealed
  | same =>
      cases alsoLower with
      | unknown =>
          have agrees : left.agrees .unknown = true := by cases left <;> rfl
          rw [if_pos agrees]
          exact revealed
      | same =>
          refine .same fun diagnostic member => ?_
          split_ifs at member
          · cases member
          · obtain rfl := List.mem_singleton.mp member
            exact Diagnostic.reports_of_isClash (clashes _ _) name

/-- A name that may be undeclared is declared by the second of two environments. Otherwise both
declare the same. -/
structure Settles (name : String) (declared better : String → Option String) : Prop where
  others : ∀ other, other ≠ name → better other = declared other
  kept : ∀ type, declared name = some type → better name = some type
  known : ∃ type, better name = some type

/-- The typing of an expression with a name unknown, and with the name known. -/
structure Typing.Improves (name : String) (typing better : Typing) : Prop where
  type : typing.type.Below better.type
  diagnostics : Uncovers name typing.diagnostics better.diagnostics

namespace Typing.Improves

variable {name : String} {left right betterLeft betterRight : Typing}

theorem same (type : Ty) : Improves name ⟨type, []⟩ ⟨type, []⟩ :=
  ⟨.same type, .nil⟩

theorem ofReference {declared better : String → Option String}
    (settles : Settles name declared better) (other : String) (location : Location) :
    Improves name (.ofReference (declared other) other location)
      (.ofReference (better other) other location) := by
  by_cases own : other = name
  · subst own
    obtain ⟨type, known⟩ := settles.known
    cases found : declared other with
    | none =>
        rw [known]
        exact ⟨.unknown _, .report location⟩
    | some type =>
        rw [settles.kept type found]
        exact .same _
  · rw [settles.others other own]
    cases declared other with
    | none =>
        refine ⟨.same _, .same fun diagnostic member => ?_⟩
        obtain rfl := List.mem_singleton.mp member
        exact decide_eq_false own
    | some type => exact .same _

theorem ofBinary (lefts : Improves name left betterLeft) (rights : Improves name right betterRight)
    (op : BinaryOp) (location : Location) :
    Improves name (.ofBinary op left right location)
      (.ofBinary op betterLeft betterRight location) where
  type := lefts.type
  diagnostics := by
    have clashes (left right : Ty) :
        (Diagnostic.incompatible op.symbol left.text right.text location).isClash = true := rfl
    exact (lefts.diagnostics.append rights.diagnostics).append
      (.clashes clashes lefts.type rights.type)

theorem ofAssignment (targets : Improves name left betterLeft)
    (values : Improves name right betterRight) (written : String) (location : Location) :
    Improves name (.ofAssignment left right written location)
      (.ofAssignment betterLeft betterRight written location) where
  type := targets.type
  diagnostics := by
    have clashes (left right : Ty) :
        (Diagnostic.mismatch written left.text right.text location).isClash = true := rfl
    exact (targets.diagnostics.append values.diagnostics).append
      (.clashes clashes targets.type values.type)

end Typing.Improves

namespace Node

variable {name : String} {declared better : String → Option String}

mutual

/-- With one name more known, an expression is typed no worse. -/
theorem typed_improves (settles : Settles name declared better) :
    (node : Node) → (node.typed declared).Improves name (node.typed better)
  | .number digits _ => by
      rw [typed, typed]
      exact .same _
  | .string _ _ => by
      rw [typed, typed]
      exact .same _
  | .reference other location => by
      rw [typed, typed]
      exact .ofReference settles other location
  | .binary op left right location => by
      rw [typed, typed]
      exact (typed_improves settles left).ofBinary (typed_improves settles right) op location
  | .unary _ operand _ => by
      rw [typed, typed]
      exact typed_improves settles operand
  | .step _ operand _ => by
      rw [typed, typed]
      exact typed_improves settles operand
  | .assignment target value location => by
      rw [typed, typed]
      exact (typed_improves settles target).ofAssignment (typed_improves settles value) _ location
  | .field object _ _ => by
      rw [typed, typed]
      exact ⟨.same _, (typed_improves settles object).diagnostics⟩
  | .call callee args _ => by
      rw [typed, typed]
      have called := typed_improves settles callee
      exact ⟨called.type, called.diagnostics.append (findingsOfArgs_uncovers settles args)⟩
  | .variableDecl _ _ _ _ => .same _
  | .methodDecl _ _ _ _ _ => .same _
  | .classDecl _ _ _ _ => .same _
  | .block _ _ => .same _
  | .ifStmt _ _ _ _ => .same _
  | .whileStmt _ _ _ => .same _
  | .forStmt _ _ _ _ _ => .same _
  | .returnStmt _ _ => .same _
  | .breakStmt _ => .same _
  | .continueStmt _ => .same _

theorem findingsOfArgs_uncovers (settles : Settles name declared better) :
    (args : List Node) →
      Uncovers name (findingsOfArgs declared args) (findingsOfArgs better args)
  | [] => .nil
  | arg :: args => by
      rw [findingsOfArgs, findingsOfArgs]
      exact (typed_improves settles arg).diagnostics.append (findingsOfArgs_uncovers settles args)

end

end Node

/-- Where the way outward ends at the root, the scopes below are asked first. -/
theorem ScopeTable.lookup_of_path {table : ScopeTable} {id : ScopeId} {inner : List ScopeId}
    (outward : table.path id = inner ++ [root]) (word : String) :
    table.lookup id word = ((inner.map table.symbols).findSome? (meaning · word)).or
      (meaning (table.symbols root) word) := by
  rw [lookup_eq_findSome, outward, List.map_append, List.findSome?_append, List.map_singleton,
    List.findSome?_singleton]

namespace Session

variable {session other : Session} {name : String}

/-- Two sessions differ in nothing but a name that the root of the first does not bind and that of
the second does. -/
structure Learns (name : String) (session other : Session) : Prop where
  same : session.SameBelowRoot other
  unknown : meaning (session.scopes.symbols ScopeTable.root) name = none
  known : (meaning (other.scopes.symbols ScopeTable.root) name).isSome = true
  others : ∀ word, word ≠ name → meaning (other.scopes.symbols ScopeTable.root) word =
    meaning (session.scopes.symbols ScopeTable.root) word

namespace Learns

/-- A name other than the new one means the same in every scope of both. -/
theorem meaning_eq (learns : session.Learns name other) {word : String} (different : word ≠ name)
    (id : ScopeId) :
    meaning (other.scopes.symbols id) word = meaning (session.scopes.symbols id) word := by
  by_cases own : id = ScopeTable.root
  · subst own
    exact learns.others word different
  · rw [learns.same.scopes.symbols id own]

/-- The new name means what it meant before wherever it meant something, since the root is asked
last. -/
theorem settles (learns : session.Learns name other) (rooted : session.Rooted)
    {machine : BraceMachine} (follows : session.Follows machine) :
    Settles name session.declaredType other.declaredType := by
  obtain ⟨inner, outward, below⟩ := rooted.descending.exists_path_eq
    (fun _ inside => follows.eq_root_of_parent inside) rooted.inside
  have otherOutward : other.scopes.path other.current = inner ++ [ScopeTable.root] := by
    rw [learns.same.current, ScopeTable.path_congr learns.same.scopes.parent, outward]
  have innerSame : inner.map other.scopes.symbols = inner.map session.scopes.symbols := by
    refine List.map_congr_left fun id member => ?_
    exact learns.same.scopes.symbols id fun own => below (own ▸ member)
  have found := ScopeTable.lookup_of_path outward
  have otherFound := ScopeTable.lookup_of_path otherOutward
  constructor
  · intro word different
    rw [declaredType, declaredType, ScopeTable.declaredType, ScopeTable.declaredType, found,
      otherFound, innerSame, learns.others word different]
  · intro type declared
    rw [declaredType, ScopeTable.declaredType, found, learns.unknown, Option.or_none] at declared
    rw [declaredType, ScopeTable.declaredType, otherFound, innerSame]
    obtain ⟨symbol, bound, rfl⟩ := Option.map_eq_some_iff.mp declared
    rw [bound, Option.some_or, Option.map_some]
  · obtain ⟨symbol, bound⟩ := Option.isSome_iff_exists.mp learns.known
    rw [declaredType, ScopeTable.declaredType, otherFound, bound]
    cases (inner.map other.scopes.symbols).findSome? (meaning · name) with
    | none => exact ⟨symbol.type, rfl⟩
    | some inner => exact ⟨inner.type, rfl⟩

/-- A declaration is refused in both sessions or in neither, unless the root comes to bind the new
name. -/
theorem binds_eq (learns : session.Learns name other) {symbol : Symbol}
    (apart : session.current = ScopeTable.root → symbol.name ≠ name) :
    other.scopes.binds other.current symbol.name =
      session.scopes.binds session.current symbol.name := by
  rw [learns.same.current]
  by_cases own : session.current = ScopeTable.root
  · have means (table : ScopeTable) (id : ScopeId) :
        table.binds id symbol.name = (meaning (table.symbols id) symbol.name).isSome :=
      binds_eq_isSome ⟨table, id⟩ symbol.name
    rw [means, means, learns.meaning_eq (apart own)]
  · exact ScopeTable.binds_congr (learns.same.scopes.symbols _ own) _

/-- As long as the root does not come to bind the new name, no declaration there is one of it. -/
theorem name_ne (learns : session.Learns name other) (rooted : session.Rooted) {symbol : Symbol}
    {location : Location}
    (still : meaning ((session.after (.declare symbol location)).scopes.symbols ScopeTable.root)
      name = none)
    (own : session.current = ScopeTable.root) : symbol.name ≠ name := by
  rintro rfl
  have fresh : session.scopes.binds session.current symbol.name = false := by
    rw [binds_eq_isSome, frames, own, learns.unknown]
    rfl
  rw [after, ScopeTable.symbols_bound rooted.inside, if_pos ⟨own.symm, fresh⟩, meaning_append,
    meaning_cons, if_pos rfl] at still
  cases known : meaning (session.scopes.symbols session.current) symbol.name <;>
    simp [known] at still

theorem declare (learns : session.Learns name other) (rooted : session.Rooted) (symbol : Symbol)
    (location : Location)
    (still : meaning ((session.after (.declare symbol location)).scopes.symbols ScopeTable.root)
      name = none) :
    (session.after (.declare symbol location)).Learns name
      (other.after (.declare symbol location)) := by
  have apart := learns.name_ne rooted still
  have inside := learns.same.scopes.size ▸ rooted.inside
  rw [← learns.same.current] at inside
  have same := learns.same.after rooted (.declare symbol location)
  have together : (ScopeTable.root = other.current ∧
      other.scopes.binds other.current symbol.name = false) ↔
      (ScopeTable.root = session.current ∧
        session.scopes.binds session.current symbol.name = false) := by
    rw [learns.binds_eq apart, learns.same.current]
  -- At the root both gain the symbol or neither does.
  by_cases gained : ScopeTable.root = session.current ∧
      session.scopes.binds session.current symbol.name = false
  · have otherGained := together.mpr gained
    refine ⟨same, still, ?_, fun word different => ?_⟩
    · rw [after, ScopeTable.symbols_bound inside, if_pos otherGained, ← otherGained.1,
        meaning_append, Option.isSome_or, learns.known, Bool.true_or]
    · rw [after, ScopeTable.symbols_bound inside, if_pos otherGained, ← otherGained.1, after,
        ScopeTable.symbols_bound rooted.inside, if_pos gained, ← gained.1, meaning_append,
        meaning_append, learns.others word different]
  · have otherGained := mt together.mp gained
    refine ⟨same, still, ?_, fun word different => ?_⟩
    · rw [after, ScopeTable.symbols_bound inside, if_neg otherGained, learns.known]
    · rw [after, ScopeTable.symbols_bound inside, if_neg otherGained, after,
        ScopeTable.symbols_bound rooted.inside, if_neg gained, learns.others word different]

theorem after (learns : session.Learns name other) (rooted : session.Rooted) (step : Step)
    (still : meaning ((session.after step).scopes.symbols ScopeTable.root) name = none) :
    (session.after step).Learns name (other.after step) := by
  have otherInside : other.current < other.scopes.size := by
    rw [learns.same.current, learns.same.scopes.size]
    exact rooted.inside
  cases step with
  | declare symbol location => exact learns.declare rooted symbol location still
  | enter | openBlock =>
      refine ⟨learns.same.after rooted _, still, ?_, fun word different => ?_⟩
      · rw [Session.after, Session.enter, ScopeTable.symbols_enter otherInside, learns.known]
      · rw [Session.after, Session.enter, ScopeTable.symbols_enter otherInside, Session.after,
          Session.enter, ScopeTable.symbols_enter rooted.inside, learns.others word different]
  | leave | closeBlock | statement | check | initial =>
      exact ⟨learns.same.after rooted _, still, learns.known, learns.others⟩

/-- At a step, the session that knows the name finds what the other does, the reports of the name
aside, and perhaps clashes. -/
theorem uncovers_diagnose (learns : session.Learns name other) (rooted : session.Rooted)
    {machine : BraceMachine} (follows : session.Follows machine) (step : Step)
    (still : meaning ((session.after step).scopes.symbols ScopeTable.root) name = none) :
    Uncovers name (session.diagnose step) (other.diagnose step) := by
  have settles := learns.settles rooted follows
  cases step with
  | declare symbol location =>
      rw [diagnose, diagnose, learns.binds_eq (learns.name_ne rooted still)]
      refine .same fun diagnostic member => ?_
      split_ifs at member
      · obtain rfl := List.mem_singleton.mp member
        rfl
      · cases member
  | check expression =>
      rw [diagnose, diagnose, Node.typing_eq_typed, Node.typing_eq_typed]
      exact (Node.typed_improves settles expression).diagnostics
  | initial target type value =>
      rw [diagnose, diagnose, Node.typing_eq_typed, Node.typing_eq_typed]
      have improves := Node.typed_improves settles value
      have clashes (expected found : Ty) :
          (Diagnostic.mismatch target type found.text value.location).isClash = true := rfl
      exact improves.diagnostics.append (.clashes clashes (.same (.known type)) improves.type)
  | statement | enter | leave | openBlock | closeBlock => exact .nil

/-- A name that the root does not bind in the end it has never bound. -/
theorem unknown_of_run (rooted : session.Rooted) (script : List Step)
    (unknown : meaning ((session.run script).scopes.symbols ScopeTable.root) name = none) :
    meaning (session.scopes.symbols ScopeTable.root) name = none := by
  have inside : ScopeTable.root < session.scopes.size :=
    Nat.lt_of_le_of_lt (Nat.zero_le _) rooted.inside
  obtain ⟨added, grown⟩ := (rooted.grows_run script).symbols ScopeTable.root inside
  rw [← grown, meaning_append, Option.or_eq_none_iff] at unknown
  exact unknown.1

/-- In the course of a script that never binds the name at the root, the session that knows the
name finds what the other does, the reports of the name aside, and perhaps clashes. -/
theorem uncovers_run (learns : session.Learns name other) (rooted : session.Rooted)
    {machine : BraceMachine} (follows : session.Follows machine) (script : List Step)
    (unknown : meaning ((session.run script).scopes.symbols ScopeTable.root) name = none) :
    Uncovers name (session.diagnostics script) (other.diagnostics script) := by
  induction script generalizing session other machine with
  | nil => exact .nil
  | cons step script inductionHypothesis =>
      have still := unknown_of_run (rooted.after step) script unknown
      exact (learns.uncovers_diagnose rooted follows step still).append
        (inductionHypothesis (learns.after rooted step still) (rooted.after step)
          (follows.after step) unknown)

/-- A builtin may be added anywhere among the others. -/
theorem start {front back : List Symbol} {symbol : Symbol}
    (unknown : meaning ((Session.start (front ++ back)).scopes.symbols ScopeTable.root)
      symbol.name = none) :
    (Session.start (front ++ back)).Learns symbol.name
      (Session.start (front ++ symbol :: back)) where
  same := .start _ _
  unknown := unknown
  known := by
    have known := (frames_start (front ++ symbol :: back)).2 symbol.name
    rw [meaning_append, meaning_cons, if_pos rfl] at known
    have bound := congrArg Option.isSome known
    rwa [Option.isSome_or, Option.isSome_some, Bool.or_true] at bound
  others word different := by
    have same := (frames_start (front ++ symbol :: back)).2 word
    rw [meaning_append, meaning_cons, if_neg different.symm, ← meaning_append] at same
    exact same.trans ((frames_start (front ++ back)).2 word).symm

end Learns
end Session

/-- Let a program be analysed with builtins of which none is called `symbol.name`, and let no
declaration at the root be one of that name either. With the symbol as a further builtin, the
reports of its name are gone, and everything else that was found wrong is found again, in the
same order. What is found in addition are clashes of types. -/
theorem unknown_name_never_cascades {front back : List Symbol} {symbol : Symbol}
    {tokens : List Token} {analysis : Analysis}
    (analyzed : analyzeTokens (front ++ back) tokens = .ok analysis)
    (unbound : analysis.scopes.binds ScopeTable.root symbol.name = false) :
    let others := analysis.diagnostics.filter (!·.reports symbol.name)
    ∃ better, analyzeTokens (front ++ symbol :: back) tokens = .ok better ∧
      others.Sublist better.diagnostics ∧
      (∀ diagnostic ∈ better.diagnostics, diagnostic.reports symbol.name = false) ∧
      ∃ clashes, Interleaved others clashes better.diagnostics ∧
        ∀ clash ∈ clashes, clash.isClash = true := by
  intro others
  obtain ⟨script, items, taken, rfl⟩ := analyzeTokens_eq_ok_iff.mp analyzed
  have rooted := Session.Rooted.start (front ++ back)
  have unknown : meaning (((Session.start (front ++ back)).run script).scopes.symbols
      ScopeTable.root) symbol.name = none := by
    have known := Session.binds_eq_isSome
      ⟨((Session.start (front ++ back)).run script).scopes, ScopeTable.root⟩ symbol.name
    have absent := Option.isSome_eq_false_iff.mp (known.symm.trans unbound)
    exact Option.isNone_iff_eq_none.mp absent
  have learns := Session.Learns.start (Session.Learns.unknown_of_run rooted script unknown)
  obtain ⟨settled, clashes, interleaved, clashing⟩ :=
    learns.uncovers_run rooted (Session.Follows.start _) script unknown
  exact ⟨_, analyzeTokens_eq_ok_iff.mpr ⟨script, items, taken, rfl⟩, interleaved.sublist, settled,
    clashes, interleaved, clashing⟩

/-- A name that is used as an initial value and as an operand, and that a block hides in between. -/
theorem unknown_name_never_cascades_hidden :
    let symbol : Symbol := ⟨"y", "int", .global⟩
    let tokens := [Lexeme.type "String", .name "s", .op "=", .name "y", .semicolon, .op "\x7b",
      .type "String", .name "y", .op "=", .mk .number "1", .semicolon, .name "y", .semicolon,
      .op "\x7d", .name "s", .op "+", .name "y", .semicolon, .name "z", .semicolon,
      .endOfInput].map (·.token .start)
    let mistaken := Diagnostic.mismatch "y" "String" "int" .start
    let others := [mistaken, .undeclared "z" .start]
    ∃ analysis better, analyzeTokens standardBuiltins tokens = .ok analysis ∧
      analysis.scopes.binds ScopeTable.root symbol.name = false ∧
      analysis.diagnostics.filter (!·.reports symbol.name) = others ∧
      analyzeTokens (standardBuiltins ++ [symbol]) tokens = .ok better ∧
      better.diagnostics = [.mismatch "s" "String" "int" .start, mistaken,
        .incompatible "+" "String" "int" .start, .undeclared "z" .start] ∧
      others.Sublist better.diagnostics := by
  intro symbol tokens mistaken others
  obtain ⟨analysis, analyzed⟩ : ∃ analysis, analyzeTokens standardBuiltins tokens = .ok analysis :=
    ⟨_, rfl⟩
  have unbound : analysis.scopes.binds ScopeTable.root symbol.name = false := by
    cases analyzed
    decide
  have kept : analysis.diagnostics.filter (!·.reports symbol.name) = others := by
    cases analyzed
    decide
  have whole : standardBuiltins ++ [] = standardBuiltins := rfl
  obtain ⟨better, known, sublist, _⟩ :=
    unknown_name_never_cascades (whole.symm ▸ analyzed) unbound
  have found : better.diagnostics = [.mismatch "s" "String" "int" .start, mistaken,
      .incompatible "+" "String" "int" .start, .undeclared "z" .start] := by
    cases known
    decide
  exact ⟨analysis, better, analyzed, unbound, kept, known, found, kept ▸ sublist⟩

end BraceLang
