import Mathlib.Logic.Equiv.Basic
import BraceLang.Proofs.Layout
import BraceLang.Proofs.Scope.Relabelling
import BraceLang.Proofs.Statement.Types

/-!
# Names never matter

Names and types are compared with one another and, apart from the types of literals and of
classes, with no word that is fixed. If all words change one to one and those few stay, an
analysis comes to what it came to before, in the other words.

A clash of types names its target. It is found only between types that are known, so the target
is a name and not a field, and its text in other words is the other word for it.
-/

namespace BraceLang

variable {change : Relabelling}

/-- Whether the types of literals keep their words. -/
structure Relabelling.KeepsLiterals (change : Relabelling) : Prop where
  int : change.word "int" = "int"
  double : change.word "double" = "double"
  string : change.word "String" = "String"

/-- A type in another word. -/
def Ty.relabel (change : Relabelling) : Ty → Ty
  | .known name => .known (change.word name)
  | .unknown => .unknown

/-- A diagnostic in other words at another place. -/
def Diagnostic.relabel (change : Relabelling) : Diagnostic → Diagnostic
  | .redeclared name location => .redeclared (change.word name) (change.place location)
  | .undeclared name location => .undeclared (change.word name) (change.place location)
  | .mismatch target expected found location =>
    .mismatch (change.word target) (change.word expected) (change.word found)
      (change.place location)
  | .incompatible op left right location =>
    .incompatible op (change.word left) (change.word right) (change.place location)

/-- A typing with everything in it in other words at other places. -/
def Typing.relabel (change : Relabelling) (typing : Typing) : Typing :=
  ⟨typing.type.relabel change, typing.diagnostics.map (Diagnostic.relabel change)⟩

/-- An analysis with everything in it in other words at other places. -/
def Analysis.relabel (change : Relabelling) (analysis : Analysis) : Analysis :=
  ⟨analysis.program.relabel change, analysis.scopes.relabel change, analysis.current,
    analysis.diagnostics.map (Diagnostic.relabel change)⟩

namespace Ty

@[simp] theorem agrees_relabel (left right : Ty) :
    (left.relabel change).agrees (right.relabel change) = left.agrees right := by
  cases left <;> cases right <;> first | rfl | exact decide_eq_decide.mpr change.injective.eq_iff

/-- Types that do not agree are both known, so their texts are their names. -/
theorem text_relabel {left right : Ty} (disagree : left.agrees right = false)
    (change : Relabelling) :
    (left.relabel change).text = change.word left.text ∧
      (right.relabel change).text = change.word right.text := by
  cases left <;> cases right <;> first | exact ⟨rfl, rfl⟩ | cases disagree

theorem ofNumber_relabel (keeps : change.KeepsLiterals) (digits : String) :
    (ofNumber digits).relabel change = ofNumber digits := by
  rw [ofNumber]
  split_ifs
  · exact congrArg known keeps.double
  · exact congrArg known keeps.int

end Ty

namespace Typing

theorem ofReference_relabel (declared : Option String) (name : String) (location : Location) :
    ofReference (declared.map change.word) (change.word name) (change.place location) =
      (ofReference declared name location).relabel change := by
  cases declared <;> rfl

theorem ofBinary_relabel (op : BinaryOp) (left right : Typing) (location : Location) :
    ofBinary op (left.relabel change) (right.relabel change) (change.place location) =
      (ofBinary op left right location).relabel change := by
  cases agreed : left.type.agrees right.type with
  | true => simp [ofBinary, relabel, agreed]
  | false =>
      obtain ⟨leftText, rightText⟩ := Ty.text_relabel agreed change
      simp [ofBinary, relabel, Diagnostic.relabel, agreed, leftText, rightText]

/-- The text of a target matters only if the types do not agree. -/
theorem ofAssignment_relabel {target value : Typing} {written other : String}
    (location : Location)
    (spoken : target.type.agrees value.type = false → other = change.word written) :
    ofAssignment (target.relabel change) (value.relabel change) other (change.place location) =
      (ofAssignment target value written location).relabel change := by
  cases agreed : target.type.agrees value.type with
  | true => simp [ofAssignment, relabel, agreed]
  | false =>
      obtain ⟨targetText, valueText⟩ := Ty.text_relabel agreed change
      simp [ofAssignment, relabel, Diagnostic.relabel, agreed, targetText, valueText,
        spoken agreed]

end Typing

namespace Node

variable {declared other : String → Option String}

theorem findingsOfArgs_relabel_of_forall {args : List Node}
    (each : ∀ arg ∈ args, (arg.relabel change).typed other = (arg.typed declared).relabel change) :
    findingsOfArgs other (relabelAll change args) =
      (findingsOfArgs declared args).map (Diagnostic.relabel change) := by
  induction args with
  | nil => rfl
  | cons arg args inductionHypothesis =>
      obtain ⟨first, others⟩ := List.forall_mem_cons.mp each
      rw [relabelAll, findingsOfArgs, findingsOfArgs, first, inductionHypothesis others,
        List.map_append]
      rfl

/-- The text of what is assigned to, where its type is known, is a name. -/
theorem text_relabel_of_disagree {target : Node} {found : Ty}
    (assignable : Grammar.Assignable target)
    (disagree : (target.typed declared).type.agrees found = false) :
    (target.relabel change).text = change.word target.text := by
  cases assignable with
  | reference => rfl
  | field => cases disagree

/-- If other words are declared with the other types, an expression has the type it had before
in the other word, and in other words the same is wrong with it. -/
theorem typed_relabel_of_fits (keeps : change.KeepsLiterals)
    (declares : ∀ name, other (change.word name) = (declared name).map change.word)
    {node : Node} (fits : node.FitsThroughout) :
    (node.relabel change).typed other = (node.typed declared).relabel change := by
  induction node using induction_children with
  | step node inductionHypothesis =>
      have here : node.Fits := fits node (List.mem_cons_self ..)
      have below (child : Node) (member : child ∈ node.children) :
          (child.relabel change).typed other = (child.typed declared).relabel change :=
        inductionHypothesis child member fun part inside =>
          fits part (mem_preorder_of_mem_children member inside)
      cases node with
      | number digits _ =>
          exact congrArg (Typing.mk · []) (Ty.ofNumber_relabel keeps digits).symm
      | string => exact congrArg (fun word => Typing.mk (.known word) []) keeps.string.symm
      | reference name location =>
          rw [relabel, typed, declares, Typing.ofReference_relabel, typed]
      | binary op left right location =>
          obtain ⟨leftTyped, others⟩ := List.forall_mem_cons.mp below
          rw [relabel, typed, leftTyped, List.forall_mem_singleton.mp others,
            Typing.ofBinary_relabel, typed]
      | unary _ operand _ | step _ operand _ =>
          rw [relabel, typed, List.forall_mem_singleton.mp below, typed]
      | assignment target value location =>
          obtain ⟨targetTyped, others⟩ := List.forall_mem_cons.mp below
          rw [relabel, typed, targetTyped, List.forall_mem_singleton.mp others, typed]
          exact Typing.ofAssignment_relabel location (text_relabel_of_disagree here.1)
      | field object name location =>
          rw [relabel, typed, List.forall_mem_singleton.mp below, typed]
          rfl
      | call callee args location =>
          obtain ⟨calleeTyped, argsTyped⟩ := List.forall_mem_cons.mp below
          rw [relabel, typed, calleeTyped, findingsOfArgs_relabel_of_forall argsTyped, typed]
          simp only [Typing.relabel, List.map_append]
      | _ => rfl

end Node

namespace Session

variable {step : Step} {script : List Step}

/-- A step in other words finds the same wrong, in other words. -/
theorem diagnose_relabel_relabel (keeps : change.KeepsLiterals) (session : Session)
    (values : ∀ expression ∈ step.typed?, expression.IsValue) :
    (session.relabel change).diagnose (step.relabel change) =
      (session.diagnose step).map (Diagnostic.relabel change) := by
  have typed {expression : Node} (value : expression.IsValue) :=
    Node.typed_relabel_of_fits keeps session.declaredType_relabel value.fitsThroughout
  cases step with
  | declare symbol location =>
      have same : (session.relabel change).scopes.binds session.current
          (symbol.relabel change).name = session.scopes.binds session.current symbol.name :=
        ScopeTable.binds_relabel ..
      change (if (session.relabel change).scopes.binds session.current
        (symbol.relabel change).name then _ else _) = _
      rw [same, diagnose]
      split <;> rfl
  | check expression =>
      rw [Step.relabel, diagnose, diagnose, Node.typing_eq_typed, Node.typing_eq_typed,
        typed (values expression rfl)]
      rfl
  | initial name type value =>
      have clashes (found : Ty) (location : Location) :
          clash (change.word name) (change.word type) (found.relabel change)
              (change.place location) =
            (clash name type found location).map (Diagnostic.relabel change) := by
        have agrees : (Ty.known (change.word type)).agrees (found.relabel change) =
            (Ty.known type).agrees found :=
          Ty.agrees_relabel (.known type) found
        rw [clash, agrees, clash]
        split_ifs with agreed
        · rfl
        · rw [Bool.not_eq_true] at agreed
          rw [(Ty.text_relabel agreed change).2]
          rfl
      simp only [Step.relabel, diagnose, Node.typing_eq_typed, typed (values value rfl),
        Node.relabel_location, List.map_append]
      exact congrArg _ (clashes _ _)
  | _ => rfl

theorem run_relabel_relabel (session : Session) (script : List Step) :
    (session.relabel change).run (script.map (Step.relabel change)) =
      (session.run script).relabel change := by
  induction script generalizing session with
  | nil => rfl
  | cons step script inductionHypothesis =>
      rw [List.map_cons, run_cons, run_cons, after_relabel_relabel, inductionHypothesis]

theorem diagnostics_relabel_relabel (keeps : change.KeepsLiterals) (session : Session)
    (values : Grammar.TypesValues script) :
    (session.relabel change).diagnostics (script.map (Step.relabel change)) =
      (session.diagnostics script).map (Diagnostic.relabel change) := by
  induction script generalizing session with
  | nil => rfl
  | cons step script inductionHypothesis =>
      obtain ⟨here, others⟩ := List.forall_mem_cons.mp values
      rw [List.map_cons, diagnostics, diagnostics, diagnose_relabel_relabel keeps session here,
        after_relabel_relabel, inductionHypothesis _ others, List.map_append]

end Session

section Analysis

variable {builtins : List Symbol} {tokens : List Token}

/-- Scripts of which one is the other in other words, but for their marks, come to the same. -/
theorem Analysis.ofScript_relabel (keeps : change.KeepsLiterals) (builtins : List Symbol)
    (program : Node) {script other : List Step}
    (same : unmarked other = (unmarked script).map (Step.relabel change))
    (values : Grammar.TypesValues script) :
    ofScript (builtins.map (Symbol.relabel change)) other (program.relabel change) =
      (ofScript builtins script program).relabel change := by
  have unmarkedValues : Grammar.TypesValues (unmarked script) := fun step member =>
    values step (List.mem_of_mem_filter member)
  have ran (session : Session) :
      (session.relabel change).run other = (session.run script).relabel change := by
    rw [← Session.run_unmarked _ other, same, Session.run_relabel_relabel, Session.run_unmarked]
  have found (session : Session) : (session.relabel change).diagnostics other =
      (session.diagnostics script).map (Diagnostic.relabel change) := by
    rw [← Session.diagnostics_unmarked _ other, same,
      Session.diagnostics_relabel_relabel keeps _ unmarkedValues, Session.diagnostics_unmarked]
  simp only [ofScript, Session.start_relabel, ran, found]
  rfl

/-- One result of an analysis is the other one in other words. -/
inductive Relabels (change : Relabelling) :
    Except SyntaxError Analysis → Except SyntaxError Analysis → Prop where
  | ok (analysis : Analysis) : Relabels change (.ok analysis) (.ok (analysis.relabel change))
  | error {cause otherCause : Cause} (location : Location) :
      Relabels change (.error ⟨cause, location⟩) (.error ⟨otherCause, change.place location⟩)

/-- Where the start of the text stays, tokens are mirrored by their images. -/
theorem Input.mirrors_map (start : change.place .start = .start) (count : Nat)
    (tokens : List Token) :
    Mirrors change (ofTokens tokens).stop (ofTokens (tokens.map (Token.relabel change))).stop count
      (ofTokens tokens).ahead (ofTokens (tokens.map (Token.relabel change))).ahead := by
  by_cases empty : tokens = []
  · subst empty
    exact Mirrors.of_map start.symm count []
  · rw [Input.ofTokens_map change empty]
    exact Mirrors.of_map rfl count _

/-- The analysis of tokens in other words comes to the same in other words. -/
theorem analyzeTokens_relabels (keeps : change.KeepsLiterals)
    (start : change.place .start = .start) (builtins : List Symbol) (tokens : List Token) :
    Relabels change (analyzeTokens builtins tokens)
      (analyzeTokens (builtins.map (Symbol.relabel change))
        (tokens.map (Token.relabel change))) := by
  obtain ⟨taken, settled⟩ := Grammar.settles_program change _ (Input.ofTokens tokens).stop
    (Input.ofTokens tokens).ahead (Nat.le_refl _)
  have mirrors := Input.mirrors_map start (taken + 2) tokens
  have follows := settled.result.follows _ _ mirrors
  have script := settled.script _ _ mirrors
  have values (node : Node) (rest : List Token)
      (read : (Grammar.program (Input.ofTokens tokens).stop (Input.ofTokens tokens).ahead).result =
        .ok (node, rest)) :
      Grammar.TypesValues
        (Grammar.program (Input.ofTokens tokens).stop (Input.ofTokens tokens).ahead).script := by
    obtain ⟨items, taken, -⟩ := Grammar.reads_program_iff.mp
      (congrArg (Outcome.mk _) read : Scripted.Reads Grammar.program _ _ _ node rest)
    exact taken.typesValues
  rw [analyzeTokens_eq_map, analyzeTokens_eq_map]
  generalize Grammar.program (Input.ofTokens tokens).stop (Input.ofTokens tokens).ahead = outcome
    at follows script values
  generalize Grammar.program (Input.ofTokens (tokens.map (Token.relabel change))).stop
    (Input.ofTokens (tokens.map (Token.relabel change))).ahead = mirrored at follows script
  obtain ⟨front, result⟩ := outcome
  obtain ⟨frontSecond, resultSecond⟩ := mirrored
  cases follows with
  | ok program rest =>
      change Relabels change (.ok (.ofScript builtins front program))
        (.ok (.ofScript _ frontSecond (program.relabel change)))
      rw [Analysis.ofScript_relabel keeps builtins program script (values program rest rfl)]
      exact .ok _
  | error location _ => exact .error location

end Analysis

section Names

variable {naming : String → String} {builtins : List Symbol} {tokens : List Token}

/-- A name becomes the one it is renamed to; all other tokens stay. -/
def Token.rename (naming : String → String) (token : Token) : Token :=
  if token.kind = .identifier then ⟨⟨token.kind, naming token.text⟩, token.location⟩ else token

/-- A symbol of another name and the same type. -/
def Symbol.rename (naming : String → String) (symbol : Symbol) : Symbol :=
  { symbol with name := naming symbol.name }

/-- The words of names change, and nothing is put elsewhere. -/
def Relabelling.ofRenaming (naming : String → String) (injective : Function.Injective naming)
    (fixes : naming "class" = "class") : Relabelling :=
  ⟨naming, id, injective, fixes⟩

/-- If types stay, names are the words that change. -/
theorem Token.relabel_eq_rename (keepsPlaces : change.place = id) {token : Token}
    (fixes : token.kind = .dataType → change.word token.text = token.text) :
    token.relabel change = token.rename change.word := by
  obtain ⟨⟨kind, text⟩, location⟩ := token
  rw [relabel, rename, keepsPlaces]
  split_ifs with named
  · rw [Lexeme.relabel_of_isWord (.inl named)]
    rfl
  · by_cases typed : kind = .dataType
    · rw [Lexeme.relabel_of_isWord (.inr typed), fixes typed]
      rfl
    · rw [Lexeme.relabel_of_not_isWord (fun isWord => isWord.elim named typed)]
      rfl

theorem map_relabel_eq_map_rename (keepsPlaces : change.place = id)
    (fixes : ∀ token ∈ tokens, token.kind = .dataType → change.word token.text = token.text) :
    tokens.map (Token.relabel change) = tokens.map (Token.rename change.word) :=
  List.map_congr_left fun token member => Token.relabel_eq_rename keepsPlaces (fixes token member)

theorem map_relabel_eq_map_rename_symbol
    (fixes : ∀ symbol ∈ builtins, change.word symbol.type = symbol.type) :
    builtins.map (Symbol.relabel change) = builtins.map (Symbol.rename change.word) :=
  List.map_congr_left fun symbol member => by
    rw [Symbol.relabel, fixes symbol member, Symbol.rename]

/-- The types that the program of an analysis writes are those of its tokens. -/
theorem analyzeTokens_takesTypes {analysis : Analysis}
    (analyzed : analyzeTokens builtins tokens = .ok analysis) :
    analysis.program.TakesTypesThroughout tokens := by
  obtain ⟨script, items, taken, rfl⟩ := analyzeTokens_eq_ok_iff.mp analyzed
  have inside : (Input.ofTokens tokens).ahead ⊆ tokens := by
    rw [Input.ofTokens_ahead]
    exact (List.takeWhile_sublist _).subset
  exact .of_children (List.forall_mem_nil _) (taken.takesTypes inside)

end Names

/-- Under a renaming that leaves the types of literals, of classes, of the tokens and of the
builtins as they are, a program that cannot be read cannot be read at the same place. All else
is analysed to the same tree, scopes and diagnostics under their new names; the types that the
tree writes are the old ones. -/
theorem analysis_ignores_names (naming : String → String)
    (bijective : Function.Bijective naming)
    (fixes : ∀ type ∈ ["class", "int", "double", "String"], naming type = type)
    (builtins : List Symbol) (tokens : List Token)
    (tokenTypes : ∀ token ∈ tokens, token.kind = .dataType → naming token.text = token.text)
    (builtinTypes : ∀ symbol ∈ builtins, naming symbol.type = symbol.type) :
    let change := Relabelling.ofRenaming naming bijective.injective (fixes "class" (by decide))
    let renamed := analyzeTokens (builtins.map (Symbol.rename naming))
      (tokens.map (Token.rename naming))
    match analyzeTokens builtins tokens with
    | .ok analysis => renamed = .ok (analysis.relabel change) ∧
        ∀ node ∈ analysis.program.preorder, ∀ type ∈ node.types, naming type = type
    | .error error => ∃ cause, renamed = .error ⟨cause, error.location⟩ := by
  intro change renamed
  have keeps : change.KeepsLiterals :=
    ⟨fixes "int" (by decide), fixes "double" (by decide), fixes "String" (by decide)⟩
  have relabels := analyzeTokens_relabels keeps rfl builtins tokens
  rw [map_relabel_eq_map_rename rfl tokenTypes, map_relabel_eq_map_rename_symbol builtinTypes]
    at relabels
  change Relabels change _ renamed at relabels
  clear_value renamed
  cases analyzed : analyzeTokens builtins tokens with
  | ok analysis =>
      rw [analyzed] at relabels
      cases relabels
      refine ⟨rfl, fun node member type written => ?_⟩
      obtain ⟨location, among⟩ := analyzeTokens_takesTypes analyzed node member type written
      exact tokenTypes _ among rfl
  | error error =>
      rw [analyzed] at relabels
      cases relabels
      exact ⟨_, rfl⟩

/-- A constructor has its class as its type, so that the clash with a variable names a type that
is renamed along with the class. -/
theorem analysis_ignores_names_constructor :
    let naming := Equiv.swap "x" "y"
    let tokens := [Lexeme.keyword "class", .name "x", .op "\x7b", .name "x", .op "(", .op ")",
      .op "\x7b", .type "int", .name "y", .op "=", .name "x", .semicolon, .op "\x7d",
      .op "\x7d", .endOfInput].map (·.token .start)
    ∃ analysis renamed, analyzeTokens standardBuiltins tokens = .ok analysis ∧
      analyzeTokens (standardBuiltins.map (Symbol.rename naming))
        (tokens.map (Token.rename naming)) = .ok renamed ∧
      analysis.diagnostics = [.mismatch "y" "int" "x" .start] ∧
      renamed.diagnostics = [.mismatch "x" "int" "y" .start] := by
  intro naming tokens
  obtain ⟨analysis, analyzed, found⟩ : ∃ analysis,
      analyzeTokens standardBuiltins tokens = .ok analysis ∧
        analysis.diagnostics = [.mismatch "y" "int" "x" .start] := ⟨_, rfl, by decide⟩
  have invariant := analysis_ignores_names naming naming.bijective (by decide)
    standardBuiltins tokens (by decide) (by decide)
  rw [analyzed] at invariant
  refine ⟨analysis, _, analyzed, invariant.1, found, ?_⟩
  change analysis.diagnostics.map _ = _
  rw [found]
  decide

end BraceLang
