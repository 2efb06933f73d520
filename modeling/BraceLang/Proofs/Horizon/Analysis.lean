import BraceLang.Proofs.Analysis
import BraceLang.Proofs.Horizon.Statement
import BraceLang.Proofs.Resolution.Typing
import BraceLang.Proofs.Scope.Nesting

/-!
# How far an analysis looks

What an analysis makes of a script does not depend on any place: places are only copied from
the steps into what is found wrong. So an analysis looks as far as the reading of its program,
and wherever the tokens are put, its results are found there.
-/

namespace BraceLang

variable {place : Location → Location}

/-- A diagnostic at another place. -/
def Diagnostic.moved (place : Location → Location) : Diagnostic → Diagnostic
  | .redeclared name location => .redeclared name (place location)
  | .undeclared name location => .undeclared name (place location)
  | .mismatch target expected found location => .mismatch target expected found (place location)
  | .incompatible op left right location => .incompatible op left right (place location)

/-- A violation of form at another place. -/
def SyntaxError.moved (place : Location → Location) (error : SyntaxError) : SyntaxError :=
  ⟨error.cause, place error.location⟩

/-- A typing with everything in it at other places. -/
def Typing.moved (place : Location → Location) (typing : Typing) : Typing :=
  ⟨typing.type, typing.diagnostics.map (Diagnostic.moved place)⟩

/-- A tree with everything in it at other places. -/
def Node.moved (place : Location → Location) (node : Node) : Node :=
  node.relabel (.moved place)

/-- An analysis with everything in it at other places. -/
def Analysis.moved (place : Location → Location) (analysis : Analysis) : Analysis :=
  ⟨analysis.program.moved place, analysis.scopes, analysis.current,
    analysis.diagnostics.map (Diagnostic.moved place)⟩

theorem Diagnostic.moved_id (diagnostic : Diagnostic) : diagnostic.moved id = diagnostic := by
  cases diagnostic <;> rfl

@[simp] theorem SyntaxError.moved_id (error : SyntaxError) : error.moved id = error := rfl

@[simp] theorem Analysis.moved_id (analysis : Analysis) : analysis.moved id = analysis := by
  have found : analysis.diagnostics.map (Diagnostic.moved id) = analysis.diagnostics := by
    rw [funext Diagnostic.moved_id]
    exact List.map_id _
  rw [moved, found]
  exact congrArg (Analysis.mk · _ _ _) analysis.program.relabel_same

namespace Typing

theorem ofReference_moved (declared : Option String) (name : String) (location : Location) :
    ofReference declared name (place location) =
      (ofReference declared name location).moved place := by
  cases declared <;> rfl

theorem ofBinary_moved (op : BinaryOp) (left right : Typing) (location : Location) :
    ofBinary op (left.moved place) (right.moved place) (place location) =
      (ofBinary op left right location).moved place := by
  cases agreed : left.type.agrees right.type <;>
    simp [ofBinary, moved, Diagnostic.moved, agreed]

theorem ofAssignment_moved (target value : Typing) (written : String) (location : Location) :
    ofAssignment (target.moved place) (value.moved place) written (place location) =
      (ofAssignment target value written location).moved place := by
  cases agreed : target.type.agrees value.type <;>
    simp [ofAssignment, moved, Diagnostic.moved, agreed]

end Typing

namespace Node

variable {declared : String → Option String}

mutual

/-- Types have no places, and what is wrong in a tree moves with it. -/
theorem typed_relabel : (node : Node) →
    (node.relabel (.moved place)).typed declared = (node.typed declared).moved place
  | .reference name location => Typing.ofReference_moved (declared name) name location
  | .binary op left right location => by
      rw [relabel, typed, typed_relabel left, typed_relabel right, typed]
      exact Typing.ofBinary_moved op _ _ location
  | .unary _ operand _ => by rw [relabel, typed, typed_relabel operand, typed]
  | .step _ operand _ => by rw [relabel, typed, typed_relabel operand, typed]
  | .assignment target value location => by
      rw [relabel, typed, typed_relabel target, typed_relabel value, typed,
        text_relabel (Relabelling.keepsWords_moved place)]
      exact Typing.ofAssignment_moved _ _ _ location
  | .field object _ _ => by
      rw [relabel, typed, typed_relabel object, typed]
      rfl
  | .call callee args _ => by
      rw [relabel, typed, typed_relabel callee, findingsOfArgs_relabel args, typed]
      simp only [Typing.moved, List.map_append]
  | .number _ _ => rfl
  | .string _ _ => rfl
  | .variableDecl _ _ _ _ => rfl
  | .methodDecl _ _ _ _ _ => rfl
  | .classDecl _ _ _ _ => rfl
  | .block _ _ => rfl
  | .ifStmt _ _ _ _ => rfl
  | .whileStmt _ _ _ => rfl
  | .forStmt _ _ _ _ _ => rfl
  | .returnStmt _ _ => rfl
  | .breakStmt _ => rfl
  | .continueStmt _ => rfl

theorem findingsOfArgs_relabel : (args : List Node) →
    findingsOfArgs declared (relabelAll (.moved place) args) =
      (findingsOfArgs declared args).map (Diagnostic.moved place)
  | [] => rfl
  | arg :: args => by
      rw [relabelAll, findingsOfArgs, typed_relabel arg, findingsOfArgs_relabel args,
        findingsOfArgs, List.map_append]
      rfl

end

end Node

namespace Session

theorem after_relabel (session : Session) (step : Step) :
    session.after (step.relabel (.moved place)) = session.after step := by
  cases step <;> rfl

theorem diagnose_relabel (session : Session) (step : Step) :
    session.diagnose (step.relabel (.moved place)) =
      (session.diagnose step).map (Diagnostic.moved place) := by
  cases step with
  | declare symbol location =>
      change (if session.scopes.binds session.current symbol.name then _ else _) = _
      rw [diagnose]
      split <;> rfl
  | check expression =>
      simp only [Step.relabel, diagnose, Node.typing_eq_typed, Node.typed_relabel, Typing.moved]
  | initial name type value =>
      simp only [Step.relabel, diagnose, Node.typing_eq_typed, Node.typed_relabel, Typing.moved,
        Node.relabel_location, List.map_append, clash]
      congr 1
      change (if (Ty.known type).agrees _ then _ else _) = _
      split <;> rfl
  | _ => rfl

theorem run_relabel (session : Session) (script : List Step) :
    session.run (script.map (Step.relabel (.moved place))) = session.run script := by
  induction script generalizing session with
  | nil => rfl
  | cons step script inductionHypothesis =>
      rw [List.map_cons, run_cons, run_cons, after_relabel, inductionHypothesis]

theorem diagnostics_relabel (session : Session) (script : List Step) :
    session.diagnostics (script.map (Step.relabel (.moved place))) =
      (session.diagnostics script).map (Diagnostic.moved place) := by
  induction script generalizing session with
  | nil => rfl
  | cons step script inductionHypothesis =>
      rw [List.map_cons, diagnostics, diagnostics, diagnose_relabel, after_relabel,
        inductionHypothesis, List.map_append]

/-- The marks of a script do nothing. -/
theorem run_unmarked (session : Session) (script : List Step) :
    session.run (unmarked script) = session.run script := by
  induction script generalizing session with
  | nil => rfl
  | cons step script inductionHypothesis =>
      rw [run_cons, ← inductionHypothesis]
      cases step <;> rfl

theorem diagnostics_unmarked (session : Session) (script : List Step) :
    session.diagnostics (unmarked script) = session.diagnostics script := by
  induction script generalizing session with
  | nil => rfl
  | cons step script inductionHypothesis =>
      rw [diagnostics, ← inductionHypothesis]
      cases step <;> rfl

end Session

/-- Scripts that differ only in their marks and places come to the same. -/
theorem Analysis.ofScript_moved (builtins : List Symbol) {script other : List Step}
    (program : Node) (same : unmarked other = (unmarked script).map (Step.relabel (.moved place))) :
    ofScript builtins other (program.moved place) =
      (ofScript builtins script program).moved place := by
  have ran (session : Session) : session.run other = session.run script := by
    rw [← session.run_unmarked other, same, Session.run_relabel, Session.run_unmarked]
  have found (session : Session) :
      session.diagnostics other = (session.diagnostics script).map (Diagnostic.moved place) := by
    rw [← session.diagnostics_unmarked other, same, Session.diagnostics_relabel,
      Session.diagnostics_unmarked]
  simp only [ofScript, moved, ran, found]

/-- An analysis carries out the script of reading a program. -/
theorem analyzeTokens_eq_map (builtins : List Symbol) (tokens : List Token) :
    analyzeTokens builtins tokens =
      (Grammar.program (Input.ofTokens tokens).stop (Input.ofTokens tokens).ahead).result.map
        fun (program, _) => .ofScript builtins
          (Grammar.program (Input.ofTokens tokens).stop (Input.ofTokens tokens).ahead).script
          program := by
  rw [analyzeTokens, Reading.ofTokens, Reading.analysis]
  cases (Grammar.program (Input.ofTokens tokens).stop (Input.ofTokens tokens).ahead).result <;> rfl

/-- One result of an analysis is the other one moved. Whether a failure keeps its cause may
depend. -/
inductive Moves (place : Location → Location) (alike : Prop) :
    Except SyntaxError Analysis → Except SyntaxError Analysis → Prop where
  | ok (analysis : Analysis) : Moves place alike (.ok analysis) (.ok (analysis.moved place))
  | error {cause otherCause : Cause} (location : Location) (keeps : alike → otherCause = cause) :
      Moves place alike (.error ⟨cause, location⟩) (.error ⟨otherCause, place location⟩)

/-- An analysis that comes about by taking `taken` of the tokens: if it fails, it does so at the
next one, and its result moves along with the tokens if two more than those move. -/
structure AnalysisSettled (builtins : List Symbol) (place : Location → Location)
    (tokens : List Token) (taken : Nat) : Prop where
  inside : taken ≤ (Input.ofTokens tokens).ahead.length
  located : ∀ error, analyzeTokens builtins tokens = .error error →
    error.location = (((Input.ofTokens tokens).ahead.drop taken).headD
      (Input.ofTokens tokens).stop.token).location
  moves : ∀ others, Mirrors (.moved place) (Input.ofTokens tokens).stop
      (Input.ofTokens others).stop (taken + 2) (Input.ofTokens tokens).ahead
      (Input.ofTokens others).ahead →
    Moves place (Alike (.moved place) (Input.ofTokens tokens).stop (Input.ofTokens others).stop
        (Input.ofTokens tokens).ahead taken)
      (analyzeTokens builtins tokens) (analyzeTokens builtins others)

theorem exists_analysisSettled (builtins : List Symbol) (place : Location → Location)
    (tokens : List Token) : ∃ taken, AnalysisSettled builtins place tokens taken := by
  obtain ⟨taken, settled⟩ := Grammar.settles_program (.moved place) _
    (Input.ofTokens tokens).stop (Input.ofTokens tokens).ahead (Nat.le_refl _)
  have ends := settled.result.ends
  refine ⟨taken, settled.result.inside, fun error failed => ?_, fun others mirrors => ?_⟩
  · rw [analyzeTokens_eq_map] at failed
    rcases outcome : (Grammar.program (Input.ofTokens tokens).stop
      (Input.ofTokens tokens).ahead).result with failure | ⟨program, rest⟩
    · rw [outcome] at ends failed
      cases failed
      exact ends
    · rw [outcome] at failed
      cases failed
  · have follows := settled.result.follows _ _ mirrors
    have script := settled.script _ _ mirrors
    rw [analyzeTokens_eq_map, analyzeTokens_eq_map]
    generalize Grammar.program (Input.ofTokens tokens).stop (Input.ofTokens tokens).ahead = outcome
      at follows script
    generalize Grammar.program (Input.ofTokens others).stop (Input.ofTokens others).ahead = mirrored
      at follows script
    obtain ⟨front, result⟩ := outcome
    obtain ⟨frontSecond, resultSecond⟩ := mirrored
    cases follows with
    | ok program rest =>
        change Moves place _ (.ok (.ofScript builtins front program))
          (.ok (.ofScript builtins frontSecond (program.moved place)))
        rw [Analysis.ofScript_moved builtins program script]
        exact .ok _
    | error location keeps => exact .error location keeps

end BraceLang
