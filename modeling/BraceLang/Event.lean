import BraceLang.Analysis

/-!
# The log of an analysis

A log tells an analysis in the order in which it happens: the size of the token
sequence, the start of each statement, each scope entered and left, each
diagnostic, and the figures of the result. The log of a failing analysis ends
with the scopes that the failure leaves.
-/

namespace BraceLang

/-- Something that happens in the course of an analysis. -/
inductive Event where
  | tokenized (tokens : Nat)
  /-- A statement begins with the token at an index of the sequence. -/
  | statement (lexeme : Lexeme) (index : Nat)
  | entered (scope parent : ScopeId) (kind : ScopeKind)
  | exited (scope parent : ScopeId)
  | diagnosed (diagnostic : Diagnostic)
  | finished (statements scopes errors : Nat)
deriving DecidableEq, Repr

namespace Event

/-- How closely a log has to be followed for an event to show in it. -/
inductive Level where
  | debug
  | trace
deriving DecidableEq, Repr

/-- How a level is shown. -/
def Level.text : Level → String
  | .debug => "DEBUG"
  | .trace => "TRACE"

/-- The level of an event. -/
def level : Event → Level
  | .statement _ _ => .trace
  | _ => .debug

/-- What happened. -/
def message : Event → String
  | .tokenized _ => "tokenized source"
  | .statement _ _ => "statement"
  | .entered _ _ _ => "entered scope"
  | .exited _ _ => "exited scope"
  | .diagnosed _ => "semantic error"
  | .finished _ _ _ => "parse finished"

/-- The circumstances of an event, as names with texts. -/
def fields : Event → List (String × String)
  | .tokenized tokens => [("tokens", toString tokens)]
  | .statement lexeme index => [("token", lexeme.describe), ("position", toString index)]
  | .entered scope parent kind =>
    [("scope", toString scope), ("parent", toString parent), ("kind", kind.text)]
  | .exited scope parent => [("scope", toString scope), ("parent", toString parent)]
  | .diagnosed diagnostic =>
    [("error", diagnostic.message), ("location", diagnostic.location.text)]
  | .finished statements scopes errors =>
    [("statements", toString statements), ("scopes", toString scopes),
     ("errors", toString errors)]

end Event

namespace Session

/-- What happens at a step, in a program of `total` tokens. -/
def observe (total : Nat) (session : Session) : Step → List Event
  | .statement lexeme left => [.statement lexeme (total - left)]
  | .enter kind => [.entered session.scopes.size session.current kind]
  | .openBlock => [.entered session.scopes.size session.current .block]
  | .leave => [.exited session.current session.leave.current]
  | .closeBlock => [.exited session.current session.leave.current]
  | step => (session.diagnose step).map .diagnosed

/-- What happens in the course of a script, in a program of `total` tokens. -/
def events (total : Nat) (session : Session) : List Step → List Event
  | [] => []
  | step :: script => session.observe total step ++ (session.after step).events total script

end Session

/-- The figures of a finished analysis. -/
def Analysis.finished (analysis : Analysis) : Event :=
  .finished analysis.program.statements.length analysis.scopes.size analysis.diagnostics.length

/-- The log of the analysis of a source text. -/
def log (builtins : List Symbol) (source : String) : List Event :=
  let tokens := tokenize source
  let reading := Reading.ofTokens tokens
  let total := (Input.ofTokens tokens).ahead.length
  let course := (Session.start builtins).events total reading.script
  let close := match reading.analysis builtins with
    | .ok analysis => [analysis.finished]
    | .error _ => []
  .tokenized tokens.length :: course ++ close

end BraceLang
