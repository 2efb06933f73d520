import BraceLang.Node.Typing
import BraceLang.Scope.Resolution
import BraceLang.Script

/-!
# Carrying out a script

A session holds the scopes opened so far and the current one. `after` says how a
step changes it, `diagnose` what is found wrong at that moment. An expression is
checked in the scope that is current when its step comes, so a reference sees
exactly the bindings made before it.

Nothing found wrong changes a session: after a clash of types, or a name bound
twice, the script goes on as if it had not been found.
-/

namespace BraceLang

/-- The scopes opened so far and the current one. -/
structure Session where
  scopes : ScopeTable
  current : ScopeId

namespace Session

/-- A session in front of the first step, at the root with its builtins. -/
def start (builtins : List Symbol) : Session :=
  ⟨.withBuiltins builtins, ScopeTable.root⟩

/-- The declared type of a name in the current scope. -/
def declaredType (session : Session) (name : String) : Option String :=
  session.scopes.declaredType session.current name

/-- The session inside a scope opened in the current one. -/
def enter (session : Session) (kind : ScopeKind) : Session :=
  ⟨session.scopes.enter session.current kind, session.scopes.size⟩

/-- The session around the current scope; at the root, the same. -/
def leave (session : Session) : Session :=
  ⟨session.scopes, session.scopes.outer session.current⟩

/-- The session after a step. -/
def after (session : Session) : Step → Session
  | .enter kind => session.enter kind
  | .openBlock => session.enter .block
  | .leave => session.leave
  | .closeBlock => session.leave
  | .declare symbol _ => ⟨session.scopes.bound session.current symbol, session.current⟩
  | .statement _ _ => session
  | .check _ => session
  | .initial _ _ _ => session

/-- What is wrong with giving the value of type `found` to a variable of type `type`. -/
def clash (name type : String) (found : Ty) (location : Location) : List Diagnostic :=
  if (Ty.known type).agrees found then [] else [.mismatch name type found.text location]

/-- What is found wrong at a step. -/
def diagnose (session : Session) : Step → List Diagnostic
  | .declare symbol location =>
    if session.scopes.binds session.current symbol.name then [.redeclared symbol.name location]
    else []
  | .check expression => (expression.typing session.declaredType).diagnostics
  | .initial name type value =>
    let typing := value.typing session.declaredType
    typing.diagnostics ++ clash name type typing.type value.location
  | _ => []

/-- The session after a script. -/
def run (session : Session) (script : List Step) : Session :=
  script.foldl after session

/-- Everything found wrong in the course of a script. -/
def diagnostics (session : Session) : List Step → List Diagnostic
  | [] => []
  | step :: script => session.diagnose step ++ (session.after step).diagnostics script

end Session

end BraceLang
