import BraceLang.Grammar.Program
import BraceLang.Session
import BraceLang.Token.Scanner

/-!
# The analysis of a program

Analysing a program is reading it and carrying out the script of the reading. A
violation of form is the only way to fail; everything else that is wrong is a
diagnostic of a finished analysis.
-/

namespace BraceLang

/-- A program that could be read: its tree, all its scopes, the scope in which its
text ends, and what is wrong with its meaning in the order of detection. -/
structure Analysis where
  program : Node
  scopes : ScopeTable
  current : ScopeId
  diagnostics : List Diagnostic

/-- Whether nothing is wrong. -/
def Analysis.isClean (analysis : Analysis) : Bool :=
  analysis.diagnostics.isEmpty

/-- The analysis that a reading amounts to, with `builtins` bound at the root. -/
def Reading.analysis (builtins : List Symbol) (reading : Reading) :
    Except SyntaxError Analysis :=
  reading.result.map fun program =>
    let session := Session.start builtins
    let final := session.run reading.script
    ⟨program, final.scopes, final.current, session.diagnostics reading.script⟩

/-- Analyse the program that a token sequence writes. -/
def analyzeTokens (builtins : List Symbol) (tokens : List Token) : Except SyntaxError Analysis :=
  (Reading.ofTokens tokens).analysis builtins

/-- Analyse a source text. -/
def analyze (builtins : List Symbol) (source : String) : Except SyntaxError Analysis :=
  analyzeTokens builtins (tokenize source)

end BraceLang
