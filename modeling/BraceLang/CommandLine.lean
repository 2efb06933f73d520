import BraceLang.Analysis

/-!
# Checking one file

The command reads one file and reports on the error stream: a line that names
the file, a message for each thing wrong, and a line that sums up unless the form
of the program is violated. The output stream is left alone. The exit code tells
a clean program (0) from one with diagnostics (1) and from one that could not be
read (2).
-/

namespace BraceLang.CommandLine

/-- Why a file yields no bytes. -/
inductive Unreadable where
  | missing
  | directory
  | denied
deriving DecidableEq, Repr

/-- How the reason is reported. -/
def Unreadable.text : Unreadable → String
  | .missing => "No such file or directory (os error 2)"
  | .directory => "Is a directory (os error 21)"
  | .denied => "Permission denied (os error 13)"

/-- The outcome of a run: its exit code, what is on the output stream, and the messages on the
error stream. -/
structure Report where
  exitCode : Nat
  output : String
  lines : List String
deriving DecidableEq, Repr

namespace Report

/-- The messages as they are written, each with a newline behind it. -/
def text (report : Report) : String :=
  String.join (report.lines.map (· ++ "\n"))

/-- The report on a file whose text is not to be had. -/
def failedToRead (file reason : String) : Report :=
  ⟨2, "", ["Error: failed to read '" ++ file ++ "': " ++ reason]⟩

/-- The messages about an analysis, and the exit code. -/
def ofAnalysis : Except SyntaxError Analysis → Report
  | .error error => ⟨2, "", [error.message]⟩
  | .ok analysis =>
    if analysis.isClean then
      ⟨0, "", ["Parsed successfully. Found " ++ toString analysis.program.statements.length
        ++ " top-level statements."]⟩
    else
      ⟨1, "", analysis.diagnostics.map Diagnostic.message
        ++ ["Found " ++ toString analysis.diagnostics.length ++ " semantic error(s)."]⟩

/-- The report on a source text that was read from `file`. -/
def ofSource (builtins : List Symbol) (file source : String) : Report :=
  let outcome := ofAnalysis (analyze builtins source)
  { outcome with lines := ("Parsing " ++ file ++ "...") :: outcome.lines }

end Report

/-- Check the content of a file; `bare` leaves the root without builtins. -/
def check (bare : Bool) (file : String) (content : Except Unreadable ByteArray) : Report :=
  match content with
  | .error reason => .failedToRead file reason.text
  | .ok bytes =>
    match String.fromUTF8? bytes with
    | none => .failedToRead file "stream did not contain valid UTF-8"
    | some source => .ofSource (if bare then [] else standardBuiltins) file source

end BraceLang.CommandLine
