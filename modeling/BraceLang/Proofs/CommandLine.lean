import BraceLang.CommandLine
import BraceLang.Proofs.Blame.Quoting
import BraceLang.Proofs.Pointing
import BraceLang.Proofs.Vocabulary

/-!
# A report goes line by line

A diagnostic speaks words that the tokens are written with, and a report on an analysis has a line
for each. A violation of form may quote string literals. Those are all that can break its message,
and one that does comes into the report with its newlines.
-/

namespace BraceLang

variable {builtins : List Symbol} {tokens : List Token} {analysis : Analysis}

/-- Whether the names and types of symbols are lines. -/
def Symbol.AreLines (symbols : List Symbol) : Prop :=
  ∀ symbol ∈ symbols, IsLine symbol.name ∧ IsLine symbol.type

instance (symbols : List Symbol) : Decidable (Symbol.AreLines symbols) :=
  inferInstanceAs (Decidable (∀ symbol ∈ symbols, _ ∧ _))

/-- Where only strings break, all words that an analysis knows are lines. -/
theorem isLine_of_mem_vocabulary (lines : Symbol.AreLines builtins)
    (only : OnlyStringsBreak tokens) : ∀ word ∈ vocabulary builtins tokens, IsLine word := by
  refine List.forall_mem_append.mpr ⟨List.forall_mem_append.mpr ⟨by decide, ?_⟩, ?_⟩
  · intro word member
    obtain ⟨symbol, among, part⟩ := List.mem_flatMap.mp member
    rcases List.mem_pair.mp part with rfl | rfl
    · exact (lines symbol among).1
    · exact (lines symbol among).2
  · intro word member
    obtain ⟨token, among, rfl⟩ := List.mem_map.mp member
    obtain ⟨written, isWord⟩ := List.mem_filter.mp among
    refine only token written fun kind => ?_
    rcases of_decide_eq_true isWord with named | typed
    · exact Kind.noConfusion (named.symm.trans kind)
    · exact Kind.noConfusion (typed.symm.trans kind)

/-- What is said of a diagnostic is a line if its words and its operator are. -/
theorem Diagnostic.isLine_message {found : Diagnostic} (words : ∀ word ∈ found.words, IsLine word)
    (points : found.PointsInto tokens) (only : OnlyStringsBreak tokens) : IsLine found.message := by
  have detail : IsLine found.detail := by
    cases found with
    | redeclared name | undeclared name =>
        have named : IsLine name := words name (.head _)
        exact .append (.append (.ofList (by decide)) named) (.ofList (by decide))
    | mismatch target expected found =>
        have targetLine : IsLine target := words _ (.head _)
        have expectedLine : IsLine expected := words _ (.tail _ (.head _))
        have foundLine : IsLine found := words _ (.tail _ (.tail _ (.head _)))
        exact .append (.append (.append (.append (.append (.append (.ofList (by decide)) foundLine)
          (.ofList (by decide))) targetLine) (.ofList (by decide))) expectedLine)
          (.ofList (by decide))
    | incompatible op left right =>
        obtain ⟨kind, kinds, member⟩ := points
        have opLine : IsLine op := only _ member (by rcases kinds with rfl | rfl <;> exact nofun)
        have leftLine : IsLine left := words _ (.head _)
        have rightLine : IsLine right := words _ (.tail _ (.head _))
        exact .append (.append (.append (.append (.append (.append (.ofList (by decide)) leftLine)
          (.ofList (by decide))) rightLine) (.ofList (by decide))) opLine) (.ofList (by decide))
  exact .append (.append (.append (.ofList (by decide)) (.ofNat _)) (.ofList (by decide))) detail

/-- Where only strings break, each diagnostic is told in a line. -/
theorem isLine_of_diagnosed (lines : Symbol.AreLines builtins) (only : OnlyStringsBreak tokens)
    (analyzed : analyzeTokens builtins tokens = .ok analysis) :
    ∀ found ∈ analysis.diagnostics, IsLine found.message := fun found member =>
  Diagnostic.isLine_message
    (fun _ spoken => isLine_of_mem_vocabulary lines only _
      (words_subset_vocabulary analyzed found member spoken))
    ((analysis_points analyzed).1 found member) only

/-- Where only strings break, a failure is told in a line but for the strings it quotes. -/
theorem quotes_of_failed {error : SyntaxError} (only : OnlyStringsBreak tokens)
    (failed : analyzeTokens builtins tokens = .error error) : Quotes tokens error.message := by
  have placed : IsLine ("Parse error at line " ++ toString error.location.line ++ ", column "
      ++ toString error.location.column ++ ": ") :=
    .append (.append (.append (.append (.ofList (by decide)) (.ofNat _)) (.ofList (by decide)))
      (.ofNat _)) (.ofList (by decide))
  exact (Quotes.line placed).append (only.quotes_cause (analyzeTokens_speaks failed))

namespace CommandLine

/-- The line that names the file. -/
def heading (file : String) : String := "Parsing " ++ file ++ "..."

/-- The line that sums up an analysis. -/
def summary (analysis : Analysis) : String :=
  if analysis.diagnostics = [] then
    "Parsed successfully. Found " ++ toString analysis.program.statements.length
      ++ " top-level statements."
  else
    "Found " ++ toString analysis.diagnostics.length ++ " semantic error(s)."

variable {file : String}

theorem isLine_heading (named : IsLine file) : IsLine (heading file) :=
  .append (.append (.ofList (by decide)) named) (.ofList (by decide))

theorem isLine_summary (analysis : Analysis) : IsLine (summary analysis) := by
  rw [summary]
  split_ifs <;>
    exact .append (.append (.ofList (by decide)) (.ofNat _)) (.ofList (by decide))

namespace Report

/-- The report on an analysis has the heading, a message for each diagnostic, and the summary. -/
theorem ofSource_of_analyzed {source : String} (analyzed : analyze builtins source = .ok analysis) :
    ofSource builtins file source =
      ⟨if analysis.diagnostics = [] then 0 else 1, "",
        heading file :: (analysis.diagnostics.map Diagnostic.message ++ [summary analysis])⟩ := by
  rw [ofSource, analyzed, ofAnalysis, summary, Analysis.isClean]
  simp only [List.isEmpty_iff]
  split_ifs with clean
  · rw [clean]
    rfl
  · rfl

/-- The report on a violation of form has the heading and the message. -/
theorem ofSource_of_failed {source : String} {error : SyntaxError}
    (failed : analyze builtins source = .error error) :
    ofSource builtins file source = ⟨2, "", [heading file, error.message]⟩ := by
  rw [ofSource, failed]
  rfl

end Report

/-- A readable file is reported on as the text that is in it. -/
theorem check_of_decoded (bare : Bool) {bytes : ByteArray} {source : String}
    (decoded : String.fromUTF8? bytes = some source) :
    check bare file (.ok bytes) =
      .ofSource (if bare then [] else standardBuiltins) file source := by
  simp only [check, decoded]

theorem areLines_builtins (bare : Bool) :
    Symbol.AreLines (if bare then [] else standardBuiltins) := by
  cases bare <;> decide

/-- The bytes of a text are read as the text. -/
theorem fromUTF8_toUTF8 (source : String) : String.fromUTF8? source.toUTF8 = some source :=
  dif_pos source.isValidUTF8

end CommandLine
end BraceLang
