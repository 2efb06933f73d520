import Mathlib.Data.Fintype.EquivFin
import BraceLang.Proofs.Renaming

/-!
# Diagnostics are made of words that were given

An analysis has no words of its own but the types of literals and of classes. A word that it was
not given could change places with another one of these, and the analysis would come to the same
and to the same with the words changed. So no diagnostic speaks such a word.
-/

namespace BraceLang

/-- The names and types that a diagnostic speaks of. -/
def Diagnostic.words : Diagnostic → List String
  | .redeclared name _ => [name]
  | .undeclared name _ => [name]
  | .mismatch target expected found _ => [target, expected, found]
  | .incompatible _ left right _ => [left, right]

theorem Diagnostic.words_relabel (change : Relabelling) (found : Diagnostic) :
    (found.relabel change).words = found.words.map change.word := by
  cases found <;> rfl

/-- The words that an analysis knows: the types of literals and of classes, the names and types of
the builtins, and those that the tokens are written with. -/
def vocabulary (builtins : List Symbol) (tokens : List Token) : List String :=
  ["class", "int", "double", "String"] ++
    builtins.flatMap (fun symbol => [symbol.name, symbol.type]) ++
    (tokens.filter (·.IsWord)).map (·.text)

section Exchange

variable {change : Relabelling} {builtins : List Symbol} {tokens : List Token}

theorem Symbol.relabel_eq_self {symbol : Symbol} (name : change.word symbol.name = symbol.name)
    (type : change.word symbol.type = symbol.type) : symbol.relabel change = symbol := by
  rw [Symbol.relabel, name, type]

theorem Token.relabel_eq_self {token : Token} (keepsPlaces : change.place = id)
    (fixes : token.IsWord → change.word token.text = token.text) :
    token.relabel change = token := by
  have lexeme : token.toLexeme.relabel change = token.toLexeme := by
    rw [Lexeme.relabel]
    split_ifs with isWord
    · rw [fixes isWord]
    · rfl
  rw [Token.relabel, lexeme, keepsPlaces, id]

theorem Relabels.eq_ok {analysis : Analysis} {result : Except SyntaxError Analysis}
    (relabels : Relabels change (.ok analysis) result) :
    result = .ok (analysis.relabel change) := by
  cases relabels
  rfl

/-- An analysis stays as it is under a change of words that it does not know. -/
theorem relabel_eq_self_of_fixes {analysis : Analysis} (keepsPlaces : change.place = id)
    (fixes : ∀ word ∈ vocabulary builtins tokens, change.word word = word)
    (analyzed : analyzeTokens builtins tokens = .ok analysis) :
    analysis.relabel change = analysis := by
  simp only [vocabulary, List.forall_mem_append] at fixes
  obtain ⟨⟨fixed, declared⟩, written⟩ := fixes
  have keeps : change.KeepsLiterals :=
    ⟨fixed "int" (by decide), fixed "double" (by decide), fixed "String" (by decide)⟩
  have sameBuiltins : builtins.map (Symbol.relabel change) = builtins := by
    refine (List.map_congr_left fun symbol member => ?_).trans (List.map_id builtins)
    have fixes (word : String) (part : word ∈ [symbol.name, symbol.type]) :
        change.word word = word := declared word (List.mem_flatMap.mpr ⟨symbol, member, part⟩)
    exact Symbol.relabel_eq_self (fixes _ (.head _)) (fixes _ (.tail _ (.head _)))
  have sameTokens : tokens.map (Token.relabel change) = tokens := by
    refine (List.map_congr_left fun token member => ?_).trans (List.map_id tokens)
    refine Token.relabel_eq_self keepsPlaces fun isWord => written token.text ?_
    exact List.mem_map_of_mem (List.mem_filter.mpr ⟨member, decide_eq_true isWord⟩)
  have start : change.place .start = .start := by rw [keepsPlaces, id]
  have relabels := analyzeTokens_relabels keeps start builtins tokens
  rw [sameBuiltins, sameTokens, analyzed] at relabels
  exact (Except.ok.inj relabels.eq_ok).symm

end Exchange

/-- No word in a diagnostic is foreign to the analysis. -/
theorem words_subset_vocabulary {builtins : List Symbol} {tokens : List Token}
    {analysis : Analysis} (analyzed : analyzeTokens builtins tokens = .ok analysis) :
    ∀ found ∈ analysis.diagnostics, found.words ⊆ vocabulary builtins tokens := by
  intro found member word spoken
  by_contra foreign
  -- The word changes places with another foreign one, so the analysis stays; but the diagnostic
  -- would not.
  obtain ⟨other, unknown⟩ :=
    Infinite.exists_notMem_finset (word :: vocabulary builtins tokens).toFinset
  rw [List.mem_toFinset, List.mem_cons, not_or] at unknown
  obtain ⟨differs, unknown⟩ := unknown
  have fixes (known : String) (among : known ∈ vocabulary builtins tokens) :
      Equiv.swap word other known = known :=
    Equiv.swap_apply_of_ne_of_ne (fun equal => foreign (equal ▸ among))
      (fun equal => unknown (equal ▸ among))
  let change : Relabelling := .ofRenaming _ (Equiv.swap word other).injective
    (fixes "class" (by simp [vocabulary]))
  have same : analysis.relabel change = analysis := relabel_eq_self_of_fixes rfl fixes analyzed
  have stays : found.relabel change = found := by
    have all : analysis.diagnostics.map (Diagnostic.relabel change) = analysis.diagnostics.map id :=
      (congrArg Analysis.diagnostics same).trans (List.map_id _).symm
    exact List.map_inj_left.mp all found member
  have exchanged : found.words.map (Equiv.swap word other) = found.words.map id := by
    rw [List.map_id]
    exact (found.words_relabel change).symm.trans (congrArg Diagnostic.words stays)
  have unmoved : Equiv.swap word other word = word := List.map_inj_left.mp exchanged word spoken
  rw [Equiv.swap_apply_left] at unmoved
  exact differs unmoved

end BraceLang
