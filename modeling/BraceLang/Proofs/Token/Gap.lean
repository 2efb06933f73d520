import Mathlib.Data.List.Infix
import BraceLang.Token.Scanner

/-!
# What stands between lexemes

`Gap` is the account of gaps: blank characters and comments, in any order. It says
where a comment ends without any scanner: a line comment behind its first newline, a
block comment behind the first `*/` that follows its opening, so that `/*/` is only an
opening. A comment may stay open in the last gap of a text and in no other.
-/

namespace BraceLang

/-- What may stand in front of a lexeme or, as the `last` gap of a text, behind all. -/
inductive Gap (last : Bool) : List Char → Prop where
  | nil : Gap last []
  | blank {character : Char} {rest : List Char} (blank : Text.isBlank character = true)
      (others : Gap last rest) : Gap last (character :: rest)
  | lineComment {comment rest : List Char} (unbroken : '\n' ∉ comment) (others : Gap last rest) :
      Gap last ('/' :: '/' :: (comment ++ '\n' :: rest))
  | blockComment {comment rest : List Char} (unclosed : ¬ ['*', '/'] <:+: comment)
      (others : Gap last rest) : Gap last ('/' :: '*' :: (comment ++ '*' :: '/' :: rest))
  | openLineComment {comment : List Char} (behindAll : last = true) (unbroken : '\n' ∉ comment) :
      Gap last ('/' :: '/' :: comment)
  | openBlockComment {comment : List Char} (behindAll : last = true)
      (unclosed : ¬ ['*', '/'] <:+: comment) : Gap last ('/' :: '*' :: comment)

/-- The characters that open the part of a gap. -/
def GapPart.opening : GapPart → List Char
  | .blank => []
  | .lineComment => ['/', '/']
  | .blockComment => ['/', '*']

section Comments

variable {last : Bool} {first : Char} {gap : List Char}

/-- A line comment goes on with every character but a newline. -/
theorem Gap.lineComment_cons (unbroken : first ≠ '\n') (others : Gap last ('/' :: '/' :: gap)) :
    Gap last ('/' :: '/' :: first :: gap) := by
  cases others with
  | blank blank => exact absurd blank (by decide)
  | lineComment inside others =>
      exact .lineComment (List.not_mem_cons_of_ne_of_not_mem unbroken.symm inside) others
  | openLineComment behindAll inside =>
      exact .openLineComment behindAll (List.not_mem_cons_of_ne_of_not_mem unbroken.symm inside)

/-- A block comment goes on with every character at which it is not closed. -/
theorem Gap.blockComment_cons (unclosed : ¬ ['*', '/'] <+: first :: gap)
    (others : Gap last ('/' :: '*' :: gap)) : Gap last ('/' :: '*' :: first :: gap) := by
  have extended {comment : List Char} (front : comment <+: gap)
      (inside : ¬ ['*', '/'] <:+: comment) : ¬ ['*', '/'] <:+: first :: comment := by
    rw [List.infix_cons_iff, not_or]
    exact ⟨fun closes => unclosed (closes.trans (List.cons_prefix_cons.mpr ⟨rfl, front⟩)), inside⟩
  cases others with
  | blank blank => exact absurd blank (by decide)
  | blockComment inside others =>
      exact .blockComment (extended (List.prefix_append ..) inside) others
  | openBlockComment behindAll inside =>
      exact .openBlockComment behindAll (extended List.prefix_rfl inside)

end Comments

/-- Cutting off a gap loses no character. -/
theorem splitGap_append (part : GapPart) (characters : List Char) :
    (splitGap part characters).1 ++ (splitGap part characters).2 = characters := by
  fun_induction splitGap part characters <;> simp_all

/-- What is cut off inside a part of a gap is, behind the opening of the part, a gap. Only
where nothing is left behind it can a comment have stayed open. -/
theorem gap_splitGap (part : GapPart) (characters : List Char) :
    Gap (splitGap part characters).2.isEmpty (part.opening ++ (splitGap part characters).1) := by
  fun_induction splitGap part characters with
  | case1 rest gap after split inductionHypothesis =>
      rw [split] at inductionHypothesis
      exact inductionHypothesis
  | case2 rest gap after split inductionHypothesis =>
      rw [split] at inductionHypothesis
      exact inductionHypothesis
  | case3 first rest _ _ blank gap after split inductionHypothesis =>
      rw [split] at inductionHypothesis
      exact .blank blank inductionHypothesis
  | case4 => exact .nil
  | case5 first rest gap after split inductionHypothesis =>
      rw [split] at inductionHypothesis
      by_cases broken : first = '\n'
      · rw [if_pos broken] at inductionHypothesis
        exact broken ▸ .lineComment List.not_mem_nil inductionHypothesis
      · rw [if_neg broken] at inductionHypothesis
        exact .lineComment_cons broken inductionHypothesis
  | case6 rest gap after split inductionHypothesis =>
      rw [split] at inductionHypothesis
      exact .blockComment (by simp) inductionHypothesis
  | case7 first rest unclosed gap after split inductionHypothesis =>
      have whole := splitGap_append .blockComment rest
      rw [split] at inductionHypothesis whole
      refine .blockComment_cons ?_ inductionHypothesis
      rintro ⟨tail, equal⟩
      obtain ⟨rfl, rfl⟩ := List.cons.inj equal
      exact unclosed (tail ++ after) rfl whole.symm
  | case8 part =>
      cases part with
      | blank => exact .nil
      | lineComment => exact .openLineComment rfl List.not_mem_nil
      | blockComment => exact .openBlockComment rfl (by simp)

/-- Whether no gap begins with a character and those behind it. -/
def BeginsNoGap (first : Char) (rest : List Char) : Prop :=
  Text.isBlank first = false ∧
    (first = '/' → ∀ next ∈ rest.head?, next ≠ '/' ∧ next ≠ '*')

/-- A gap is cut off as far as it goes. -/
theorem beginsNoGap_of_splitGap {part : GapPart} {characters rest : List Char} {first : Char}
    (left : (splitGap part characters).2 = first :: rest) : BeginsNoGap first rest := by
  fun_induction splitGap part characters with
  | case4 other behind noLine noBlock visible =>
      obtain ⟨rfl, rfl⟩ := List.cons.inj left
      refine ⟨by simpa using visible, ?_⟩
      rintro rfl next found
      obtain ⟨tail, rfl⟩ := List.head?_eq_some_iff.mp found
      constructor
      · rintro rfl
        exact noLine tail rfl rfl
      · rintro rfl
        exact noBlock tail rfl rfl
  | _ => simp_all

/-- Where no gap begins, none is cut off. -/
theorem splitGap_of_beginsNoGap {first : Char} {rest : List Char}
    (begins : BeginsNoGap first rest) : splitGap .blank (first :: rest) = ([], first :: rest) := by
  obtain ⟨visible, unslashed⟩ := begins
  rw [splitGap]
  · simp [visible]
  · rintro tail rfl rfl
    exact (unslashed rfl '/' rfl).1 rfl
  · rintro tail rfl rfl
    exact (unslashed rfl '*' rfl).2 rfl

section Whole

variable {last : Bool} {gap comment : List Char}

/-- Blank characters are a gap. -/
theorem Gap.of_blank (blank : ∀ character ∈ gap, Text.isBlank character = true) : Gap last gap := by
  induction gap with
  | nil => exact .nil
  | cons first gap inductionHypothesis =>
      obtain ⟨firstBlank, others⟩ := List.forall_mem_cons.mp blank
      exact .blank firstBlank (inductionHypothesis others)

/-- A line comment goes on up to a newline. -/
theorem splitGap_lineComment (unbroken : '\n' ∉ comment) (rest : List Char) :
    splitGap .lineComment (comment ++ rest) =
      (comment ++ (splitGap .lineComment rest).1, (splitGap .lineComment rest).2) := by
  induction comment with
  | nil => rfl
  | cons first comment inductionHypothesis =>
      rw [List.mem_cons, not_or] at unbroken
      rw [List.cons_append, splitGap, if_neg (Ne.symm unbroken.1), inductionHypothesis unbroken.2]
      rfl

/-- A block comment goes on up to its end, of which nothing may be in what it holds. -/
theorem splitGap_blockComment (unclosed : ¬ ['*', '/'] <:+: comment) (rest : List Char)
    (apart : rest.head? ≠ some '/') :
    splitGap .blockComment (comment ++ rest) =
      (comment ++ (splitGap .blockComment rest).1, (splitGap .blockComment rest).2) := by
  induction comment with
  | nil => rfl
  | cons first comment inductionHypothesis =>
      rw [List.infix_cons_iff, not_or] at unclosed
      rw [List.cons_append, splitGap, inductionHypothesis unclosed.2]
      · rfl
      · rintro tail rfl split
        cases comment with
        | nil => exact apart (congrArg List.head? split)
        | cons second comment =>
            obtain ⟨rfl, -⟩ := List.cons.inj split
            exact unclosed.1 (List.prefix_append ['*', '/'] comment)

/-- A gap is cut off with the gap behind it. Behind a last one there is nothing. -/
theorem splitGap_append_of_gap (isGap : Gap last gap) (rest : List Char)
    (alone : last = true → rest = []) :
    splitGap .blank (gap ++ rest) =
      (gap ++ (splitGap .blank rest).1, (splitGap .blank rest).2) := by
  induction isGap with
  | nil => rfl
  | @blank character gap blank _ inductionHypothesis =>
      have unslashed : character ≠ '/' := by
        rintro rfl
        exact absurd blank (by decide)
      rw [List.cons_append, splitGap]
      · simp [blank, inductionHypothesis]
      all_goals exact fun tail slash => absurd slash unslashed
  | lineComment unbroken _ inductionHypothesis =>
      simp [splitGap, splitGap_lineComment unbroken, inductionHypothesis]
  | @blockComment comment behind unclosed _ inductionHypothesis =>
      have inside := splitGap_blockComment unclosed ('*' :: '/' :: (behind ++ rest)) (by simp)
      simp [splitGap, inside, inductionHypothesis]
  | @openLineComment comment behindAll unbroken =>
      have inside := splitGap_lineComment unbroken []
      rw [List.append_nil] at inside
      simp [alone behindAll, splitGap, inside]
  | @openBlockComment comment behindAll unclosed =>
      have inside := splitGap_blockComment unclosed [] (by simp)
      rw [List.append_nil] at inside
      simp [alone behindAll, splitGap, inside]

end Whole

end BraceLang
