import BraceLang.Proofs.Statement.Grammar

/-!
# The course of a reading

Whether a reading succeeds or fails, the script it has written goes along the tokens it
has passed. `Course` is the account of that, for readings of every kind at once: a scope
is left by the construct that entered it, a block is closed by a brace or by a construct
that fails, the one opened last comes first, and a statement is marked at a token that
is then taken. No rule tells how a reading ends, so a reading that fails has a course
like any other, up to the token at which it fails.

What later modules show of all readings they show of courses.
-/

namespace BraceLang

/-- Who has to close a scope that is open. -/
inductive Opener where
  | construct
  | brace
deriving DecidableEq

/-- Whether a step neither opens nor closes a scope nor marks a statement. -/
def Step.Remarks : Step → Prop
  | .declare _ _ => True
  | .check _ => True
  | .initial _ _ _ => True
  | _ => False

/-- The tokens ahead at the start of a course, its script, and the tokens ahead at its end. In
front of it the scopes of `openers` are open, the innermost first; it closes all of them. -/
inductive Course : (openers : List Opener) → List Token → List Step → List Token → Prop where
  | done (ahead : List Token) : Course [] ahead [] ahead
  | taken {openers : List Opener} {ahead rest : List Token} {script : List Step} (first : Token)
      (further : Course openers ahead script rest) : Course openers (first :: ahead) script rest
  | remark {openers : List Opener} {ahead rest : List Token} {script : List Step} {step : Step}
      (remarks : step.Remarks) (further : Course openers ahead script rest) :
      Course openers ahead (step :: script) rest
  | statement {openers : List Opener} {ahead rest : List Token} {script : List Step}
      (first : Token) (further : Course openers ahead script rest) :
      Course openers (first :: ahead) (.statement first.toLexeme (ahead.length + 1) :: script) rest
  | enter {openers : List Opener} {ahead rest : List Token} {script : List Step} (kind : ScopeKind)
      (further : Course (.construct :: openers) ahead script rest) :
      Course openers ahead (.enter kind :: script) rest
  | leave {openers : List Opener} {ahead rest : List Token} {script : List Step}
      (further : Course openers ahead script rest) :
      Course (.construct :: openers) ahead (.leave :: script) rest
  | openBlock {openers : List Opener} {ahead rest : List Token} {script : List Step}
      (further : Course (.brace :: openers) ahead script rest) :
      Course openers ahead (.openBlock :: script) rest
  | closeBlock {openers : List Opener} {ahead rest : List Token} {script : List Step}
      (further : Course openers ahead script rest) :
      Course (.brace :: openers) ahead (.closeBlock :: script) rest

namespace Course

variable {openers others : List Opener} {ahead middle rest : List Token}
  {front back script : List Step}

/-- A course that has closed all its scopes is followed by one that closes further scopes. -/
theorem trans (first : Course openers ahead front middle)
    (second : Course others middle back rest) :
    Course (openers ++ others) ahead (front ++ back) rest := by
  induction first with
  | done => exact second
  | taken first _ inductionHypothesis => exact .taken first (inductionHypothesis second)
  | remark remarks _ inductionHypothesis => exact .remark remarks (inductionHypothesis second)
  | statement first _ inductionHypothesis => exact .statement first (inductionHypothesis second)
  | enter kind _ inductionHypothesis => exact .enter kind (inductionHypothesis second)
  | leave _ inductionHypothesis => exact .leave (inductionHypothesis second)
  | openBlock _ inductionHypothesis => exact .openBlock (inductionHypothesis second)
  | closeBlock _ inductionHypothesis => exact .closeBlock (inductionHypothesis second)

/-- What a course leaves ahead was ahead before. -/
theorem suffix (course : Course openers ahead script rest) : rest <:+ ahead := by
  induction course with
  | done => exact List.suffix_refl _
  | taken first _ inductionHypothesis => exact inductionHypothesis.trans (List.suffix_cons ..)
  | statement first _ inductionHypothesis => exact inductionHypothesis.trans (List.suffix_cons ..)
  | _ => assumption

/-- Taking tokens is a course. -/
theorem of_suffix (suffix : rest <:+ ahead) : Course [] ahead [] rest := by
  obtain ⟨used, rfl⟩ := suffix
  induction used with
  | nil => exact .done rest
  | cons first used inductionHypothesis => exact .taken first inductionHypothesis

/-- A course may begin earlier, at tokens that are only taken. -/
theorem of_tail (course : Course openers ahead.tail script rest) :
    Course openers ahead script rest :=
  (of_suffix (List.tail_suffix ahead)).trans course

/-- One remark is a course. -/
theorem of_remarks {step : Step} (remarks : step.Remarks) (ahead : List Token) :
    Course [] ahead [step] ahead :=
  .remark remarks (.done ahead)

/-- What is read in a scope of its own, up to its end or up to a failure, is a course with the
scope around it. -/
theorem within (kind : ScopeKind) (course : Course [] ahead script rest) :
    Course [] ahead (.enter kind :: (script ++ [.leave])) rest :=
  .enter kind (course.trans (.leave (.done rest)))

/-- A failure closes the blocks that lone braces have opened. -/
theorem closeBlocks (openBlocks : Nat) (ahead : List Token) :
    Course (List.replicate openBlocks .brace) ahead (List.replicate openBlocks .closeBlock)
      ahead := by
  induction openBlocks with
  | zero => exact .done ahead
  | succ openBlocks inductionHypothesis => exact .closeBlock inductionHypothesis

end Course

section Dispatches

/-- The lexeme at which a step marks a statement, and how many tokens were still ahead. -/
def Step.dispatch? : Step → Option (Lexeme × Nat)
  | .statement lexeme left => some (lexeme, left)
  | _ => none

/-- The statements that a script marks. -/
def dispatches (script : List Step) : List (Lexeme × Nat) := script.filterMap Step.dispatch?

/-- The lexemes of tokens with the number of tokens ahead at each. -/
def positions : List Token → List (Lexeme × Nat)
  | [] => []
  | first :: rest => (first.toLexeme, rest.length + 1) :: positions rest

/-- The statements marked by a script are among the tokens it goes along, in their order and
each at another token. -/
def Marks (ahead : List Token) (script : List Step) (rest : List Token) : Prop :=
  (dispatches script ++ positions rest).Sublist (positions ahead)

variable {ahead middle rest : List Token} {front back script : List Step}

theorem dispatches_append (front back : List Step) :
    dispatches (front ++ back) = dispatches front ++ dispatches back :=
  List.filterMap_append

theorem Marks.trans (first : Marks ahead front middle) (second : Marks middle back rest) :
    Marks ahead (front ++ back) rest := by
  rw [Marks, dispatches_append, List.append_assoc]
  exact (second.append_left _).trans first

theorem Course.marks {openers : List Opener} (course : Course openers ahead script rest) :
    Marks ahead script rest := by
  induction course with
  | done => exact List.Sublist.refl _
  | taken first _ inductionHypothesis => exact inductionHypothesis.cons _
  | statement first _ inductionHypothesis => exact inductionHypothesis.cons_cons _
  | @remark _ _ _ _ step remarks _ inductionHypothesis =>
      cases step <;> first | exact inductionHypothesis | exact remarks.elim
  | _ => assumption

end Dispatches
end BraceLang
