import BraceLang.Grammar.Scripted
import BraceLang.Proofs.Course
import BraceLang.Proofs.Lockstep.Expression

/-!
# Scripted readings in lockstep

What `Reader.InStep` is for readers without a script, with the course of the reading
added: the script of a success goes along the tokens taken, that of a failure along
tokens up to some point, and in both cases it closes the scopes it opens.
-/

namespace BraceLang.Scripted

variable {α β : Type}

/-- An outcome, in front of which the scopes of `openers` are open, closes all scopes on its
course along the tokens of `kept`. A failure is within `ahead`. -/
def Ran (openers : List Opener) (stop : Terminator) (ahead kept : List Token) : Outcome α → Prop
  | ⟨script, .ok (_, rest)⟩ => Course openers kept script rest
  | ⟨script, .error error⟩ =>
      (∃ rest, Course openers kept script rest) ∧ error.IsWithin stop ahead

/-- On at most `bound` tokens two readers come to the same outcome, which has a course. -/
def InStep (bound : Nat) (first second : Scripted α) : Prop :=
  ∀ stop ahead, ahead.length ≤ bound →
    first stop ahead = second stop ahead ∧ Ran [] stop ahead ahead (first stop ahead)

/-- On at most one token more than `bound` two readers come to the same outcome, which has a
course behind the first of the tokens. -/
def TakesInStep (bound : Nat) (first second : Scripted α) : Prop :=
  ∀ stop ahead, ahead.length ≤ bound + 1 →
    first stop ahead = second stop ahead ∧ Ran [] stop ahead ahead.tail (first stop ahead)

variable {bound : Nat} {first second : Scripted α} {stop : Terminator}
  {ahead kept : List Token}

theorem Ran.mono {openers : List Opener} {outcome : Outcome α} {rest left : List Token}
    (ran : Ran openers stop rest left outcome) (suffix : rest <:+ ahead) (keeps : left <:+ kept) :
    Ran openers stop ahead kept outcome := by
  obtain ⟨script, failure | ⟨value, last⟩⟩ := outcome
  · obtain ⟨⟨last, course⟩, within⟩ := ran
    exact ⟨⟨last, (Course.of_suffix keeps).trans course⟩, within.mono suffix⟩
  · exact (Course.of_suffix keeps).trans ran

/-- A script written in front of an outcome is in front of its course. -/
theorem Ran.after {openers : List Opener} {outcome : Outcome α} {front : List Step}
    {rest last : List Token} (course : Course [] kept front rest) (keeps : kept <:+ ahead)
    (ran : Ran openers stop rest last outcome) (lasts : last <:+ rest) :
    Ran openers stop ahead kept ⟨front ++ outcome.script, outcome.result⟩ := by
  obtain ⟨script, failure | ⟨value, left⟩⟩ := outcome
  · obtain ⟨⟨left, back⟩, within⟩ := ran
    exact ⟨⟨left, course.trans ((Course.of_suffix lasts).trans back)⟩,
      within.mono (course.suffix.trans keeps)⟩
  · exact course.trans ((Course.of_suffix lasts).trans ran)

theorem bind_ok {script : List Step} {value : α} {rest : List Token} {next : α → Scripted β}
    (outcome : first stop ahead = ⟨script, .ok (value, rest)⟩) :
    (first >>= next) stop ahead =
      ⟨script ++ (next value stop rest).script, (next value stop rest).result⟩ := by
  simp only [bind, outcome]

theorem bind_error {script : List Step} {failure : SyntaxError} {next : α → Scripted β}
    (outcome : first stop ahead = ⟨script, .error failure⟩) :
    (first >>= next) stop ahead = ⟨script, .error failure⟩ := by
  simp only [bind, outcome]

theorem lift_eq {reader : Reader α} {result : Except SyntaxError (α × List Token)}
    (read : reader stop ahead = result) :
    (liftM reader : Scripted α) stop ahead = ⟨[], result⟩ :=
  congrArg (Outcome.mk []) read

theorem bind_congr_left {next : α → Scripted β} (same : first stop ahead = second stop ahead) :
    (first >>= next) stop ahead = (second >>= next) stop ahead := by
  simp only [bind, same]

/-- Making something of a value changes neither the script nor what is left. -/
theorem bind_pure_eq (reader : Scripted α) (make : α → β) (stop : Terminator)
    (ahead : List Token) :
    (reader >>= fun value => pure (make value)) stop ahead =
      ⟨(reader stop ahead).script,
        (reader stop ahead).result.map fun (value, rest) => (make value, rest)⟩ := by
  rcases outcome : reader stop ahead with ⟨script, failure | ⟨value, rest⟩⟩
  · exact bind_error outcome
  · rw [bind_ok outcome]
    exact congrArg (Outcome.mk · _) (List.append_nil script)

theorem Ran.map {openers : List Opener} (make : α → β)
    (ran : Ran openers stop ahead kept (first stop ahead)) :
    Ran openers stop ahead kept ((first >>= fun value => pure (make value)) stop ahead) := by
  rw [bind_pure_eq]
  rcases outcome : first stop ahead with ⟨script, failure | ⟨value, rest⟩⟩ <;>
  · rw [outcome] at ran
    exact ran

/-- Sequencing keeps the step: what follows starts at tokens that the first reading left. -/
theorem bind_inStep {next nextSecond : α → Scripted β}
    (same : first stop ahead = second stop ahead) (ran : Ran [] stop ahead kept (first stop ahead))
    (keeps : kept <:+ ahead)
    (further : ∀ value rest, rest <:+ kept →
      next value stop rest = nextSecond value stop rest ∧
        Ran [] stop rest rest (next value stop rest)) :
    (first >>= next) stop ahead = (second >>= nextSecond) stop ahead ∧
      Ran [] stop ahead kept ((first >>= next) stop ahead) := by
  rcases outcome : first stop ahead with ⟨script, failure | ⟨value, rest⟩⟩
  · rw [outcome] at ran
    rw [bind_error outcome, bind_error (same.symm.trans outcome)]
    exact ⟨rfl, ran⟩
  · rw [outcome] at ran
    obtain ⟨sameNext, ranNext⟩ := further value rest ran.suffix
    rw [bind_ok outcome, bind_ok (same.symm.trans outcome), ← sameNext]
    exact ⟨rfl, ranNext.after ran keeps (List.suffix_refl rest)⟩

theorem InStep.mono {fewer : Nat} (readers : InStep bound first second) (less : fewer ≤ bound) :
    InStep fewer first second :=
  fun stop ahead within => readers stop ahead (Nat.le_trans within less)

/-- Readers that take a token are in step with one token more. -/
theorem TakesInStep.inStep (readers : TakesInStep bound first second) :
    InStep (bound + 1) first second := by
  intro stop ahead within
  obtain ⟨same, ran⟩ := readers stop ahead within
  exact ⟨same, ran.mono (List.suffix_refl _) (List.tail_suffix ahead)⟩

theorem TakesInStep.inStep_le (readers : TakesInStep bound first second) :
    InStep bound first second :=
  readers.inStep.mono (Nat.le_succ bound)

theorem InStep.bind {next nextSecond : α → Scripted β} (readers : InStep bound first second)
    (further : ∀ value, InStep bound (next value) (nextSecond value)) :
    InStep bound (first >>= next) (second >>= nextSecond) := by
  intro stop ahead within
  obtain ⟨same, ran⟩ := readers stop ahead within
  exact bind_inStep same ran (List.suffix_refl _) fun value rest suffix =>
    further value stop rest (Nat.le_trans suffix.length_le within)

/-- Behind a token taken, fewer tokens are ahead. -/
theorem TakesInStep.bind {next nextSecond : α → Scripted β}
    (readers : TakesInStep bound first second)
    (further : ∀ value, InStep bound (next value) (nextSecond value)) :
    TakesInStep bound (first >>= next) (second >>= nextSecond) := by
  intro stop ahead within
  obtain ⟨same, ran⟩ := readers stop ahead within
  refine bind_inStep same ran (List.tail_suffix ahead) fun value rest suffix => ?_
  refine further value stop rest ?_
  have shorter := suffix.length_le
  rw [List.length_tail] at shorter
  omega

theorem TakesInStep.map (make : α → β) (readers : TakesInStep bound first second) :
    TakesInStep bound (make <$> first) (make <$> second) := by
  intro stop ahead within
  obtain ⟨same, ran⟩ := readers stop ahead within
  exact ⟨bind_congr_left same, ran.map make⟩

theorem inStep_pure (value : α) : InStep bound (pure value) (pure value) :=
  fun _ ahead _ => ⟨rfl, .done ahead⟩

/-- Where nothing is written, being in range is all there is to a course. -/
theorem Ran.of_inRange {result : Except SyntaxError (α × List Token)}
    (ranged : Reader.InRange stop ahead kept result) : Ran [] stop ahead kept ⟨[], result⟩ := by
  rcases result with failure | ⟨value, rest⟩
  · exact ⟨⟨kept, .done kept⟩, ranged⟩
  · exact .of_suffix ranged

theorem InStep.lift {reader readerSecond : Reader α}
    (readers : Reader.InStep bound reader readerSecond) :
    InStep bound (liftM reader) (liftM readerSecond) := by
  intro stop ahead within
  obtain ⟨same, ranged⟩ := readers stop ahead within
  rw [lift_eq same.symm, lift_eq rfl]
  exact ⟨rfl, .of_inRange ranged⟩

theorem TakesInStep.lift {reader readerSecond : Reader α}
    (readers : Reader.TakesInStep bound reader readerSecond) :
    TakesInStep bound (liftM reader) (liftM readerSecond) := by
  intro stop ahead within
  obtain ⟨same, ranged⟩ := readers stop ahead within
  rw [lift_eq same.symm, lift_eq rfl]
  exact ⟨rfl, .of_inRange ranged⟩

/-- It is enough that what follows a look at the tokens takes a token. -/
theorem TakesInStep.look {reader : Reader α} {next nextSecond : α → Scripted β}
    (readers : Reader.InStep (bound + 1) reader reader)
    (further : ∀ value, TakesInStep bound (next value) (nextSecond value)) :
    TakesInStep bound (liftM reader >>= next) (liftM reader >>= nextSecond) := by
  intro stop ahead within
  have ranged := (readers stop ahead within).2
  rcases outcome : reader stop ahead with failure | ⟨value, rest⟩
  · rw [outcome] at ranged
    rw [bind_error (lift_eq outcome), bind_error (lift_eq outcome)]
    exact ⟨rfl, ⟨ahead.tail, .done ahead.tail⟩, ranged⟩
  · rw [outcome] at ranged
    have suffix : rest <:+ ahead := ranged
    obtain ⟨same, ran⟩ := further value stop rest (Nat.le_trans suffix.length_le within)
    rw [bind_ok (lift_eq outcome), bind_ok (lift_eq outcome), ← same]
    exact ⟨rfl, ran.mono suffix (Reader.tail_suffix_tail suffix)⟩

theorem inStep_emit {step : Step} (remarks : step.Remarks) :
    InStep bound (emit step) (emit step) :=
  fun _ ahead _ => ⟨rfl, .of_remarks remarks ahead⟩

/-- What is read in a scope of its own, in one step. -/
theorem within_eq (kind : ScopeKind) (parts : Scripted α) (stop : Terminator)
    (ahead : List Token) :
    within kind parts stop ahead =
      ⟨.enter kind :: ((parts stop ahead).script ++ [.leave]), (parts stop ahead).result⟩ := by
  simp only [within, onFailure, emit, Bind.bind, Pure.pure]
  rcases parts stop ahead with ⟨script, failure | ⟨value, rest⟩⟩ <;> rfl

theorem Ran.within (kind : ScopeKind) {outcome : Outcome α} (ran : Ran [] stop ahead kept outcome) :
    Ran [] stop ahead kept ⟨.enter kind :: (outcome.script ++ [.leave]), outcome.result⟩ := by
  obtain ⟨script, failure | ⟨value, rest⟩⟩ := outcome
  · obtain ⟨⟨rest, course⟩, located⟩ := ran
    exact ⟨⟨rest, course.within kind⟩, located⟩
  · exact Course.within kind ran

theorem InStep.within (kind : ScopeKind) (readers : InStep bound first second) :
    InStep bound (within kind first) (within kind second) := by
  intro stop ahead inBound
  obtain ⟨same, ran⟩ := readers stop ahead inBound
  rw [within_eq, within_eq, ← same]
  exact ⟨rfl, ran.within kind⟩

theorem TakesInStep.within (kind : ScopeKind) (readers : TakesInStep bound first second) :
    TakesInStep bound (within kind first) (within kind second) := by
  intro stop ahead inBound
  obtain ⟨same, ran⟩ := readers stop ahead inBound
  rw [within_eq, within_eq, ← same]
  exact ⟨rfl, ran.within kind⟩

section Loops

variable {item itemSecond : Scripted (Option α)}

/-- Items in step are collected in step. -/
theorem InStep.collect (items : InStep bound item itemSecond) (rounds : Nat) :
    InStep bound (collect item rounds) (collect itemSecond rounds) := by
  induction rounds with
  | zero => exact inStep_pure []
  | succ rounds inductionHypothesis =>
      refine items.bind fun found => ?_
      cases found with
      | none => exact inStep_pure []
      | some value => exact inductionHypothesis.bind fun values => inStep_pure (value :: values)

theorem InStep.repeated (items : InStep bound item itemSecond) :
    InStep bound (repeated item) (repeated itemSecond) :=
  (InStep.lift Reader.inStep_remaining).bind fun rounds => items.collect rounds

end Loops

theorem onFailure_ok {script : List Step} {value : α} {rest : List Token} (steps : List Step)
    (outcome : first stop ahead = ⟨script, .ok (value, rest)⟩) :
    first.onFailure steps stop ahead = ⟨script, .ok (value, rest)⟩ := by
  simp only [onFailure, outcome]

theorem onFailure_error {script : List Step} {failure : SyntaxError} (steps : List Step)
    (outcome : first stop ahead = ⟨script, .error failure⟩) :
    first.onFailure steps stop ahead = ⟨script ++ steps, .error failure⟩ := by
  simp only [onFailure, outcome]

end BraceLang.Scripted
