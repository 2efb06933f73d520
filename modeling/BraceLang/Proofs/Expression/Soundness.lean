import BraceLang.Proofs.Expression.Reading

/-!
# Only expressions are read

Whatever the reader of a phrase hands over, the tokens it took derive it. The
readers take the reader of inner expressions as an argument, so the proofs take
its soundness as one; an induction on the bound of the nesting supplies it.
-/

namespace BraceLang.Grammar

open Reader

/-- A reader of a phrase only hands over what the tokens it takes derive. -/
def Sound (phrase : Phrase) (reader : Reader phrase.Tree) : Prop :=
  ∀ ⦃stop : Terminator⦄ ⦃ahead rest : List Token⦄ ⦃value : phrase.Tree⦄,
    Reads reader stop ahead value rest → ∃ used, ahead = used ++ rest ∧ Derives phrase used value

section Layer

variable {inner : Reader Node}

theorem sound_furtherArguments (sound : Sound .expression inner) :
    Sound .furtherArguments (repeated (furtherArgument inner)) := by
  intro stop ahead rest args reads
  obtain ⟨_, _, ⟨rfl, rfl⟩, collected⟩ := reads_bind.mp reads
  have runs :=
    Runs.of_collect (fun declined => (reads_furtherArgument_none.mp declined).2) collected
  clear reads collected
  induction runs with
  | nil => exact ⟨[], rfl, .noFurtherArguments⟩
  | cons first _ inductionHypothesis =>
      obtain ⟨comma, middle, rfl, reads⟩ := reads_furtherArgument_some.mp first
      obtain ⟨used, rfl, next⟩ := sound reads
      obtain ⟨further, rfl, others⟩ := inductionHypothesis
      exact ⟨_, by simp, .furtherArguments comma next others⟩

theorem sound_arguments (sound : Sound .expression inner) : Sound .arguments (arguments inner) := by
  intro stop ahead rest args reads
  obtain ⟨_, first, _, firstReads, further, furtherReads, rfl⟩ | ⟨_, rfl, rfl⟩ :=
    reads_arguments.mp reads
  · obtain ⟨used, rfl, derived⟩ := sound firstReads
    obtain ⟨others, rfl, furtherDerived⟩ := sound_furtherArguments sound furtherReads
    exact ⟨used ++ others, by simp, .arguments derived furtherDerived⟩
  · exact ⟨[], rfl, .noArguments⟩

/-- What is attached to a chain makes a longer chain. -/
theorem derives_attached {stop : Terminator} {ahead rest used : List Token}
    {selectors : List Selector} {object : Node} (sound : Sound .expression inner)
    (runs : Runs (selector inner) stop ahead selectors rest) (base : Derives .chain used object) :
    ∃ further, ahead = further ++ rest ∧
      Derives .chain (used ++ further) (selectors.foldl Selector.attach object) := by
  induction runs generalizing used object with
  | nil => exact ⟨[], rfl, by simpa using base⟩
  | @cons _ _ _ found _ first _ inductionHypothesis =>
      cases found with
      | field name point =>
          obtain ⟨place, rfl⟩ := reads_selector_field.mp first
          obtain ⟨further, rfl, chain⟩ := inductionHypothesis (.field point name place base)
          exact ⟨_ :: _ :: further, rfl, by simpa [Selector.attach] using chain⟩
      | call args opening =>
          obtain ⟨_, closing, rfl, reads⟩ := reads_selector_call.mp first
          obtain ⟨inside, rfl, given⟩ := sound_arguments sound reads
          obtain ⟨further, rfl, chain⟩ := inductionHypothesis (.call opening closing base given)
          refine ⟨(Lexeme.op "(").token opening ::
            (inside ++ (Lexeme.op ")").token closing :: further), by simp, ?_⟩
          simpa [Selector.attach] using chain

theorem sound_chain (sound : Sound .expression inner) {stop : Terminator} {name : String}
    {location : Location} {ahead rest : List Token} {node : Node}
    (reads : Reads (chain inner) stop ((Lexeme.name name).token location :: ahead) node rest) :
    ∃ used, (Lexeme.name name).token location :: ahead = used ++ rest ∧
      Derives .chain used node := by
  obtain ⟨selectors, repeats, rfl⟩ := reads_chain.mp reads
  obtain ⟨_, _, ⟨rfl, rfl⟩, collected⟩ := reads_bind.mp repeats
  have runs := Runs.of_collect (fun declined => (reads_selector_none.mp declined).2.2) collected
  obtain ⟨further, rfl, derived⟩ := derives_attached sound runs (.name name location)
  exact ⟨_, rfl, derived⟩

theorem sound_primary (sound : Sound .expression inner) : Sound .primary (primary inner) := by
  intro stop ahead rest node reads
  cases ahead with
  | nil => exact absurd reads not_reads_primary_nil
  | cons first ahead =>
      obtain ⟨⟨kind, text⟩, location⟩ := first
      obtain ⟨rfl, rfl, rfl⟩ | ⟨rfl, rfl, rfl⟩ | ⟨rfl, reads⟩ | ⟨opening, closing, reads⟩ :=
        reads_primary.mp reads
      · exact ⟨_, rfl, .number text location⟩
      · exact ⟨_, rfl, .string text location⟩
      · obtain ⟨used, equal, derived⟩ := sound_chain sound reads
        exact ⟨used, equal, .chained derived⟩
      · obtain ⟨used, rfl, derived⟩ := sound reads
        obtain ⟨rfl, rfl⟩ := opening
        exact ⟨_, by simp [Lexeme.token, Lexeme.op], .parenthesized location closing derived⟩

/-- The operators behind an operand make it a longer operand. -/
theorem derives_stepped {ahead rest used : List Token} {ops : List (StepOp × Location)}
    {node : Node} (run : splitRun stepOp? ahead = (ops, rest)) (base : Derives .stepped used node) :
    ∃ further, ahead = further ++ rest ∧ Derives .stepped (used ++ further)
      (ops.foldl (fun node op => .step op.1 node op.2) node) := by
  induction ahead generalizing used node ops with
  | nil =>
      obtain ⟨rfl, rfl⟩ := Prod.mk.inj run
      exact ⟨[], rfl, by simpa using base⟩
  | cons token ahead inductionHypothesis =>
      cases classified : stepOp? token with
      | none =>
          simp only [splitRun, classified] at run
          obtain ⟨rfl, rfl⟩ := Prod.mk.inj run
          exact ⟨[], rfl, by simpa using base⟩
      | some found =>
          obtain ⟨op, location⟩ := found
          simp only [splitRun, classified] at run
          obtain ⟨rfl, rfl⟩ := Prod.mk.inj run
          have longer : Derives .stepped (used ++ [token]) (.step op node location) := by
            obtain rfl := stepOp_eq_some_iff.mp classified
            cases op with
            | increment => exact .incremented location base
            | decrement => exact .decremented location base
          obtain ⟨further, equal, derived⟩ := inductionHypothesis rfl longer
          exact ⟨token :: further, congrArg (token :: ·) equal, by simpa using derived⟩

theorem sound_stepped (sound : Sound .expression inner) : Sound .stepped (stepped inner) := by
  intro stop ahead rest node reads
  simp only [stepped, reads_bind, reads_run, reads_pure] at reads
  obtain ⟨operand, _, operandReads, ops, _, run, rfl, rfl⟩ := reads
  obtain ⟨used, rfl, derived⟩ := sound_primary sound operandReads
  obtain ⟨further, rfl, stepped⟩ := derives_stepped run (.unstepped derived)
  exact ⟨used ++ further, by simp, stepped⟩

/-- The operators in front of an operand make it a longer operand. -/
theorem derives_unary {ahead rest used : List Token} {ops : List (UnaryOp × Location)}
    {node : Node} (run : splitRun unaryOp? ahead = (ops, used ++ rest))
    (base : Derives .unary used node) :
    ∃ longer, ahead = longer ++ rest ∧ Derives .unary longer
      (ops.foldr (fun op node => .unary op.1 node op.2) node) := by
  induction ahead generalizing ops with
  | nil =>
      obtain ⟨rfl, equal⟩ := Prod.mk.inj run
      exact ⟨used, equal, base⟩
  | cons token ahead inductionHypothesis =>
      cases classified : unaryOp? token with
      | none =>
          simp only [splitRun, classified] at run
          obtain ⟨rfl, equal⟩ := Prod.mk.inj run
          exact ⟨used, equal, base⟩
      | some found =>
          obtain ⟨op, location⟩ := found
          simp only [splitRun, classified] at run
          obtain ⟨rfl, equal⟩ := Prod.mk.inj run
          obtain ⟨longer, rfl, derived⟩ := inductionHypothesis (Prod.ext rfl equal)
          obtain rfl := unaryOp_eq_some_iff.mp classified
          cases op with
          | negate => exact ⟨_, rfl, .negated location derived⟩
          | invert => exact ⟨_, rfl, .inverted location derived⟩

theorem sound_unary (sound : Sound .expression inner) : Sound .unary (unary inner) := by
  intro stop ahead rest node reads
  simp only [unary, reads_bind, reads_run, reads_pure] at reads
  obtain ⟨ops, _, run, operand, _, operandReads, rfl, rfl⟩ := reads
  obtain ⟨used, rfl, derived⟩ := sound_stepped sound operandReads
  exact derives_unary run (.unsigned derived)

theorem derives_joined {level : Level} {levels : List Level} {operand : Reader Node} 
    (sound : Sound (.operation levels) operand) {stop : Terminator} {ahead rest used : List Token}
    {tails : List Tail} {left : Node} (runs : Runs (operation level operand) stop ahead tails rest)
    (base : Derives (.operation (level :: levels)) used left) :
    ∃ further, ahead = further ++ rest ∧
      Derives (.operation (level :: levels)) (used ++ further) (tails.foldl Tail.attach left) := by
  induction runs generalizing used left with
  | nil => exact ⟨[], rfl, by simpa using base⟩
  | @cons _ _ _ tail _ first _ inductionHypothesis =>
      obtain ⟨lexeme, _, rfl, joins, reads⟩ := reads_operation_some.mp first
      obtain ⟨right, rfl, derived⟩ := sound reads
      obtain ⟨further, rfl, joined⟩ :=
        inductionHypothesis (.joined tail.location joins base derived)
      exact ⟨lexeme.token tail.location :: (right ++ further), by simp,
        by simpa [Tail.attach] using joined⟩

theorem sound_leveled {level : Level} {levels : List Level} {operand : Reader Node}
    (sound : Sound (.operation levels) operand) :
    Sound (.operation (level :: levels)) (leveled level operand) := by
  intro stop ahead rest node reads
  simp only [leveled, repeated, reads_bind, reads_remaining, reads_pure] at reads
  obtain ⟨first, _, firstReads, tails, _, ⟨_, _, ⟨rfl, rfl⟩, collected⟩, rfl, rfl⟩ := reads
  obtain ⟨used, rfl, derived⟩ := sound firstReads
  have runs := Runs.of_collect (fun declined => (reads_operation_none.mp declined).2) collected
  obtain ⟨further, rfl, joined⟩ := derives_joined sound runs (.operand derived)
  exact ⟨used ++ further, by simp, joined⟩

theorem sound_binary (sound : Sound .expression inner) :
    Sound (.operation Level.all) (binary inner) := by
  have innermost : Sound (.operation []) (unary inner) := by
    intro stop ahead rest node reads
    obtain ⟨used, rfl, derived⟩ := sound_unary sound reads
    exact ⟨used, rfl, .innermost derived⟩
  exact sound_leveled (sound_leveled (sound_leveled (sound_leveled innermost)))

theorem sound_layer (sound : Sound .expression inner) : Sound .expression (layer inner) := by
  intro stop ahead rest node reads
  obtain ⟨whole, _⟩ | ⟨target, sign, middle, value, front, assignable, given, rfl⟩ :=
    reads_layer.mp reads
  · obtain ⟨used, rfl, derived⟩ := sound_binary sound whole
    exact ⟨used, rfl, .operation derived⟩
  · obtain ⟨left, rfl, assigned⟩ := sound_binary sound front
    obtain ⟨right, rfl, derived⟩ := sound given
    exact ⟨_, by simp, .assignment sign assigned assignable derived⟩

end Layer

theorem sound_expressionWithin (tokens : Nat) : Sound .expression (expressionWithin tokens) := by
  induction tokens with
  | zero =>
      intro stop ahead rest node reads
      exact absurd reads not_reads_refuse
  | succ tokens inductionHypothesis => exact sound_layer inductionHypothesis

/-- Every expression that is read is derived by exactly the tokens taken for it. -/
theorem sound_expression : Sound .expression expression := by
  intro stop ahead rest node reads
  obtain ⟨_, _, ⟨rfl, rfl⟩, reads⟩ := reads_bind.mp reads
  exact sound_expressionWithin _ reads

end BraceLang.Grammar
