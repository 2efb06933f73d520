import Mathlib.Tactic.SplitIfs
import BraceLang.Proofs.Horizon.Reading

/-!
# How far the reading of an expression looks

No reader of an expression looks further than the token at which it stops, and none of them
compares a word or a place. A bound on the nesting is no part of an expression, so the
readers below are shown for `expression` itself: it is one layer around itself, and on
the tokens behind a token already taken it is settled by induction.
-/

namespace BraceLang

open Grammar

namespace Grammar

variable {change : Relabelling}

/-- A selector in other words at another place. -/
def Selector.relabel (change : Relabelling) : Selector → Selector
  | .field name location => .field (change.word name) (change.place location)
  | .call args location => .call (args.map (Node.relabel change)) (change.place location)

/-- An operator and its right operand in other words at other places. -/
def Tail.relabel (change : Relabelling) (tail : Tail) : Tail :=
  ⟨tail.op, change.place tail.location, tail.right.relabel change⟩

theorem relabel_attach (object : Node) (selector : Selector) :
    (selector.attach object).relabel change =
      (selector.relabel change).attach (object.relabel change) := by
  cases selector with
  | field => rfl
  | call => simp only [Selector.attach, Node.relabel, Selector.relabel, Node.relabelAll_eq_map]

theorem relabel_chain (selectors : List Selector) (object : Node) :
    (selectors.foldl Selector.attach object).relabel change =
      (selectors.map (Selector.relabel change)).foldl Selector.attach (object.relabel change) := by
  induction selectors generalizing object with
  | nil => rfl
  | cons selector selectors inductionHypothesis =>
      rw [List.foldl_cons, inductionHypothesis, relabel_attach]
      rfl

theorem relabel_tails (tails : List Tail) (first : Node) :
    (tails.foldl Tail.attach first).relabel change =
      (tails.map (Tail.relabel change)).foldl Tail.attach (first.relabel change) := by
  induction tails generalizing first with
  | nil => rfl
  | cons tail tails inductionHypothesis => exact inductionHypothesis (tail.attach first)

theorem relabel_steps (ops : List (StepOp × Location)) (operand : Node) :
    (ops.foldl (fun node op => .step op.1 node op.2) operand).relabel change =
      (ops.map (Prod.map id change.place)).foldl (fun node op => .step op.1 node op.2)
        (operand.relabel change) := by
  induction ops generalizing operand with
  | nil => rfl
  | cons op ops inductionHypothesis => exact inductionHypothesis (.step op.1 operand op.2)

theorem relabel_signs (ops : List (UnaryOp × Location)) (operand : Node) :
    (ops.foldr (fun op node => .unary op.1 node op.2) operand).relabel change =
      (ops.map (Prod.map id change.place)).foldr (fun op node => .unary op.1 node op.2)
        (operand.relabel change) := by
  induction ops with
  | nil => rfl
  | cons op ops inductionHypothesis =>
      simp only [List.foldr_cons, List.map_cons, Node.relabel, inductionHypothesis, Prod.map, id]

theorem unaryOp_relabel (token : Token) :
    unaryOp? (token.relabel change) = (unaryOp? token).map (Prod.map id change.place) := by
  simp only [unaryOp?, Token.relabel_is token (Lexeme.not_isWord_op _), Token.relabel_location]
  split_ifs <;> rfl

theorem stepOp_relabel (token : Token) :
    stepOp? (token.relabel change) = (stepOp? token).map (Prod.map id change.place) := by
  simp only [stepOp?, Token.relabel_is token (Lexeme.not_isWord_op _), Token.relabel_location]
  split_ifs <;> rfl

/-- No operator is written with a word. -/
theorem lookup_relabel (level : Level) (lexeme : Lexeme) :
    level.operators.lookup (lexeme.relabel change) = level.operators.lookup lexeme := by
  by_cases isWord : lexeme.IsWord
  · have missing (other : Lexeme) (same : other.IsWord) : level.operators.lookup other = none := by
      refine List.lookup_eq_none_iff.mpr fun entry among => bne_iff_ne.mpr ?_
      rintro rfl
      revert same
      cases level <;> revert entry <;> decide
    have stays : (lexeme.relabel change).IsWord := by
      rwa [Lexeme.IsWord, Lexeme.relabel_kind]
    rw [missing _ isWord, missing _ stays]
  · rw [Lexeme.relabel_of_not_isWord isWord]

theorem operator_relabel (level : Level) (token : Token) :
    level.operator? (token.relabel change) =
      (level.operator? token).map (Prod.map id change.place) := by
  rw [Level.operator?, Level.operator?, Token.relabel_toLexeme, lookup_relabel]
  cases level.operators.lookup token.toLexeme <;> rfl

/-- An expression is one layer around expressions. -/
theorem expression_eq_layer : expression = layer expression := by
  funext stop ahead
  cases ahead with
  | nil => rfl
  | cons first rest =>
      have readers : Reader.InStep rest.length (expressionWithin rest.length) expression := by
        intro stop ahead within
        obtain ⟨same, ranged⟩ := inStep_expressionWithin within (Nat.le_refl _) stop ahead
          (Nat.le_refl _)
        exact ⟨same, ranged⟩
      exact (takesInStep_layer readers stop (first :: rest) (Nat.le_refl _)).1

end Grammar

namespace Grammar

open Reader

/-- The want of an expression is told of the token at which it shows. -/
theorem settles_noExpression (change : Relabelling) (bound : Nat) :
    Settles change bound (Node.relabel change) (refuse .noExpression) (refuse .noExpression) :=
  settles_refuse fun _ _ => rfl

section Layer

variable {change : Relabelling} {bound : Nat}
  (readers : Settles change bound (Node.relabel change) expression expression)

theorem inStep_expression (bound : Nat) : InStep bound expression expression :=
  (takesInStep_expression bound).inStep.mono (Nat.le_succ bound)

include readers

theorem settles_furtherArgument :
    Settles change bound (Option.map (Node.relabel change)) (furtherArgument expression)
      (furtherArgument expression) := by
  refine (settles_accept (by decide)).bind fun comma => ?_
  cases comma with
  | none => exact settles_pure none
  | some _ => exact readers.bind fun arg => settles_pure (some arg)

theorem settles_arguments :
    Settles change bound (List.map (Node.relabel change)) (arguments expression)
      (arguments expression) := by
  refine (settles_at (by decide)).bind fun closed => ?_
  cases closed with
  | true => exact settles_pure []
  | false =>
      refine readers.bind fun first => ?_
      refine ((settles_furtherArgument readers).repeated
        (loopsWithin_furtherArgument (inStep_expression _)) fun _ =>
          loopsWithin_furtherArgument (inStep_expression _)).bind fun further => ?_
      exact settles_pure (first :: further)

theorem settles_selector :
    Settles change bound (Option.map (Selector.relabel change)) (selector expression)
      (selector expression) := by
  refine (settles_accept (by decide)).bind fun point => ?_
  cases point with
  | some location =>
      exact (settles_expect_name _).bind fun name =>
        settles_pure (some (Selector.field name.text location))
  | none =>
      refine (settles_accept (by decide)).bind fun opening => ?_
      cases opening with
      | none => exact settles_pure none
      | some location =>
          refine (settles_arguments readers).bind fun args => ?_
          refine (settles_expect _ _).bind fun _ => ?_
          exact settles_pure (some (Selector.call args location))

/-- Everything that is attached to `base`. -/
def chainFrom (base : Node) : Reader Node := do
  let selectors ← repeated (selector expression)
  return selectors.foldl Selector.attach base

theorem settles_chainFrom (base : Node) :
    Settles change bound (Node.relabel change) (chainFrom base)
      (chainFrom (base.relabel change)) :=
  ((settles_selector readers).repeated (loopsWithin_selector (inStep_expression _)) fun _ =>
    loopsWithin_selector (inStep_expression _)).bind fun selectors =>
      settles_pure_of _ (relabel_chain selectors base)

omit readers in
/-- A token that begins no primary expression is refused. -/
theorem primary_of_other {inner : Reader Node} {first : Token} (noNumber : first.kind ≠ .number)
    (noString : first.kind ≠ .string) (noName : first.kind ≠ .identifier)
    (noOpening : first.is (.op "(") = false) (stop : Terminator) (tail : List Token) :
    primary inner stop (first :: tail) = refuse .noExpression stop (first :: tail) := by
  simp [primary, bind, peek, noNumber, noString, noName, noOpening]

theorem settles_primary :
    Settles change (bound + 1) (Node.relabel change) (primary expression) (primary expression) := by
  intro stop ahead within
  obtain _ | ⟨first, tail⟩ := ahead
  · obtain ⟨taken, settled⟩ := settles_noExpression change _ stop [] within
    refine ⟨taken, settled.congr fun other others mirrors => ?_⟩
    cases mirrors
    rfl
  have behind {reader readerSecond : Reader Node}
      (settles : Settles change bound (Node.relabel change) reader readerSecond)
      (reads : primary expression stop (first :: tail) = reader stop tail)
      (readsSecond : ∀ other others,
        primary expression other (first.relabel change :: others) = readerSecond other others) :
      ∃ taken, Settled change (Node.relabel change) taken stop (first :: tail)
        (primary expression stop (first :: tail)) (primary expression) := by
    obtain ⟨taken, settled⟩ := settles stop tail (Nat.le_of_succ_le_succ within)
    exact ⟨taken + 1, reads ▸ settled.cons readsSecond⟩
  have refused (noNumber : first.kind ≠ .number) (noString : first.kind ≠ .string)
      (noName : first.kind ≠ .identifier) (noOpening : first.is (.op "(") = false) :
      ∃ taken, Settled change (Node.relabel change) taken stop (first :: tail)
        (primary expression stop (first :: tail)) (primary expression) := by
    obtain ⟨taken, settled⟩ := settles_noExpression change _ stop (first :: tail) within
    rw [primary_of_other noNumber noString noName noOpening]
    refine ⟨taken, settled.congr fun other others mirrors => ?_⟩
    cases mirrors
    exact primary_of_other (by simpa) (by simpa) (by simpa)
      ((Token.relabel_is first (Lexeme.not_isWord_op "(")).trans noOpening) _ _
  obtain ⟨⟨kind, text⟩, place⟩ := first
  cases kind with
  | number => exact behind (settles_pure (Node.number text place)) rfl fun _ _ => rfl
  | string => exact behind (settles_pure (Node.string text place)) rfl fun _ _ => rfl
  | identifier =>
      exact behind (settles_chainFrom readers (.reference text place)) rfl fun _ _ => rfl
  | operator =>
      by_cases opening : text = "("
      · subst opening
        exact behind (readers.bind fun node => (settles_expect .closeParen .afterExpression).bind
          fun _ => settles_pure node) rfl fun _ _ => rfl
      · exact refused nofun nofun nofun
          (decide_eq_false fun same => opening (congrArg Lexeme.text same))
  | _ => exact refused nofun nofun nofun (decide_eq_false nofun)

theorem settles_stepped :
    Settles change (bound + 1) (Node.relabel change) (stepped expression) (stepped expression) :=
  (settles_primary readers).bind fun operand =>
    (settles_run stepOp_relabel).bind fun ops => settles_pure_of _ (relabel_steps ops operand)

theorem settles_unary :
    Settles change (bound + 1) (Node.relabel change) (unary expression) (unary expression) :=
  (settles_run unaryOp_relabel).bind fun ops =>
    (settles_stepped readers).bind fun operand => settles_pure_of _ (relabel_signs ops operand)

omit readers in
theorem settles_operation {operand operandSecond : Reader Node} (level : Level)
    (operands : Settles change bound (Node.relabel change) operand operandSecond) :
    Settles change bound (Option.map (Tail.relabel change)) (operation level operand)
      (operation level operandSecond) := by
  refine (settles_take (operator_relabel level)).bind fun sign => ?_
  cases sign with
  | none => exact settles_pure none
  | some sign => exact operands.bind fun right => settles_pure (some (Tail.mk sign.1 sign.2 right))

omit readers in
theorem settles_leveled {operand : Reader Node} (level : Level)
    (operands : Settles change bound (Node.relabel change) operand operand)
    (inRange : ∀ bound, InStep bound operand operand) :
    Settles change bound (Node.relabel change) (leveled level operand) (leveled level operand) := by
  refine operands.bind fun first => ?_
  exact ((settles_operation level operands).repeated (loopsWithin_operation (inRange _) level)
    fun _ => loopsWithin_operation (inRange _) level).bind fun tails =>
      settles_pure_of _ (relabel_tails tails first)

theorem settles_levels (levels : List Level) :
    Settles change (bound + 1) (Node.relabel change) (levels.foldr leveled (unary expression))
      (levels.foldr leveled (unary expression)) := by
  induction levels with
  | nil => exact settles_unary readers
  | cons level levels inductionHypothesis =>
      exact settles_leveled level inductionHypothesis fun bound =>
        (takesInStep_levels levels (inStep_expression bound)).inStep.mono (Nat.le_succ bound)

theorem settles_assigned (target : Node) :
    Settles change (bound + 1) (Node.relabel change) (assigned expression target)
      (assigned expression (target.relabel change)) := by
  refine (settles_at (by decide)).bind fun signed => ?_
  cases signed with
  | false => exact settles_pure target
  | true =>
      rw [id, if_pos rfl, if_pos rfl, Node.isTarget_relabel]
      split_ifs
      · refine settles_next.bind_takes takesInStep_next fun sign => ?_
        exact readers.bind fun value => settles_pure (Node.assignment target value sign.location)
      · refine settles_refuse fun keeps _ => ?_
        rw [Node.text_relabel keeps]

theorem settles_layer :
    Settles change (bound + 1) (Node.relabel change) (layer expression) (layer expression) :=
  (settles_levels readers Level.all).bind fun target => settles_assigned readers target

end Layer

/-- What an expression comes to depends on the tokens it takes and the two behind them. -/
theorem settles_expression (change : Relabelling) (bound : Nat) :
    Settles change bound (Node.relabel change) expression expression := by
  induction bound with
  | zero =>
      intro stop ahead within
      obtain rfl : ahead = [] := List.eq_nil_of_length_eq_zero (Nat.le_zero.mp within)
      obtain ⟨taken, settled⟩ := settles_noExpression change _ stop [] within
      refine ⟨taken, settled.congr fun other others mirrors => ?_⟩
      cases mirrors
      rfl
  | succ bound inductionHypothesis =>
      rw [expression_eq_layer]
      exact settles_layer inductionHypothesis

end Grammar
end BraceLang
