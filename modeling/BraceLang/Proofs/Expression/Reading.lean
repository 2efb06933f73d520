import BraceLang.Proofs.Expression.Grammar

/-!
# The readers of expressions

One equivalence for each reader of a phrase: its success in terms of the tokens
ahead and of the successes of the readers it is made of.
-/

namespace BraceLang.Grammar

open Reader

variable {stop : Terminator} {ahead rest : List Token} {inner : Reader Node}

/-- The operators of a level are the lexemes that join operands there. -/
theorem mem_operators_iff {level : Level} {lexeme : Lexeme} {op : BinaryOp} :
    (lexeme, op) ∈ level.operators ↔ Joins level lexeme op := by
  constructor
  · intro member
    cases level <;> simp only [Level.operators, List.mem_cons, Prod.mk.injEq] at member <;>
      grind [Joins, Lexeme.op]
  · intro joins
    cases joins <;> decide

/-- No lexeme is two operators of one level. -/
theorem lookup_operators_eq_some_iff {level : Level} {lexeme : Lexeme} {op : BinaryOp} :
    level.operators.lookup lexeme = some op ↔ Joins level lexeme op := by
  constructor
  · intro found
    obtain ⟨before, after, listed, _⟩ := List.lookup_eq_some_iff.mp found
    exact mem_operators_iff.mp (by simp [listed])
  · intro joins
    cases joins <;> decide

/-- The operator that a token is, is the one that joins operands there. -/
theorem operator_eq_some_iff {level : Level} {token : Token} {op : BinaryOp}
    {location : Location} :
    level.operator? token = some (op, location) ↔
      Joins level token.toLexeme op ∧ token.location = location := by
  simp only [Level.operator?, Option.map_eq_some_iff, Prod.mk.injEq,
    lookup_operators_eq_some_iff]
  constructor
  · rintro ⟨_, joins, rfl, placed⟩
    exact ⟨joins, placed⟩
  · rintro ⟨joins, placed⟩
    exact ⟨op, joins, rfl, placed⟩

/-- The trees that pass as targets are those that can be assigned to. -/
theorem isTarget_iff (node : Node) : isTarget node = true ↔ Assignable node := by
  constructor
  · cases node <;> simp [isTarget, Assignable.reference, Assignable.field]
  · rintro (_ | _) <;> rfl

/-- The operator behind an operand that a token is, is the one written so. -/
theorem stepOp_eq_some_iff {token : Token} {op : StepOp} {location : Location} :
    stepOp? token = some (op, location) ↔ token = (Lexeme.op op.symbol).token location := by
  obtain ⟨lexeme, place⟩ := token
  simp only [stepOp?, Token.is_iff, Lexeme.token, Token.mk.injEq]
  cases op <;> grind [Lexeme.op, StepOp.symbol]

/-- The operator in front of an operand that a token is, is the one written so. -/
theorem unaryOp_eq_some_iff {token : Token} {op : UnaryOp} {location : Location} :
    unaryOp? token = some (op, location) ↔ token = (Lexeme.op op.symbol).token location := by
  obtain ⟨lexeme, place⟩ := token
  simp only [unaryOp?, Token.is_iff, Lexeme.token, Token.mk.injEq]
  cases op <;> grind [Lexeme.op, UnaryOp.symbol]

@[simp] theorem reads_furtherArgument_some {arg : Node} :
    Reads (furtherArgument inner) stop ahead (some arg) rest ↔
      ∃ comma middle, ahead = (Lexeme.op ",").token comma :: middle ∧
        Reads inner stop middle arg rest := by
  simp [furtherArgument, Option.exists]

@[simp] theorem reads_furtherArgument_none :
    Reads (furtherArgument inner) stop ahead none rest ↔
      ¬ (Lexeme.op ",").Starts ahead ∧ rest = ahead := by
  simp [furtherArgument]

theorem reads_arguments {args : List Node} :
    Reads (arguments inner) stop ahead args rest ↔
      ¬ (Lexeme.op ")").Starts ahead ∧ (∃ first middle, Reads inner stop ahead first middle ∧
        ∃ further, Reads (repeated (furtherArgument inner)) stop middle further rest ∧
          args = first :: further) ∨
      (Lexeme.op ")").Starts ahead ∧ args = [] ∧ rest = ahead := by
  simp [arguments, and_assoc]

theorem reads_selector_field {name : String} {location : Location} :
    Reads (selector inner) stop ahead (some (.field name location)) rest ↔
      ∃ place,
        ahead = (Lexeme.op ".").token location :: (Lexeme.name name).token place :: rest := by
  simp [selector, Option.exists, and_assoc]

theorem reads_selector_call {args : List Node} {location : Location} :
    Reads (selector inner) stop ahead (some (.call args location)) rest ↔
      ∃ middle closing, ahead = (Lexeme.op "(").token location :: middle ∧
        Reads (arguments inner) stop middle args ((Lexeme.op ")").token closing :: rest) := by
  simp [selector, Option.exists, and_assoc]
  rintro _ rfl
  simp

theorem reads_selector_none :
    Reads (selector inner) stop ahead none rest ↔
      ¬ (Lexeme.op ".").Starts ahead ∧ ¬ (Lexeme.op "(").Starts ahead ∧ rest = ahead := by
  simp [selector, Option.exists, and_assoc]

theorem reads_chain {node : Node} {first : Token} :
    Reads (chain inner) stop (first :: ahead) node rest ↔
      ∃ selectors, Reads (repeated (selector inner)) stop ahead selectors rest ∧
        node = selectors.foldl Selector.attach (.reference first.text first.location) := by
  simp [chain, and_assoc]

theorem reads_primary {node : Node} {first : Token} :
    Reads (primary inner) stop (first :: ahead) node rest ↔
      first.kind = .number ∧ node = .number first.text first.location ∧ rest = ahead ∨
      first.kind = .string ∧ node = .string first.text first.location ∧ rest = ahead ∨
      first.kind = .identifier ∧ Reads (chain inner) stop (first :: ahead) node rest ∨
      first.toLexeme = .op "(" ∧ ∃ closing,
        Reads inner stop ahead node ((Lexeme.op ")").token closing :: rest) := by
  obtain ⟨⟨kind, text⟩, location⟩ := first
  cases kind <;> simp [primary, Lexeme.op, and_assoc]

@[simp] theorem not_reads_primary_nil {node : Node} :
    ¬ Reads (primary inner) stop [] node rest := by
  simp [primary, Terminator.token, Lexeme.endOfInput, Lexeme.op]

theorem reads_operation_some {level : Level} {operand : Reader Node} {tail : Tail} :
    Reads (operation level operand) stop ahead (some tail) rest ↔
      ∃ lexeme middle, ahead = lexeme.token tail.location :: middle ∧ Joins level lexeme tail.op ∧
        Reads operand stop middle tail.right rest := by
  simp only [operation, reads_bind, Option.exists, reads_take_some, Prod.exists,
    operator_eq_some_iff, reads_pure]
  constructor
  · rintro (⟨_, _, equal, _⟩ |
      ⟨op, _, middle, ⟨token, rfl, joins, rfl⟩, right, _, reads, equal, rfl⟩)
    · simp at equal
    · obtain rfl := Option.some.inj equal
      exact ⟨token.toLexeme, middle, rfl, joins, reads⟩
  · rintro ⟨lexeme, middle, rfl, joins, reads⟩
    exact .inr ⟨tail.op, tail.location, middle, ⟨_, rfl, joins, rfl⟩, tail.right, rest, reads,
      rfl, rfl⟩

theorem reads_operation_none {level : Level} {operand : Reader Node} :
    Reads (operation level operand) stop ahead none rest ↔
      (∀ lexeme op, Joins level lexeme op → ¬ lexeme.Starts ahead) ∧ rest = ahead := by
  cases ahead with
  | nil => simp [operation, Option.exists]
  | cons token tail => simp [operation, Option.exists, Level.operator?, mem_operators_iff]

theorem reads_layer {node : Node} :
    Reads (layer inner) stop ahead node rest ↔
      Reads (binary inner) stop ahead node rest ∧ ¬ (Lexeme.op "=").Starts rest ∨
      ∃ target sign middle value,
        Reads (binary inner) stop ahead target ((Lexeme.op "=").token sign :: middle) ∧
          Assignable target ∧ Reads inner stop middle value rest ∧
          node = .assignment target value sign := by
  simp only [layer, assigned, reads_bind, Bool.exists_bool, reads_at_true, reads_at_false,
    reads_ite, reads_next, not_reads_refuse, isTarget_iff, reads_pure]
  constructor
  · rintro ⟨target, middle, reads, ⟨_, ⟨absent, rfl⟩, falsity | ⟨_, rfl, rfl⟩⟩ |
      ⟨_, ⟨⟨sign, tail, rfl⟩, rfl⟩, ⟨_, given⟩ | absurd⟩⟩
    · simp at falsity
    · exact .inl ⟨reads, absent⟩
    · obtain ⟨assignable, _, _, ⟨rfl, rfl⟩, value, _, given, rfl, rfl⟩ | falsity := given
      · exact .inr ⟨target, sign, _, value, reads, assignable, given, rfl⟩
      · simp at falsity
    · simp at absurd
  · rintro (⟨reads, absent⟩ | ⟨target, sign, middle, value, reads, assignable, given, rfl⟩)
    · exact ⟨node, rest, reads, .inl ⟨rest, ⟨absent, rfl⟩, .inr ⟨by simp, rfl, rfl⟩⟩⟩
    · exact ⟨target, _, reads, .inr ⟨_, ⟨⟨sign, middle, rfl⟩, rfl⟩, .inl ⟨trivial, .inl ⟨assignable,
        _, middle, ⟨rfl, rfl⟩, value, rest, given, rfl, rfl⟩⟩⟩⟩

end BraceLang.Grammar
