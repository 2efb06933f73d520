import BraceLang.Proofs.Expression.Soundness

/-!
# Every expression is read

Tokens that derive an expression are read as that expression, unless the token
behind them lets the expression go on. Phrases whose rules recur on the left are
read by loops that attach to what was read so far, so what is proved of them is
stated for everything that a loop still attaches.
-/

namespace BraceLang.Grammar

open Reader

/-- The lexemes with which a chain may go on. -/
def chainMarks : List Lexeme := [.op ".", .op "("]

/-- The lexemes with which an operand may go on. -/
def operandMarks : List Lexeme := .op "++" :: .op "--" :: chainMarks

/-- The lexemes with which operands joined by operators of the levels may go on. -/
def operationMarks (levels : List Level) : List Lexeme :=
  levels.flatMap (fun level => level.operators.map Prod.fst) ++ operandMarks

/-- The lexemes with which a phrase may go on. -/
def Phrase.marks : Phrase → List Lexeme
  | .expression => .op "=" :: operationMarks Level.all
  | .operation levels => operationMarks levels
  | .unary | .stepped => operandMarks
  | .primary | .chain => chainMarks
  | .arguments | .furtherArguments => .op "," :: .op "=" :: operationMarks Level.all

/-- Whether a phrase is at its end in front of the tokens ahead. -/
def Phrase.Ends (phrase : Phrase) (ahead : List Token) : Prop :=
  ∀ lexeme ∈ phrase.marks, ¬ lexeme.Starts ahead

/-- A phrase ends in front of every lexeme that is none of its marks. -/
@[simp] theorem Phrase.ends_cons {phrase : Phrase} {first : Token} {rest : List Token} :
    phrase.Ends (first :: rest) ↔ first.toLexeme ∉ phrase.marks := by
  simp only [Ends, Lexeme.starts_cons]
  grind

theorem Phrase.ends_token {phrase : Phrase} {lexeme : Lexeme} {location : Location}
    {rest : List Token} (unmarked : lexeme ∉ phrase.marks) :
    phrase.Ends (lexeme.token location :: rest) :=
  Phrase.ends_cons.mpr unmarked

theorem Phrase.Ends.of_subset {phrase other : Phrase} {ahead : List Token} (ends : other.Ends ahead)
    (fewer : phrase.marks ⊆ other.marks) : phrase.Ends ahead :=
  fun lexeme member => ends lexeme (fewer member)

/-- The marks of an expression are the lexemes with which an expression may go on. -/
theorem expression_ends_iff {ahead : List Token} :
    Phrase.expression.Ends ahead ↔ ∀ lexeme ∈ continuations, ¬ lexeme.Starts ahead := by
  have same : ∀ lexeme, lexeme ∈ Phrase.expression.marks ↔ lexeme ∈ continuations := by
    intro lexeme
    simp [Phrase.marks, operationMarks, operandMarks, chainMarks, continuations, Level.all,
      Level.operators]
  simp only [Phrase.Ends, same]

/-- No operator of a level belongs to a tighter level, or goes on an operand. -/
theorem ends_of_joins {level : Level} {levels : List Level} {lexeme : Lexeme} {op : BinaryOp}
    (suffix : level :: levels <:+ Level.all) (joins : Joins level lexeme op) (sign : Location)
    (ahead : List Token) : (Phrase.operation levels).Ends (lexeme.token sign :: ahead) := by
  rw [Phrase.ends_cons]
  simp only [Level.all, List.suffix_cons_iff, List.suffix_nil, List.cons.injEq] at suffix
  cases joins <;> simp_all <;> decide 

/-- The lexical classes with whose lexemes a phrase can begin. -/
def Phrase.leadingKinds : Phrase → List Kind
  | .chain => [.identifier]
  | _ => [.number, .string, .identifier]

/-- The other lexemes with which a phrase can begin. -/
def Phrase.leadingLexemes : Phrase → List Lexeme
  | .chain => []
  | .stepped | .primary => [.op "("]
  | _ => [.op "(", .op "-", .op "!"]

/-- Whether a phrase can begin with a token. -/
def Phrase.Begins (phrase : Phrase) (first : Token) : Prop :=
  first.kind ∈ phrase.leadingKinds ∨ first.toLexeme ∈ phrase.leadingLexemes

theorem Phrase.Begins.of_subset {phrase other : Phrase} {first : Token}
    (begins : phrase.Begins first) (kinds : phrase.leadingKinds ⊆ other.leadingKinds)
    (lexemes : phrase.leadingLexemes ⊆ other.leadingLexemes) : other.Begins first :=
  begins.imp (fun member => kinds member) (fun member => lexemes member)

/-- Whether a phrase may consist of no tokens at all. -/
def Phrase.MayBeEmpty : Phrase → Prop
  | .arguments | .furtherArguments => True
  | _ => False

/-- A phrase that cannot be empty has a first token with which it can begin. -/
theorem Derives.begins {phrase : Phrase} {used : List Token} {value : phrase.Tree}
    (derived : Derives phrase used value) :
    phrase.MayBeEmpty ∨ ∃ first rest, used = first :: rest ∧ phrase.Begins first := by
  induction derived with
  | operation _ inductionHypothesis
  | operand _ inductionHypothesis
  | innermost _ inductionHypothesis
  | unstepped _ inductionHypothesis => exact inductionHypothesis
  | unsigned _ inductionHypothesis
  | chained _ inductionHypothesis =>
      obtain ⟨first, rest, rfl, begins⟩ := inductionHypothesis.resolve_left id
      exact .inr ⟨first, rest, rfl, begins.of_subset (by decide) (by decide)⟩
  | assignment _ _ _ _ inductionHypothesis
  | joined _ _ _ _ inductionHypothesis
  | incremented _ _ inductionHypothesis
  | decremented _ _ inductionHypothesis
  | field _ _ _ _ inductionHypothesis
  | call _ _ _ _ inductionHypothesis =>
      obtain ⟨first, rest, rfl, begins⟩ := inductionHypothesis.resolve_left id
      exact .inr ⟨first, _, rfl, begins⟩
  | negated | inverted | parenthesized =>
      exact .inr ⟨_, _, rfl, .inr (by simp [Phrase.leadingLexemes])⟩
  | number | string | name => exact .inr ⟨_, _, rfl, .inl (by simp [Phrase.leadingKinds])⟩
  | noArguments | arguments | noFurtherArguments | furtherArguments => exact .inl trivial

/-- An expression has a first token. -/
theorem Derives.first {used : List Token} {node : Node} (derived : Derives .expression used node) :
    ∃ first rest, used = first :: rest ∧ Phrase.expression.Begins first :=
  derived.begins.resolve_left id

section Layer

variable (inner : Reader Node) (stop : Terminator)

/-- What the reader of a phrase makes of the tokens that derive it. The readers of
phrases that recur on the left also attach what their loop still finds behind. -/
def Taken : (phrase : Phrase) → List Token → phrase.Tree → Prop
  | .expression, used, node => ∀ rest, Phrase.expression.Ends rest →
      Reads (layer inner) stop (used ++ rest) node rest
  | .operation [], used, node => ∀ rest, (Phrase.operation []).Ends rest →
      Reads (unary inner) stop (used ++ rest) node rest
  | .operation (level :: levels), used, node => level :: levels <:+ Level.all →
      ∀ ahead tails rest, (Phrase.operation levels).Ends ahead →
        Exhausts (operation level (levels.foldr leveled (unary inner))) stop ahead tails rest →
        Reads ((level :: levels).foldr leveled (unary inner)) stop (used ++ ahead)
          (tails.foldl Tail.attach node) rest
  | .unary, used, node => ∀ rest, Phrase.unary.Ends rest →
      Reads (unary inner) stop (used ++ rest) node rest
  | .stepped, used, node => ∀ ahead ops rest, Phrase.primary.Ends ahead →
      splitRun stepOp? ahead = (ops, rest) →
      Reads (stepped inner) stop (used ++ ahead)
        (ops.foldl (fun node op => .step op.1 node op.2) node) rest
  | .primary, used, node => ∀ rest, Phrase.primary.Ends rest →
      Reads (primary inner) stop (used ++ rest) node rest
  | .chain, used, node => ∀ ahead selectors rest,
      Exhausts (selector inner) stop ahead selectors rest →
      Reads (chain inner) stop (used ++ ahead) (selectors.foldl Selector.attach node) rest
  | .arguments, used, args => ∀ rest, (Lexeme.op ")").Starts rest →
      Reads (arguments inner) stop (used ++ rest) args rest
  | .furtherArguments, used, args => ∀ rest, (Lexeme.op ")").Starts rest →
      Exhausts (furtherArgument inner) stop (used ++ rest) args rest

variable {inner stop}

/-- Operands joined by operators of the levels are read where they end. -/
theorem Taken.reads_operation {levels : List Level} {used rest : List Token} {node : Node}
    (taken : Taken inner stop (.operation levels) used node) (suffix : levels <:+ Level.all)
    (ends : (Phrase.operation levels).Ends rest) :
    Reads (levels.foldr leveled (unary inner)) stop (used ++ rest) node rest := by
  cases levels with
  | nil => exact taken rest ends
  | cons level levels =>
      have tighter : (Phrase.operation levels).Ends rest :=
        ends.of_subset (by simp [Phrase.marks, operationMarks])
      have declined : Reads (operation level (levels.foldr leveled (unary inner))) stop rest none
          rest := by
        refine reads_operation_none.mpr ⟨fun lexeme op joins => ends lexeme ?_, rfl⟩
        have member := List.mem_map_of_mem (f := Prod.fst) (mem_operators_iff.mpr joins)
        simp only [Phrase.marks, operationMarks, List.flatMap_cons, List.append_assoc]
        exact List.mem_append_left _ member
      exact taken suffix rest [] rest tighter (.done declined)

/-- A loop over the operators of a level attaches to the operand in front of it. -/
theorem reads_leveled {level : Level} {operand : Reader Node} {ahead middle rest : List Token}
    {first : Node} {tails : List Tail} (firstReads : Reads operand stop ahead first middle)
    (exhausts : Exhausts (operation level operand) stop middle tails rest) :
    Reads (leveled level operand) stop ahead (tails.foldl Tail.attach first) rest := 
  reads_bind.mpr ⟨_, _, firstReads, reads_bind.mpr ⟨_, _, exhausts.reads_repeated, 
    reads_pure.mpr ⟨rfl, rfl⟩⟩⟩

theorem Taken.operand {level : Level} {levels : List Level} {used : List Token} {node : Node}
    (single : Taken inner stop (.operation levels) used node) :
    Taken inner stop (.operation (level :: levels)) used node := by
  intro suffix ahead tails rest ends exhausts
  have tighter : levels <:+ Level.all := (List.suffix_cons level levels).trans suffix
  exact reads_leveled (single.reads_operation tighter ends) exhausts

theorem Taken.joined {level : Level} {levels : List Level} {left right : List Token}
    {lexeme : Lexeme} {op : BinaryOp} {front back : Node} (sign : Location)
    (joins : Joins level lexeme op)
    (leaning : Taken inner stop (.operation (level :: levels)) left front)
    (last : Taken inner stop (.operation levels) right back) :
    Taken inner stop (.operation (level :: levels)) (left ++ lexeme.token sign :: right)
      (.binary op front back sign) := by
  intro suffix ahead tails rest ends exhausts
  have tighter : levels <:+ Level.all := (List.suffix_cons level levels).trans suffix
  have first : Reads (operation level (levels.foldr leveled (unary inner))) stop
      (lexeme.token sign :: right ++ ahead) (some ⟨op, sign, back⟩) ahead :=
    reads_operation_some.mpr ⟨lexeme, _, rfl, joins, last.reads_operation tighter ends⟩
  have attached := leaning suffix _ _ rest (ends_of_joins suffix joins sign (right ++ ahead))
    (.more first (by simp only [List.length_append, List.length_cons]; omega) exhausts)
  simpa [Tail.attach] using attached

theorem Taken.operation {used : List Token} {node : Node}
    (whole : Taken inner stop (.operation Level.all) used node) :
    Taken inner stop .expression used node := by
  intro rest ends
  have operand : (Phrase.operation Level.all).Ends rest :=
    ends.of_subset (List.subset_cons_self _ _)
  refine reads_layer.mpr (.inl ⟨whole.reads_operation (List.suffix_refl _) operand, ?_⟩)
  exact ends _ (List.mem_cons_self ..)

theorem Taken.assignment {left right : List Token} {target value : Node} (sign : Location)
    (assigned : Taken inner stop (.operation Level.all) left target)
    (assignable : Assignable target)
    (given : ∀ rest, Phrase.expression.Ends rest → Reads inner stop (right ++ rest) value rest) :
    Taken inner stop .expression (left ++ (Lexeme.op "=").token sign :: right)
      (.assignment target value sign) := by
  intro rest ends
  have operand : (Phrase.operation Level.all).Ends
      ((Lexeme.op "=").token sign :: (right ++ rest)) := Phrase.ends_token (by decide)
  have front := assigned.reads_operation (List.suffix_refl _) operand
  refine reads_layer.mpr (.inr ⟨target, sign, right ++ rest, value, ?_, assignable,
    given rest ends, rfl⟩)
  simpa using! front

theorem Taken.signed {used : List Token} {node : Node} (op : UnaryOp) (sign : Location)
    (operand : Taken inner stop .unary used node) :
    Taken inner stop .unary ((Lexeme.op op.symbol).token sign :: used) (.unary op node sign) := by
  intro rest ends
  have reads := operand rest ends
  simp only [Grammar.unary, reads_bind, reads_run, reads_pure] at reads ⊢
  obtain ⟨ops, middle, run, single, _, stepped, rfl, rfl⟩ := reads
  refine ⟨(op, sign) :: ops, middle, ?_, single, rest, stepped, rfl, rfl⟩
  have classified := unaryOp_eq_some_iff.mpr (rfl : (Lexeme.op op.symbol).token sign = _)
  simp only [List.cons_append, splitRun, classified, run]

theorem Taken.stepped {used : List Token} {node : Node} (op : StepOp) (sign : Location)
    (operand : Taken inner stop .stepped used node) :
    Taken inner stop .stepped (used ++ [(Lexeme.op op.symbol).token sign])
      (.step op node sign) := by
  intro ahead ops rest ends run
  have classified := stepOp_eq_some_iff.mpr (rfl : (Lexeme.op op.symbol).token sign = _)
  have longer : splitRun stepOp? ((Lexeme.op op.symbol).token sign :: ahead)
      = ((op, sign) :: ops, rest) := by
    simp only [splitRun, classified, run]
  have apart : Phrase.primary.Ends ((Lexeme.op op.symbol).token sign :: ahead) := by
    exact Phrase.ends_token (by cases op <;> decide)
  simpa using operand _ _ rest apart longer

theorem Taken.unstepped {used : List Token} {node : Node}
    (single : Taken inner stop .primary used node) : Taken inner stop .stepped used node := by
  intro ahead ops rest ends run
  exact reads_bind.mpr ⟨_, _, single ahead ends, reads_bind.mpr ⟨ops, rest, reads_run.mpr run,
    reads_pure.mpr ⟨rfl, rfl⟩⟩⟩

/-- No operator stands behind an operand that has ended. -/
theorem splitRun_stepOp_of_ends {rest : List Token} (ends : Phrase.unary.Ends rest) :
    splitRun stepOp? rest = ([], rest) := by
  cases rest with
  | nil => rfl
  | cons first rest =>
      have unmarked := Phrase.ends_cons.mp ends
      have classified : stepOp? first = none := by
        simp only [Phrase.marks, operandMarks, List.mem_cons, not_or] at unmarked
        simp [stepOp?, unmarked]
      simp only [splitRun, classified]

theorem Taken.unsigned {used : List Token} {node : Node} (derived : Derives .stepped used node)
    (single : Taken inner stop .stepped used node) : Taken inner stop .unary used node := by
  intro rest ends
  obtain ⟨first, tail, rfl, begins⟩ := derived.begins.resolve_left id
  have classified : unaryOp? first = none := by
    have neither : first.toLexeme ≠ .op "-" ∧ first.toLexeme ≠ .op "!" := by
      constructor <;> rintro equal <;> obtain kind | lexeme := begins
      all_goals simp_all [Phrase.leadingKinds, Phrase.leadingLexemes, Lexeme.op]
    simp [unaryOp?, neither]
  have unsigned : splitRun unaryOp? (first :: tail ++ rest) = ([], first :: tail ++ rest) := by
    simp only [List.cons_append, splitRun, classified]
  have apart : Phrase.primary.Ends rest :=
    ends.of_subset (by simp [Phrase.marks, operandMarks])
  have reads := single rest [] rest apart (splitRun_stepOp_of_ends ends)
  exact reads_bind.mpr ⟨[], _, reads_run.mpr unsigned, reads_bind.mpr ⟨node, rest, reads,
    reads_pure.mpr ⟨rfl, rfl⟩⟩⟩

theorem Taken.chained {used : List Token} {node : Node} (derived : Derives .chain used node)
    (single : Taken inner stop .chain used node) : Taken inner stop .primary used node := by
  intro rest ends
  obtain ⟨first, tail, rfl, begins⟩ := derived.begins.resolve_left id
  have named : first.kind = .identifier := by
    simpa [Phrase.Begins, Phrase.leadingKinds, Phrase.leadingLexemes] using begins
  have declined : Reads (selector inner) stop rest none rest :=
    reads_selector_none.mpr ⟨ends _ (by decide), ends _ (by decide), rfl⟩
  exact reads_primary.mpr (.inr (.inr (.inl ⟨named, single rest [] rest (.done declined)⟩)))

theorem Taken.parenthesized {used : List Token} {node : Node} (opening closing : Location)
    (inside : ∀ rest, Phrase.expression.Ends rest → Reads inner stop (used ++ rest) node rest) :
    Taken inner stop .primary
      ((Lexeme.op "(").token opening :: (used ++ [(Lexeme.op ")").token closing])) node := by
  intro rest _
  refine reads_primary.mpr (.inr (.inr (.inr ⟨rfl, closing, ?_⟩)))
  simpa using inside ((Lexeme.op ")").token closing :: rest) (Phrase.ends_token (by decide))

theorem Taken.name (text : String) (location : Location) :
    Taken inner stop .chain [(Lexeme.name text).token location] (.reference text location) := by
  intro ahead selectors rest exhausts
  exact reads_chain.mpr ⟨selectors, exhausts.reads_repeated, rfl⟩

theorem Taken.field {used : List Token} {object : Node} (point : Location) (name : String)
    (location : Location) (base : Taken inner stop .chain used object) :
    Taken inner stop .chain
      (used ++ [(Lexeme.op ".").token point, (Lexeme.name name).token location])
      (.field object name point) := by
  intro ahead selectors rest exhausts
  have first : Reads (selector inner) stop
      ((Lexeme.op ".").token point :: (Lexeme.name name).token location :: ahead)
      (some (.field name point)) ahead :=
    reads_selector_field.mpr ⟨location, rfl⟩
  have attached := base _ _ rest (.more first (by simp only [List.length_cons]; omega) exhausts)
  simpa [Selector.attach] using attached

theorem Taken.call {used inside : List Token} {callee : Node} {args : List Node}
    (opening closing : Location) (base : Taken inner stop .chain used callee)
    (given : Taken inner stop .arguments inside args) :
    Taken inner stop .chain (used ++
      (Lexeme.op "(").token opening :: (inside ++ [(Lexeme.op ")").token closing]))
      (.call callee args opening) := by
  intro ahead selectors rest exhausts
  have first : Reads (selector inner) stop
      ((Lexeme.op "(").token opening :: (inside ++ (Lexeme.op ")").token closing :: ahead))
      (some (.call args opening)) ahead :=
    reads_selector_call.mpr ⟨_, closing, rfl, given _ ⟨closing, ahead, rfl⟩⟩
  have shorter : ahead.length <
      ((Lexeme.op "(").token opening ::
        (inside ++ (Lexeme.op ")").token closing :: ahead)).length := by
    simp only [List.length_append, List.length_cons]
    omega
  have attached := base _ _ rest (.more first shorter exhausts)
  simpa [Selector.attach] using attached

theorem Taken.noArguments : Taken inner stop .arguments [] [] := by
  intro rest closes
  exact reads_arguments.mpr (.inr ⟨closes, rfl, rfl⟩)

theorem Taken.noFurtherArguments : Taken inner stop .furtherArguments [] [] := by
  rintro rest ⟨closing, rest, rfl⟩
  exact .done (reads_furtherArgument_none.mpr ⟨by simp, rfl⟩)

/-- A list of further arguments goes on with a comma or is closed. -/
theorem ends_of_furtherArguments {further rest : List Token} {args : List Node}
    (derived : Derives .furtherArguments further args) (closes : (Lexeme.op ")").Starts rest) :
    Phrase.expression.Ends (further ++ rest) := by
  cases derived with
  | noFurtherArguments =>
      obtain ⟨closing, rest, rfl⟩ := closes
      exact Phrase.ends_token (by decide)
  | furtherArguments comma => exact Phrase.ends_token (by decide)

theorem Taken.arguments {used further : List Token} {arg : Node} {args : List Node}
    (derived : Derives .expression used arg)
    (first : ∀ rest, Phrase.expression.Ends rest → Reads inner stop (used ++ rest) arg rest)
    (others : Derives .furtherArguments further args)
    (given : Taken inner stop .furtherArguments further args) :
    Taken inner stop .arguments (used ++ further) (arg :: args) := by
  intro rest closes
  have unclosed : ¬ (Lexeme.op ")").Starts (used ++ further ++ rest) := by
    obtain ⟨first, tail, rfl, kind | lexeme⟩ := derived.first <;>
      rintro equal <;> simp_all [Phrase.leadingKinds, Phrase.leadingLexemes, Lexeme.op]
  have head := first (further ++ rest) (ends_of_furtherArguments others closes)
  rw [← List.append_assoc] at head
  exact reads_arguments.mpr (.inl ⟨unclosed, arg, _, head, args, (given rest closes).reads_repeated,
    rfl⟩)

theorem Taken.furtherArguments {used further : List Token} {arg : Node} {args : List Node}
    (comma : Location)
    (next : ∀ rest, Phrase.expression.Ends rest → Reads inner stop (used ++ rest) arg rest)
    (others : Derives .furtherArguments further args)
    (given : Taken inner stop .furtherArguments further args) :
    Taken inner stop .furtherArguments ((Lexeme.op ",").token comma :: (used ++ further))
      (arg :: args) := by
  intro rest closes
  have head := next (further ++ rest) (ends_of_furtherArguments others closes)
  have first : Reads (furtherArgument inner) stop
      ((Lexeme.op ",").token comma :: (used ++ further ++ rest)) (some arg) (further ++ rest) :=
    reads_furtherArgument_some.mpr ⟨comma, _, rfl, by simpa using head⟩
  exact .more first (by simp only [List.length_append, List.length_cons]; omega) (given rest closes)

/-- How many tokens stand around a phrase at least. -/
def Phrase.surroundings : Phrase → Nat
  | .arguments | .furtherArguments => 1
  | _ => 0

/-- Tokens that derive a phrase are taken by its reader, if those of fewer tokens
that derive an expression are taken by the reader of inner expressions. -/
theorem Derives.taken {phrase : Phrase} {used : List Token} {value : phrase.Tree} {bound : Nat}
    (complete : ∀ used node, used.length < bound → Derives .expression used node →
      ∀ rest, Phrase.expression.Ends rest → Reads inner stop (used ++ rest) node rest)
    (derived : Derives phrase used value) (bounded : used.length + phrase.surroundings ≤ bound) :
    Taken inner stop phrase used value := by
  induction derived with
  | operation _ whole => exact .operation (whole bounded)
  | @assignment left right _ _ sign _ assignable given assigned _ =>
      simp only [Phrase.surroundings, List.length_append, List.length_cons] at bounded assigned
      exact .assignment sign (assigned (by omega)) assignable (complete right _ (by omega) given)
  | operand _ single => exact .operand (single bounded)
  | joined sign joins _ _ leaning last =>
      simp only [Phrase.surroundings, List.length_append, List.length_cons] at bounded leaning last
      exact .joined sign joins (leaning (by omega)) (last (by omega))
  | innermost _ single => exact single bounded
  | negated sign _ operand =>
      exact .signed .negate sign (operand (Nat.le_of_succ_le bounded))
  | inverted sign _ operand =>
      exact .signed .invert sign (operand (Nat.le_of_succ_le bounded))
  | unsigned derived single => exact .unsigned derived (single bounded)
  | incremented sign _ operand =>
      simp only [Phrase.surroundings, List.length_append, List.length_cons] at bounded operand
      exact .stepped .increment sign (operand (by omega))
  | decremented sign _ operand =>
      simp only [Phrase.surroundings, List.length_append, List.length_cons] at bounded operand
      exact .stepped .decrement sign (operand (by omega))
  | unstepped _ single => exact .unstepped (single bounded)
  | number digits location =>
      exact fun rest _ => reads_primary.mpr (.inl ⟨rfl, rfl, rfl⟩)
  | string body location =>
      exact fun rest _ => reads_primary.mpr (.inr (.inl ⟨rfl, rfl, rfl⟩))
  | @parenthesized used _ opening closing inside _ =>
      simp only [Phrase.surroundings, List.length_append, List.length_cons] at bounded
      exact .parenthesized opening closing (complete used _ (by omega) inside)
  | chained derived single => exact .chained derived (single bounded)
  | name text location => exact .name text location
  | field point name location _ base =>
      simp only [Phrase.surroundings, List.length_append, List.length_cons] at bounded base
      exact .field point name location (base (by omega))
  | call opening closing _ _ base given =>
      simp only [Phrase.surroundings, List.length_append, List.length_cons, List.length_nil]
        at bounded base given
      exact .call opening closing (base (by omega)) (given (by omega))
  | noArguments => exact .noArguments
  | @arguments used _ _ _ derived others _ given =>
      simp only [Phrase.surroundings, List.length_append] at bounded given
      exact .arguments derived (complete used _ (by omega) derived) others (given (by omega))
  | noFurtherArguments => exact .noFurtherArguments
  | @furtherArguments used _ _ _ comma derived others _ given =>
      simp only [Phrase.surroundings, List.length_append, List.length_cons] at bounded given
      exact .furtherArguments comma (complete used _ (by omega) derived) others (given (by omega))

end Layer

/-- Expressions of at most as many tokens as nestings are allowed are read. -/
theorem reads_expressionWithin {stop : Terminator} {tokens : Nat} {used rest : List Token}
    {node : Node} (derived : Derives .expression used node) (bounded : used.length ≤ tokens)
    (ends : Phrase.expression.Ends rest) :
    Reads (expressionWithin tokens) stop (used ++ rest) node rest := by
  induction tokens generalizing used rest node with
  | zero =>
      obtain ⟨first, tail, rfl, _⟩ := derived.first
      simp at bounded
  | succ tokens inductionHypothesis =>
      have complete : ∀ used node, used.length < tokens + 1 → Derives .expression used node →
          ∀ rest, Phrase.expression.Ends rest →
            Reads (expressionWithin tokens) stop (used ++ rest) node rest :=
        fun used node shorter derived rest ends =>
          inductionHypothesis derived (Nat.le_of_lt_succ shorter) ends
      exact derived.taken complete bounded rest ends

/-- Every expression is read by `expression` where it ends. -/
theorem reads_expression {stop : Terminator} {used rest : List Token} {node : Node}
    (derived : Derives .expression used node) (ends : Phrase.expression.Ends rest) :
    Reads expression stop (used ++ rest) node rest :=
  reads_bind.mpr ⟨_, _, reads_remaining.mpr ⟨rfl, rfl⟩,
    reads_expressionWithin derived (by simp) ends⟩

end BraceLang.Grammar
