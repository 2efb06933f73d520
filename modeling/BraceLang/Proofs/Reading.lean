import Mathlib.Tactic.Simproc.ExistsAndEq
import BraceLang.Grammar.Program

/-!
# Successful readings

`Reads` says that a reader hands over a value and leaves the rest of the tokens
ahead. Each primitive gets one equivalence which turns its success into a shape
of the tokens ahead, and sequencing splits a success into successes of the parts.
Both what a reader accepts and what it has to accept follow from the same
equivalences; no later proof opens a primitive.
-/

namespace BraceLang

namespace Lexeme

/-- The token of a lexeme at a place. -/
def token (lexeme : Lexeme) (location : Location) : Token := ⟨lexeme, location⟩

@[simp] theorem token_toLexeme (lexeme : Lexeme) (location : Location) :
    (lexeme.token location).toLexeme = lexeme := rfl

@[simp] theorem token_kind (lexeme : Lexeme) (location : Location) :
    (lexeme.token location).kind = lexeme.kind := rfl

@[simp] theorem token_text (lexeme : Lexeme) (location : Location) :
    (lexeme.token location).text = lexeme.text := rfl

@[simp] theorem token_location (lexeme : Lexeme) (location : Location) :
    (lexeme.token location).location = location := rfl

/-- The lexeme of a name. -/
def name (text : String) : Lexeme := ⟨.identifier, text⟩

/-- The lexeme of a data type. -/
def type (text : String) : Lexeme := ⟨.dataType, text⟩

@[simp] theorem name_text (text : String) : (name text).text = text := rfl

@[simp] theorem type_text (text : String) : (type text).text = text := rfl

@[simp] theorem name_kind (text : String) : (name text).kind = .identifier := rfl

@[simp] theorem type_kind (text : String) : (type text).kind = .dataType := rfl

@[simp] theorem op_inj (text other : String) : op text = op other ↔ text = other := by
  simp [op]

theorem ne_of_kind {lexeme other : Lexeme} (differ : lexeme.kind ≠ other.kind) : lexeme ≠ other :=
  mt (congrArg Lexeme.kind) differ

@[simp] theorem keyword_inj (text other : String) :
    keyword text = keyword other ↔ text = other := by
  simp [keyword]

/-- Whether the tokens ahead begin with a lexeme. -/
def Starts (lexeme : Lexeme) (ahead : List Token) : Prop :=
  ∃ location rest, ahead = lexeme.token location :: rest

@[simp] theorem not_starts_nil (lexeme : Lexeme) : ¬ lexeme.Starts [] := by
  simp [Starts]

@[simp] theorem starts_cons (lexeme : Lexeme) (first : Token) (rest : List Token) :
    lexeme.Starts (first :: rest) ↔ first.toLexeme = lexeme := by
  constructor
  · rintro ⟨location, tail, equal⟩
    rw [(List.cons.inj equal).1, token_toLexeme]
  · rintro rfl
    exact ⟨first.location, rest, rfl⟩

end Lexeme

/-- A token has a lexeme exactly when it is that lexeme at some place. -/
theorem Token.toLexeme_eq_iff (token : Token) (lexeme : Lexeme) :
    token.toLexeme = lexeme ↔ ∃ location, token = lexeme.token location := by
  constructor
  · rintro rfl
    exact ⟨token.location, rfl⟩
  · rintro ⟨location, rfl⟩
    rfl

@[simp] theorem Token.is_iff (token : Token) (lexeme : Lexeme) :
    token.is lexeme = true ↔ token.toLexeme = lexeme := by
  simp [Token.is]

@[simp] theorem Token.is_eq_false_iff (token : Token) (lexeme : Lexeme) :
    token.is lexeme = false ↔ token.toLexeme ≠ lexeme := by
  simp [Token.is]

namespace Wanted

@[simp] theorem admits_openParen (token : Token) :
    openParen.admits token = true ↔ ∃ location, token = (Lexeme.op "(").token location := by
  rw [← Token.toLexeme_eq_iff, ← Token.is_iff]
  rfl

@[simp] theorem admits_closeParen (token : Token) :
    closeParen.admits token = true ↔ ∃ location, token = (Lexeme.op ")").token location := by
  rw [← Token.toLexeme_eq_iff, ← Token.is_iff]
  rfl

@[simp] theorem admits_openBrace (token : Token) :
    openBrace.admits token = true ↔ ∃ location, token = (Lexeme.op "\x7b").token location := by
  rw [← Token.toLexeme_eq_iff, ← Token.is_iff]
  rfl

@[simp] theorem admits_closeBrace (token : Token) :
    closeBrace.admits token = true ↔ ∃ location, token = (Lexeme.op "\x7d").token location := by
  rw [← Token.toLexeme_eq_iff, ← Token.is_iff]
  rfl

@[simp] theorem admits_semicolon (token : Token) :
    semicolon.admits token = true ↔ ∃ location, token = Lexeme.semicolon.token location := by
  rw [← Token.toLexeme_eq_iff, ← Token.is_iff]
  rfl

@[simp] theorem admits_identifier (token : Token) :
    identifier.admits token = true ↔
      ∃ text location, token = (Lexeme.name text).token location := by
  obtain ⟨⟨kind, text⟩, location⟩ := token
  simp [admits, Lexeme.name, Lexeme.token]

@[simp] theorem admits_dataType (token : Token) :
    dataType.admits token = true ↔
      ∃ text location, token = (Lexeme.type text).token location := by
  obtain ⟨⟨kind, text⟩, location⟩ := token
  simp [admits, Lexeme.type, Lexeme.token]

end Wanted

namespace Reader

variable {α β : Type} {stop : Terminator} {ahead rest : List Token}

/-- A reader hands over `value` and leaves `rest` of the tokens ahead. -/
def Reads (reader : Reader α) (stop : Terminator) (ahead : List Token) (value : α)
    (rest : List Token) : Prop :=
  reader stop ahead = .ok (value, rest)

@[simp] theorem reads_pure {value result : α} :
    Reads (pure value) stop ahead result rest ↔ result = value ∧ rest = ahead := by
  simp [Reads, pure, eq_comm]

@[simp] theorem reads_bind {reader : Reader α} {next : α → Reader β} {result : β} :
    Reads (reader >>= next) stop ahead result rest ↔
      ∃ value middle, Reads reader stop ahead value middle ∧
        Reads (next value) stop middle result rest := by
  simp only [Reads, bind]
  cases reader stop ahead with
  | error failure => simp
  | ok pair =>
    obtain ⟨value, middle⟩ := pair
    simp [and_assoc]

@[simp] theorem reads_ite {condition : Prop} [Decidable condition] {yes no : Reader α}
    {value : α} :
    Reads (if condition then yes else no) stop ahead value rest ↔
      condition ∧ Reads yes stop ahead value rest ∨
        ¬ condition ∧ Reads no stop ahead value rest := by
  by_cases holds : condition <;> simp [holds]

@[simp] theorem reads_peek {token : Token} :
    Reads peek stop ahead token rest ↔ token = ahead.headD stop.token ∧ rest = ahead := by
  simp [Reads, peek, eq_comm]

@[simp] theorem reads_skip {value : Unit} :
    Reads skip stop ahead value rest ↔ rest = ahead.tail := by
  simp [Reads, skip, eq_comm]

@[simp] theorem reads_next {token : Token} :
    Reads next stop ahead token rest ↔ token = ahead.headD stop.token ∧ rest = ahead.tail := by
  simp [next, and_assoc]

@[simp] theorem reads_remaining {count : Nat} :
    Reads remaining stop ahead count rest ↔ count = ahead.length ∧ rest = ahead := by
  simp [Reads, remaining, eq_comm]

@[simp] theorem reads_atEnd_true :
    Reads atEnd stop ahead true rest ↔ ahead = [] ∧ rest = ahead := by
  simp only [Reads, atEnd, Except.ok.injEq, Prod.mk.injEq, List.isEmpty_iff]
  exact and_congr_right' eq_comm

@[simp] theorem reads_atEnd_false :
    Reads atEnd stop ahead false rest ↔ ahead ≠ [] ∧ rest = ahead := by
  simp only [Reads, atEnd, Except.ok.injEq, Prod.mk.injEq, List.isEmpty_eq_false_iff]
  exact and_congr_right' eq_comm

@[simp] theorem reads_at_true {lexeme : Lexeme} :
    Reads (at? lexeme) stop ahead true rest ↔ lexeme.Starts ahead ∧ rest = ahead := by
  simp only [Reads, at?, Except.ok.injEq, Prod.mk.injEq]
  refine and_congr ?_ eq_comm
  cases ahead <;> simp

@[simp] theorem reads_at_false {lexeme : Lexeme} :
    Reads (at? lexeme) stop ahead false rest ↔ ¬ lexeme.Starts ahead ∧ rest = ahead := by
  simp only [Reads, at?, Except.ok.injEq, Prod.mk.injEq]
  refine and_congr ?_ eq_comm
  cases ahead <;> simp [Token.is]

/-- What looking ahead answers; it leaves the tokens ahead as they are. -/
theorem reads_sees {distance : Nat} {test : Token → Bool} {answer : Bool} :
    Reads (sees distance test) stop ahead answer rest ↔
      answer = (ahead[distance]? <|>
        (stop.token :: stop.beyond)[distance - ahead.length]?).any test ∧ rest = ahead := by
  simp [Reads, sees, eq_comm]

@[simp] theorem reads_take_some {classify : Token → Option α} {value : α} :
    Reads (take? classify) stop ahead (some value) rest ↔
      ∃ token, ahead = token :: rest ∧ classify token = some value := by
  cases ahead with
  | nil => simp [Reads, take?]
  | cons token tail =>
    cases classified : classify token with
    | none => simp [Reads, take?, classified]
    | some found => simp [Reads, take?, classified, and_assoc, and_comm]

@[simp] theorem reads_take_none {classify : Token → Option α} :
    Reads (take? classify) stop ahead none rest ↔
      (∀ token, ahead.head? = some token → classify token = none) ∧ rest = ahead := by
  cases ahead with
  | nil => simp [Reads, take?, eq_comm]
  | cons token tail =>
    cases classified : classify token with
    | none => simp [Reads, take?, classified, eq_comm]
    | some found => simp [Reads, take?, classified]

@[simp] theorem reads_accept_some {lexeme : Lexeme} {location : Location} :
    Reads (accept lexeme) stop ahead (some location) rest ↔
      ahead = lexeme.token location :: rest := by
  simp only [accept, reads_take_some, Option.ite_none_right_eq_some, Token.is_iff,
    Option.some.injEq]
  constructor
  · rintro ⟨token, rfl, rfl, rfl⟩
    rfl
  · rintro rfl
    exact ⟨_, rfl, rfl, rfl⟩

@[simp] theorem reads_accept_none {lexeme : Lexeme} :
    Reads (accept lexeme) stop ahead none rest ↔ ¬ lexeme.Starts ahead ∧ rest = ahead := by
  cases ahead <;> simp [accept]

@[simp] theorem not_reads_refuse {cause : Lexeme → Cause} {value : α} :
    ¬ Reads (refuse cause) stop ahead value rest := by
  simp [Reads, refuse]

@[simp] theorem reads_expect {wanted : Wanted} {position : Position} {token : Token} :
    Reads (expect wanted position) stop ahead token rest ↔
      ahead = token :: rest ∧ wanted.admits token = true := by
  simp only [expect, reads_bind, Option.exists, reads_take_some, not_reads_refuse, and_false,
    exists_false, false_or, reads_pure, Option.ite_none_right_eq_some, Option.some.injEq]
  constructor
  · rintro ⟨_, _, ⟨_, rfl, admitted, rfl⟩, rfl, rfl⟩
    exact ⟨rfl, admitted⟩
  · rintro ⟨rfl, admitted⟩
    exact ⟨token, rest, ⟨token, rfl, admitted, rfl⟩, rfl, rfl⟩

@[simp] theorem reads_run {classify : Token → Option α} {values : List α} :
    Reads (run classify) stop ahead values rest ↔ splitRun classify ahead = (values, rest) := by
  simp [Reads, run]

/-- Values that an item hands over one after another. -/
inductive Runs (item : Reader (Option α)) (stop : Terminator) :
    List Token → List α → List Token → Prop where
  | nil {ahead : List Token} : Runs item stop ahead [] ahead
  | cons {ahead middle rest : List Token} {value : α} {values : List α}
      (first : Reads item stop ahead (some value) middle)
      (further : Runs item stop middle values rest) :
      Runs item stop ahead (value :: values) rest

/-- What is collected was handed over one after another. -/
theorem Runs.of_collect {item : Reader (Option α)} {rounds : Nat} {values : List α}
    (declines : ∀ {ahead rest}, Reads item stop ahead none rest → rest = ahead)
    (reads : Reads (collect item rounds) stop ahead values rest) :
    Runs item stop ahead values rest := by
  induction rounds generalizing ahead values with
  | zero =>
      obtain ⟨rfl, rfl⟩ := reads_pure.mp reads
      exact .nil
  | succ rounds inductionHypothesis =>
      simp only [collect, reads_bind, Option.exists, reads_pure] at reads
      obtain ⟨_, declined, rfl, rfl⟩ | ⟨value, middle, first, values, _, further, rfl, rfl⟩ := reads
      · rw [declines declined]
        exact .nil
      · exact .cons first (inductionHypothesis further)

/-- Values that an item hands over, each taking a token, up to where it declines. -/
inductive Exhausts (item : Reader (Option α)) (stop : Terminator) :
    List Token → List α → List Token → Prop where
  | done {ahead : List Token} (declined : Reads item stop ahead none ahead) :
      Exhausts item stop ahead [] ahead
  | more {ahead middle rest : List Token} {value : α} {values : List α}
      (first : Reads item stop ahead (some value) middle) (shorter : middle.length < ahead.length)
      (further : Exhausts item stop middle values rest) :
      Exhausts item stop ahead (value :: values) rest

/-- As many rounds as tokens are ahead are enough to collect every value. -/
theorem Exhausts.reads_collect {item : Reader (Option α)} {rounds : Nat} {values : List α}
    (exhausts : Exhausts item stop ahead values rest) (enough : ahead.length ≤ rounds) :
    Reads (collect item rounds) stop ahead values rest := by
  induction exhausts generalizing rounds with
  | done declined =>
      cases rounds with
      | zero => simp [collect]
      | succ rounds => exact reads_bind.mpr ⟨_, _, declined, reads_pure.mpr ⟨rfl, rfl⟩⟩
  | more first shorter further inductionHypothesis =>
      obtain _ | rounds := rounds
      · omega
      · have fewer : _ ≤ rounds := Nat.le_of_lt_succ (Nat.lt_of_lt_of_le shorter enough)
        have collected := inductionHypothesis fewer
        exact reads_bind.mpr ⟨_, _, first,
          reads_bind.mpr ⟨_, _, collected, reads_pure.mpr ⟨rfl, rfl⟩⟩⟩

theorem Exhausts.reads_repeated {item : Reader (Option α)} {values : List α}
    (exhausts : Exhausts item stop ahead values rest) :
    Reads (repeated item) stop ahead values rest :=
  reads_bind.mpr ⟨_, _, reads_remaining.mpr ⟨rfl, rfl⟩, exhausts.reads_collect (Nat.le_refl _)⟩

end Reader

namespace Scripted

variable {α β : Type} {stop : Terminator} {ahead rest : List Token} {script : List Step}

/-- A scripted reader hands over `value`, leaves `rest` and has written `script`. -/
def Reads (reader : Scripted α) (stop : Terminator) (ahead : List Token)
    (script : List Step) (value : α) (rest : List Token) : Prop :=
  reader stop ahead = ⟨script, .ok (value, rest)⟩

@[simp] theorem reads_pure {value result : α} :
    Reads (pure value) stop ahead script result rest ↔
      script = [] ∧ result = value ∧ rest = ahead := by
  simp [Reads, pure, eq_comm]

@[simp] theorem reads_bind {reader : Scripted α} {next : α → Scripted β} {result : β} :
    Reads (reader >>= next) stop ahead script result rest ↔
      ∃ front value middle, Reads reader stop ahead front value middle ∧
        ∃ back, Reads (next value) stop middle back result rest ∧ script = front ++ back := by
  simp only [Reads, bind]
  obtain ⟨front, failure | ⟨value, middle⟩⟩ := reader stop ahead
  · simp
  · simp only [Outcome.mk.injEq, Except.ok.injEq, Prod.mk.injEq, and_assoc, exists_and_left,
      exists_eq_left']
    generalize next value stop middle = second
    obtain ⟨back, outcome⟩ := second
    constructor
    · rintro ⟨rfl, rfl⟩
      exact ⟨back, rfl, rfl⟩
    · rintro ⟨_, equal, rfl⟩
      obtain ⟨rfl, rfl⟩ := Outcome.mk.inj equal
      exact ⟨rfl, rfl⟩

@[simp] theorem reads_map {reader : Scripted α} {change : α → β} {result : β} :
    Reads (change <$> reader) stop ahead script result rest ↔
      ∃ value, Reads reader stop ahead script value rest ∧ result = change value := by
  have unfolded : change <$> reader = reader >>= fun value => pure (change value) := rfl
  simp only [unfolded, reads_bind, reads_pure]
  constructor
  · rintro ⟨front, value, middle, reads, _, ⟨rfl, rfl, rfl⟩, rfl⟩
    exact ⟨value, by simpa using reads, rfl⟩
  · rintro ⟨value, reads, rfl⟩
    exact ⟨script, value, rest, reads, [], ⟨rfl, rfl, rfl⟩, by simp⟩

@[simp] theorem reads_ite {condition : Prop} [Decidable condition] {yes no : Scripted α}
    {value : α} :
    Reads (if condition then yes else no) stop ahead script value rest ↔
      condition ∧ Reads yes stop ahead script value rest ∨
        ¬ condition ∧ Reads no stop ahead script value rest := by
  by_cases holds : condition <;> simp [holds]

/-- Reading without a script is reading with an empty one. -/
@[simp] theorem reads_lift {reader : Reader α} {value : α} :
    Reads (liftM reader) stop ahead script value rest ↔
      script = [] ∧ reader.Reads stop ahead value rest := by
  simp [Reads, Reader.Reads, liftM, monadLift, MonadLift.monadLift, eq_comm]

@[simp] theorem reads_emit {step : Step} {value : Unit} :
    Reads (emit step) stop ahead script value rest ↔ script = [step] ∧ rest = ahead := by
  simp [Reads, emit, eq_comm]

@[simp] theorem reads_onFailure {reader : Scripted α} {steps : List Step} {value : α} :
    Reads (reader.onFailure steps) stop ahead script value rest ↔
      Reads reader stop ahead script value rest := by
  simp only [Reads, onFailure]
  obtain ⟨front, failure | ⟨value, middle⟩⟩ := reader stop ahead <;> simp

@[simp] theorem reads_within {kind : ScopeKind} {parts : Scripted α} {value : α} :
    Reads (within kind parts) stop ahead script value rest ↔
      ∃ inside, Reads parts stop ahead inside value rest ∧
        script = .enter kind :: inside ++ [.leave] := by
  simp only [within, reads_bind, reads_emit, reads_onFailure, reads_pure]
  constructor
  · rintro ⟨_, _, _, ⟨rfl, rfl⟩, _, ⟨inside, _, _, reads, _, ⟨_, _, _, ⟨rfl, rfl⟩, _,
      ⟨rfl, rfl, rfl⟩, rfl⟩, rfl⟩, rfl⟩
    exact ⟨inside, reads, by simp⟩
  · rintro ⟨inside, reads, rfl⟩
    exact ⟨[.enter kind], (), ahead, ⟨rfl, rfl⟩, inside ++ [.leave],
      ⟨inside, value, rest, reads, [.leave], ⟨[.leave], (), rest, ⟨rfl, rfl⟩, [],
        ⟨rfl, rfl, rfl⟩, rfl⟩, rfl⟩, rfl⟩

/-- Values that an item hands over one after another, with the scripts of all in turn. -/
inductive Runs (item : Scripted (Option α)) (stop : Terminator) :
    List Token → List Step → List α → List Token → Prop where
  | nil {ahead : List Token} : Runs item stop ahead [] [] ahead
  | cons {ahead middle rest : List Token} {front back : List Step} {value : α} {values : List α}
      (first : Reads item stop ahead front (some value) middle)
      (further : Runs item stop middle back values rest) :
      Runs item stop ahead (front ++ back) (value :: values) rest

/-- What is collected was handed over one after another, and collecting ended
because the rounds did or because the item declined. -/
theorem Runs.of_collect {item : Scripted (Option α)} {rounds : Nat} {values : List α}
    (declines : ∀ {ahead script rest}, Reads item stop ahead script none rest →
      script = [] ∧ rest = ahead)
    (reads : Reads (collect item rounds) stop ahead script values rest) :
    Runs item stop ahead script values rest ∧
      (values.length = rounds ∨ Reads item stop rest [] none rest) := by
  induction rounds generalizing ahead script values with
  | zero =>
      obtain ⟨rfl, rfl, rfl⟩ := reads_pure.mp reads
      exact ⟨.nil, .inl rfl⟩
  | succ rounds inductionHypothesis =>
      obtain ⟨front, value, middle, first, back, further, rfl⟩ := reads_bind.mp reads
      cases value with
      | none =>
          obtain ⟨rfl, rfl⟩ := declines first
          obtain ⟨rfl, rfl, rfl⟩ := reads_pure.mp further
          exact ⟨.nil, .inr first⟩
      | some value =>
          obtain ⟨script, values, _, collected, _, returned, rfl⟩ := reads_bind.mp further
          obtain ⟨rfl, rfl, rfl⟩ := reads_pure.mp returned
          obtain ⟨runs, ended⟩ := inductionHypothesis collected
          rw [List.append_nil]
          exact ⟨.cons first runs, ended.imp (congrArg (· + 1)) id⟩

/-- Values that an item hands over, each taking a token, up to where it declines. -/
inductive Exhausts (item : Scripted (Option α)) (stop : Terminator) :
    List Token → List Step → List α → List Token → Prop where
  | done {ahead : List Token} (declined : Reads item stop ahead [] none ahead) :
      Exhausts item stop ahead [] [] ahead
  | more {ahead middle rest : List Token} {front back : List Step} {value : α} {values : List α}
      (first : Reads item stop ahead front (some value) middle)
      (shorter : middle.length < ahead.length)
      (further : Exhausts item stop middle back values rest) :
      Exhausts item stop ahead (front ++ back) (value :: values) rest

/-- As many rounds as tokens are ahead are enough to collect every value. -/
theorem Exhausts.reads_collect {item : Scripted (Option α)} {rounds : Nat} {values : List α}
    (exhausts : Exhausts item stop ahead script values rest) (enough : ahead.length ≤ rounds) :
    Reads (collect item rounds) stop ahead script values rest := by
  induction exhausts generalizing rounds with
  | done declined =>
      cases rounds with
      | zero => simp [collect]
      | succ rounds =>
          exact reads_bind.mpr ⟨_, _, _, declined, [], reads_pure.mpr ⟨rfl, rfl, rfl⟩, rfl⟩
  | @more _ _ _ front back _ _ first shorter further inductionHypothesis =>
      obtain _ | rounds := rounds
      · omega
      · have fewer : _ ≤ rounds := Nat.le_of_lt_succ (Nat.lt_of_lt_of_le shorter enough)
        have collected := inductionHypothesis fewer
        exact reads_bind.mpr ⟨front, _, _, first, back, reads_bind.mpr
          ⟨back, _, _, collected, [], reads_pure.mpr ⟨rfl, rfl, rfl⟩, by simp⟩, rfl⟩

theorem Exhausts.reads_repeated {item : Scripted (Option α)} {values : List α}
    (exhausts : Exhausts item stop ahead script values rest) :
    Reads (repeated item) stop ahead script values rest :=
  reads_bind.mpr ⟨[], _, _, reads_lift.mpr ⟨rfl, Reader.reads_remaining.mpr ⟨rfl, rfl⟩⟩, script,
    exhausts.reads_collect (Nat.le_refl _), rfl⟩

theorem reads_repeated {item : Scripted (Option α)} {values : List α} :
    Reads (repeated item) stop ahead script values rest ↔
      Reads (collect item ahead.length) stop ahead script values rest := by
  simp [repeated]

end Scripted
end BraceLang
