import Mathlib.Logic.Function.Iterate
import Mathlib.Tactic.SplitIfs
import BraceLang.Proofs.Reading

/-!
# Expressions in lockstep

The readers of expressions take the reader of inner expressions as an argument, and a
bound on the nesting closes the circle. `InStep` compares a reader with itself under two
bounds: on no more tokens than either bound allows, both come to the same outcome, be it
a tree or a failure. On the way it keeps that a reading leaves tokens at the back of
those ahead, or fails at one of them.

An expression inside another one stands behind a token of it. `TakesInStep` is `InStep`
for readers that take a token, with one more token ahead; each layer of the nesting
takes one, so the bound is never reached.
-/

namespace BraceLang

/-- A reading that failed at a token ahead, or behind all of them at the terminator. -/
def SyntaxError.IsWithin (stop : Terminator) (ahead : List Token) (error : SyntaxError) : Prop :=
  ∃ rest, rest <:+ ahead ∧ error.location = (rest.headD stop.token).location

theorem SyntaxError.IsWithin.mono {stop : Terminator} {ahead rest : List Token}
    {error : SyntaxError} (within : error.IsWithin stop rest) (suffix : rest <:+ ahead) :
    error.IsWithin stop ahead := by
  obtain ⟨left, leftSuffix, located⟩ := within
  exact ⟨left, leftSuffix.trans suffix, located⟩

namespace Reader

variable {α β : Type}

/-- An outcome leaves tokens at the back of `kept`, or is a failure within `ahead`. -/
def InRange (stop : Terminator) (ahead kept : List Token) :
    Except SyntaxError (α × List Token) → Prop
  | .ok (_, rest) => rest <:+ kept
  | .error error => error.IsWithin stop ahead

/-- On at most `bound` tokens two readers come to the same outcome, which is in range. -/
def InStep (bound : Nat) (first second : Reader α) : Prop :=
  ∀ stop ahead, ahead.length ≤ bound →
    first stop ahead = second stop ahead ∧ InRange stop ahead ahead (first stop ahead)

/-- On at most one token more than `bound` two readers come to the same outcome, and take a
token if they succeed. -/
def TakesInStep (bound : Nat) (first second : Reader α) : Prop :=
  ∀ stop ahead, ahead.length ≤ bound + 1 →
    first stop ahead = second stop ahead ∧ InRange stop ahead ahead.tail (first stop ahead)

section Rules

variable {bound : Nat} {first second : Reader α} {stop : Terminator} {ahead kept : List Token}

theorem InRange.mono {outcome : Except SyntaxError (α × List Token)} {rest left : List Token}
    (ranged : InRange stop rest left outcome) (suffix : rest <:+ ahead) (keeps : left <:+ kept) :
    InRange stop ahead kept outcome := by
  cases outcome with
  | ok pair => exact List.IsSuffix.trans ranged keeps
  | error failure => exact SyntaxError.IsWithin.mono ranged suffix

/-- Sequencing keeps the step: what follows starts at tokens that the first reading left. -/
theorem bind_inStep {next nextSecond : α → Reader β} {kept last : List Token}
    (same : first stop ahead = second stop ahead)
    (ranged : InRange stop ahead kept (first stop ahead))
    (further : ∀ value rest, rest <:+ kept →
      next value stop rest = nextSecond value stop rest ∧
        InRange stop ahead last (next value stop rest)) :
    (first >>= next) stop ahead = (second >>= nextSecond) stop ahead ∧
      InRange stop ahead last ((first >>= next) stop ahead) := by
  simp only [bind, ← same]
  cases outcome : first stop ahead with
  | ok pair =>
      rw [outcome] at ranged
      exact further pair.1 pair.2 ranged
  | error failure =>
      rw [outcome] at ranged
      exact ⟨rfl, ranged⟩

theorem tail_suffix_tail {rest : List Token} (suffix : rest <:+ ahead) :
    rest.tail <:+ ahead.tail := by
  obtain ⟨_ | ⟨_, front⟩, rfl⟩ := suffix
  · exact List.suffix_refl _
  · exact (List.tail_suffix rest).trans (List.suffix_append front rest)

theorem InStep.mono {fewer : Nat} (readers : InStep bound first second) (less : fewer ≤ bound) :
    InStep fewer first second :=
  fun stop ahead within => readers stop ahead (Nat.le_trans within less)

/-- Readers that take a token are in step with one token more. -/
theorem TakesInStep.inStep (readers : TakesInStep bound first second) :
    InStep (bound + 1) first second := by
  intro stop ahead within
  obtain ⟨same, ranged⟩ := readers stop ahead within
  exact ⟨same, ranged.mono (List.suffix_refl _) (List.tail_suffix ahead)⟩

theorem InStep.bind {next nextSecond : α → Reader β} (readers : InStep bound first second)
    (further : ∀ value, InStep bound (next value) (nextSecond value)) :
    InStep bound (first >>= next) (second >>= nextSecond) := by
  intro stop ahead within
  obtain ⟨same, ranged⟩ := readers stop ahead within
  refine bind_inStep same ranged fun value rest suffix => ?_
  obtain ⟨sameNext, rangedNext⟩ :=
    further value stop rest (Nat.le_trans suffix.length_le within)
  exact ⟨sameNext, rangedNext.mono suffix suffix⟩

/-- Behind a token taken, fewer tokens are ahead. -/
theorem TakesInStep.bind {next nextSecond : α → Reader β} (readers : TakesInStep bound first second)
    (further : ∀ value, InStep bound (next value) (nextSecond value)) :
    TakesInStep bound (first >>= next) (second >>= nextSecond) := by
  intro stop ahead within
  obtain ⟨same, ranged⟩ := readers stop ahead within
  refine bind_inStep same ranged fun value rest suffix => ?_
  have fewer : rest.length ≤ bound := by
    have shorter := suffix.length_le
    rw [List.length_tail] at shorter
    omega
  obtain ⟨sameNext, rangedNext⟩ := further value stop rest fewer
  exact ⟨sameNext, rangedNext.mono (suffix.trans (List.tail_suffix ahead)) suffix⟩

/-- It is enough that the second of two readers takes a token. -/
theorem TakesInStep.bind_right {next nextSecond : α → Reader β}
    (readers : InStep (bound + 1) first second)
    (further : ∀ value, TakesInStep bound (next value) (nextSecond value)) :
    TakesInStep bound (first >>= next) (second >>= nextSecond) := by
  intro stop ahead within
  obtain ⟨same, ranged⟩ := readers stop ahead within
  refine bind_inStep same ranged fun value rest suffix => ?_
  obtain ⟨sameNext, rangedNext⟩ :=
    further value stop rest (Nat.le_trans suffix.length_le within)
  exact ⟨sameNext, rangedNext.mono suffix (tail_suffix_tail suffix)⟩

end Rules

section Primitives

variable {bound : Nat}

theorem inStep_pure (value : α) : InStep bound (pure value) (pure value) :=
  fun _ ahead _ => ⟨rfl, List.suffix_refl ahead⟩

theorem inStep_peek : InStep bound peek peek := fun _ ahead _ => ⟨rfl, List.suffix_refl ahead⟩

theorem inStep_atEnd : InStep bound atEnd atEnd := fun _ ahead _ => ⟨rfl, List.suffix_refl ahead⟩

theorem inStep_remaining : InStep bound remaining remaining :=
  fun _ ahead _ => ⟨rfl, List.suffix_refl ahead⟩

theorem inStep_at (lexeme : Lexeme) : InStep bound (at? lexeme) (at? lexeme) :=
  fun _ ahead _ => ⟨rfl, List.suffix_refl ahead⟩

theorem inStep_sees (distance : Nat) (test : Token → Bool) :
    InStep bound (sees distance test) (sees distance test) :=
  fun _ ahead _ => ⟨rfl, List.suffix_refl ahead⟩

theorem inStep_take (classify : Token → Option α) :
    InStep bound (take? classify) (take? classify) := by
  intro stop ahead _
  refine ⟨rfl, ?_⟩
  cases ahead with
  | nil => exact List.suffix_refl _
  | cons token rest => cases classified : classify token <;> simp [take?, classified, InRange]

theorem inStep_accept (lexeme : Lexeme) : InStep bound (accept lexeme) (accept lexeme) :=
  inStep_take _

theorem splitRun_suffix (classify : Token → Option α) (ahead : List Token) :
    (splitRun classify ahead).2 <:+ ahead := by
  induction ahead with
  | nil => exact List.suffix_refl _
  | cons token rest inductionHypothesis =>
      cases classified : classify token with
      | none => simp [splitRun, classified]
      | some value =>
          simpa [splitRun, classified] using inductionHypothesis.trans (List.suffix_cons token rest)

theorem inStep_run (classify : Token → Option α) : InStep bound (run classify) (run classify) :=
  fun _ ahead _ => ⟨rfl, splitRun_suffix classify ahead⟩

/-- A refusal is placed at the next token. -/
theorem takesInStep_refuse (cause : Lexeme → Cause) :
    TakesInStep bound (refuse (α := α) cause) (refuse cause) :=
  fun _ ahead _ => ⟨rfl, ahead, List.suffix_refl ahead, rfl⟩

theorem takesInStep_skip : TakesInStep bound skip skip :=
  fun _ ahead _ => ⟨rfl, List.suffix_refl ahead.tail⟩

theorem takesInStep_next : TakesInStep bound next next :=
  fun _ ahead _ => ⟨rfl, List.suffix_refl ahead.tail⟩

theorem takesInStep_expect (wanted : Wanted) (position : Position) :
    TakesInStep bound (expect wanted position) (expect wanted position) := by
  intro stop ahead _
  refine ⟨rfl, ?_⟩
  have refused : InRange stop ahead ahead.tail
      (refuse (α := Token) (.missing wanted position) stop ahead) :=
    ⟨ahead, List.suffix_refl ahead, rfl⟩
  cases ahead with
  | nil => exact refused
  | cons token rest =>
      by_cases admitted : wanted.admits token = true
      · simp [expect, bind, take?, admitted, pure, InRange]
      · simpa [expect, bind, take?, admitted] using refused

/-- Items in step are collected in step. -/
theorem InStep.collect {item itemSecond : Reader (Option α)} (items : InStep bound item itemSecond)
    (rounds : Nat) : InStep bound (collect item rounds) (collect itemSecond rounds) := by
  induction rounds with
  | zero => exact inStep_pure []
  | succ rounds inductionHypothesis =>
      refine items.bind fun found => ?_
      cases found with
      | none => exact inStep_pure []
      | some value => exact inductionHypothesis.bind fun values => inStep_pure (value :: values)

theorem InStep.repeated {item itemSecond : Reader (Option α)}
    (items : InStep bound item itemSecond) : InStep bound (repeated item) (repeated itemSecond) :=
  inStep_remaining.bind fun rounds => items.collect rounds

end Primitives

end Reader

namespace Grammar

open Reader

section Layer

variable {bound : Nat} {inner innerSecond : Reader Node}

theorem inStep_furtherArgument (readers : InStep bound inner innerSecond) :
    InStep bound (furtherArgument inner) (furtherArgument innerSecond) := by
  refine (inStep_accept _).bind fun comma => ?_
  cases comma with
  | none => exact inStep_pure none
  | some _ => exact readers.bind fun arg => inStep_pure (some arg)

theorem inStep_arguments (readers : InStep bound inner innerSecond) :
    InStep bound (arguments inner) (arguments innerSecond) := by
  refine (inStep_at _).bind fun closed => ?_
  cases closed with
  | true => exact inStep_pure []
  | false =>
      refine readers.bind fun first => ?_
      exact (inStep_furtherArgument readers).repeated.bind fun further =>
        inStep_pure (first :: further)

theorem inStep_selector (readers : InStep bound inner innerSecond) :
    InStep bound (selector inner) (selector innerSecond) := by
  refine (inStep_accept _).bind fun point => ?_
  cases point with
  | some location =>
      refine (takesInStep_expect _ _).inStep.mono (Nat.le_succ bound) |>.bind fun name => ?_
      exact inStep_pure _
  | none =>
      refine (inStep_accept _).bind fun opening => ?_
      cases opening with
      | none => exact inStep_pure none
      | some location =>
          refine (inStep_arguments readers).bind fun args => ?_
          refine (takesInStep_expect _ _).inStep.mono (Nat.le_succ bound) |>.bind fun _ => ?_
          exact inStep_pure _

theorem takesInStep_chain (readers : InStep bound inner innerSecond) :
    TakesInStep bound (chain inner) (chain innerSecond) := by
  refine takesInStep_next.bind fun name => ?_
  exact (inStep_selector readers).repeated.bind fun selectors => inStep_pure _

theorem takesInStep_primary (readers : InStep bound inner innerSecond) :
    TakesInStep bound (primary inner) (primary innerSecond) := by
  refine .bind_right inStep_peek fun token => ?_
  split_ifs
  · exact takesInStep_skip.bind fun _ => inStep_pure _
  · exact takesInStep_skip.bind fun _ => inStep_pure _
  · exact takesInStep_chain readers
  · refine takesInStep_skip.bind fun _ => ?_
    refine readers.bind fun node => ?_
    refine (takesInStep_expect _ _).inStep.mono (Nat.le_succ bound) |>.bind fun _ => ?_
    exact inStep_pure node
  · exact takesInStep_refuse _

theorem takesInStep_stepped (readers : InStep bound inner innerSecond) :
    TakesInStep bound (stepped inner) (stepped innerSecond) := by
  refine (takesInStep_primary readers).bind fun operand => ?_
  exact (inStep_run _).bind fun ops => inStep_pure _

theorem takesInStep_unary (readers : InStep bound inner innerSecond) :
    TakesInStep bound (unary inner) (unary innerSecond) := by
  refine .bind_right (inStep_run _) fun ops => ?_
  exact (takesInStep_stepped readers).bind fun operand => inStep_pure _

theorem inStep_operation (level : Level) (readers : InStep bound inner innerSecond) :
    InStep bound (operation level inner) (operation level innerSecond) := by
  refine (inStep_take _).bind fun sign => ?_
  cases sign with
  | none => exact inStep_pure none
  | some sign => exact readers.bind fun right => inStep_pure _

theorem takesInStep_leveled (level : Level) (readers : TakesInStep bound inner innerSecond) :
    TakesInStep bound (leveled level inner) (leveled level innerSecond) := by
  refine readers.bind fun first => ?_
  have operations := inStep_operation level (readers.inStep.mono (Nat.le_succ bound))
  exact operations.repeated.bind fun tails => inStep_pure _

theorem takesInStep_levels (levels : List Level) (readers : InStep bound inner innerSecond) :
    TakesInStep bound (levels.foldr leveled (unary inner))
      (levels.foldr leveled (unary innerSecond)) := by
  induction levels with
  | nil => exact takesInStep_unary readers
  | cons level levels inductionHypothesis => exact takesInStep_leveled level inductionHypothesis

theorem takesInStep_binary (readers : InStep bound inner innerSecond) :
    TakesInStep bound (binary inner) (binary innerSecond) :=
  takesInStep_levels Level.all readers

theorem inStep_assigned (target : Node) (readers : InStep bound inner innerSecond) :
    InStep bound (assigned inner target) (assigned innerSecond target) := by
  refine (inStep_at _).bind fun signed => ?_
  cases signed with
  | false => exact inStep_pure target
  | true =>
      rw [if_pos rfl, if_pos rfl]
      split_ifs
      · refine takesInStep_next.inStep.mono (Nat.le_succ bound) |>.bind fun sign => ?_
        exact readers.bind fun value => inStep_pure _
      · exact (takesInStep_refuse _).inStep.mono (Nat.le_succ bound)

theorem takesInStep_layer (readers : InStep bound inner innerSecond) :
    TakesInStep bound (layer inner) (layer innerSecond) :=
  (takesInStep_binary readers).bind fun target => inStep_assigned target readers

end Layer

/-- Whether a reader refuses an expression where no token is left. -/
def RefusesAtEnd (reader : Reader Node) : Prop :=
  ∀ stop, reader stop [] = refuse .noExpression stop []

/-- A layer refuses where no token is left, before it comes to what is inside it. -/
theorem refusesAtEnd_layer (inner : Reader Node) : RefusesAtEnd (layer inner) := fun _ => rfl

theorem RefusesAtEnd.iterate {base : Reader Node} (refuses : RefusesAtEnd base) (layers : Nat) :
    RefusesAtEnd (layer^[layers] base) := by
  cases layers with
  | zero => exact refuses
  | succ layers =>
      rw [Function.iterate_succ_apply']
      exact refusesAtEnd_layer _

/-- As many layers as tokens are ahead are enough, whatever stands below them. -/
theorem inStep_iterate_layer {bound layers others : Nat} {base otherBase : Reader Node}
    (refuses : RefusesAtEnd base) (otherRefuses : RefusesAtEnd otherBase)
    (enough : bound ≤ layers) (alsoEnough : bound ≤ others) :
    InStep bound (layer^[layers] base) (layer^[others] otherBase) := by
  induction bound generalizing layers others with
  | zero =>
      intro stop ahead within
      obtain rfl : ahead = [] := List.eq_nil_of_length_eq_zero (Nat.le_zero.mp within)
      rw [refuses.iterate layers stop, otherRefuses.iterate others stop]
      exact ⟨rfl, [], List.suffix_refl [], rfl⟩
  | succ bound inductionHypothesis =>
      obtain _ | layers := layers
      · omega
      obtain _ | others := others
      · omega
      rw [Function.iterate_succ_apply', Function.iterate_succ_apply']
      exact (takesInStep_layer (inductionHypothesis (Nat.le_of_succ_le_succ enough)
        (Nat.le_of_succ_le_succ alsoEnough))).inStep

theorem expressionWithin_eq_iterate (tokens : Nat) :
    expressionWithin tokens = layer^[tokens] (refuse .noExpression) := by
  induction tokens with
  | zero => rfl
  | succ tokens inductionHypothesis =>
      rw [Function.iterate_succ_apply', ← inductionHypothesis]
      rfl

/-- Bounds that allow for all tokens ahead make no difference. -/
theorem inStep_expressionWithin {bound tokens others : Nat} (enough : bound ≤ tokens)
    (alsoEnough : bound ≤ others) :
    InStep bound (expressionWithin tokens) (expressionWithin others) := by
  rw [expressionWithin_eq_iterate, expressionWithin_eq_iterate]
  exact inStep_iterate_layer (fun _ => rfl) (fun _ => rfl) enough alsoEnough

/-- An expression that is read takes a token. -/
theorem takesInStep_expression (bound : Nat) : TakesInStep bound expression expression := by
  refine fun stop ahead _ => ⟨rfl, ?_⟩
  cases ahead with
  | nil => exact ⟨[], List.suffix_refl [], rfl⟩
  | cons first rest =>
      have readers := inStep_expressionWithin (Nat.le_refl rest.length) (Nat.le_refl rest.length)
      exact (takesInStep_layer readers stop (first :: rest) (Nat.le_refl _)).2

/-- An expression never gets below as many layers as it has tokens, and one more. -/
theorem iterate_layer_eq_expression (base : Reader Node) {layers : Nat} {stop : Terminator}
    {ahead : List Token} (enough : ahead.length < layers) :
    (layer^[layers] base) stop ahead = expression stop ahead := by
  obtain ⟨layers, rfl⟩ := Nat.exists_eq_add_of_lt enough
  rw [Function.iterate_succ_apply]
  have readers := inStep_iterate_layer (refusesAtEnd_layer base) (fun _ => rfl)
    (Nat.le_add_right ahead.length layers) (Nat.le_refl ahead.length)
  rw [(readers stop ahead (Nat.le_refl _)).1, ← expressionWithin_eq_iterate]
  rfl

end Grammar
end BraceLang
