import BraceLang.Proofs.Expression.Soundness
import BraceLang.Proofs.Lockstep.Expression

/-!
# What a failing reading speaks of

A cause names what was found in place of what was wanted, or what cannot be assigned to, or the
names that do not go together. `Speaks` keeps account of where these come from: on some tokens, a
reader leaves some of them or fails for a cause that speaks of them and of the end of input only.

What a cause says about a value that was read before follows from that reading. So the rule for
sequencing hands on no more than that it has taken place.
-/

namespace BraceLang

section Causes

variable {tokens : List Token}

/-- Whether a lexeme is one of tokens or the end of input. -/
def Lexeme.FoundIn (tokens : List Token) (lexeme : Lexeme) : Prop :=
  lexeme = .endOfInput ∨ ∃ location, lexeme.token location ∈ tokens

/-- Whether a cause speaks of nothing but tokens and the end of input. What cannot be assigned to
is written by tokens too. -/
def Cause.SpeaksOf (tokens : List Token) : Cause → Prop
  | .missing _ _ found => found.FoundIn tokens
  | .noExpression found => found.FoundIn tokens
  | .badTarget written =>
    ∃ used target, used ⊆ tokens ∧
      Grammar.Derives (.operation Grammar.Level.all) used target ∧ written = target.text
  | .missingReturnType method className =>
    (Lexeme.name method).FoundIn tokens ∧ (Lexeme.name className).FoundIn tokens
  | .noMember className found => (Lexeme.name className).FoundIn tokens ∧ found.FoundIn tokens

theorem foundIn_of_mem {token : Token} (member : token ∈ tokens) :
    token.toLexeme.FoundIn tokens :=
  .inr ⟨token.location, member⟩

/-- The next token is found, or the end of input is. -/
theorem foundIn_headD {stop : Terminator} {ahead : List Token} (inside : ahead ⊆ tokens) :
    (ahead.headD stop.token).toLexeme.FoundIn tokens := by
  cases ahead with
  | nil => exact .inl rfl
  | cons first rest => exact foundIn_of_mem (inside (List.mem_cons_self ..))

/-- A name that is found is that of a token. -/
theorem foundIn_name {token : Token} (named : token.kind = .identifier)
    (found : token.toLexeme.FoundIn tokens) : (Lexeme.name token.text).FoundIn tokens := by
  rwa [show Lexeme.name token.text = token.toLexeme by rw [Lexeme.name, ← named]]

end Causes

namespace Reader

variable {α β : Type} {tokens : List Token}

/-- A result leaves some of `tokens`, or is a failure that speaks of them. -/
def SpokenOf (tokens : List Token) : Except SyntaxError (α × List Token) → Prop
  | .ok (_, rest) => rest ⊆ tokens
  | .error error => error.cause.SpeaksOf tokens

/-- On some of `tokens`, a reader leaves some of them or fails and speaks of them. -/
def Speaks (tokens : List Token) (reader : Reader α) : Prop :=
  ∀ stop ahead, ahead ⊆ tokens → SpokenOf tokens (reader stop ahead)

section Rules

variable {reader : Reader α} {next : α → Reader β}

/-- What follows a reading speaks of tokens, given that the reading has taken place. -/
theorem Speaks.bind_reads (speaks : Speaks tokens reader)
    (further : ∀ stop ahead value rest, ahead ⊆ tokens → Reads reader stop ahead value rest →
      Speaks tokens (next value)) : Speaks tokens (reader >>= next) := by
  intro stop ahead inside
  have first := speaks stop ahead inside
  simp only [bind]
  cases outcome : reader stop ahead with
  | ok pair =>
      rw [outcome] at first
      exact further stop ahead pair.1 pair.2 inside outcome stop pair.2 first
  | error failure => rwa [outcome] at first

theorem Speaks.bind (speaks : Speaks tokens reader)
    (further : ∀ value, Speaks tokens (next value)) : Speaks tokens (reader >>= next) :=
  speaks.bind_reads fun _ _ value _ _ _ => further value

end Rules

section Primitives

theorem speaks_pure (value : α) : Speaks tokens (pure value) := fun _ _ inside => inside

theorem speaks_peek : Speaks tokens peek := fun _ _ inside => inside

theorem speaks_remaining : Speaks tokens remaining := fun _ _ inside => inside

theorem speaks_atEnd : Speaks tokens atEnd := fun _ _ inside => inside

theorem speaks_at (lexeme : Lexeme) : Speaks tokens (at? lexeme) := fun _ _ inside => inside

theorem speaks_sees (distance : Nat) (test : Token → Bool) :
    Speaks tokens (sees distance test) := fun _ _ inside => inside

theorem speaks_skip : Speaks tokens skip :=
  fun _ _ inside => fun _ member => inside (List.mem_of_mem_tail member)

theorem speaks_next : Speaks tokens next :=
  speaks_peek.bind fun token => speaks_skip.bind fun _ => speaks_pure token

theorem speaks_take (classify : Token → Option α) : Speaks tokens (take? classify) := by
  intro stop ahead inside
  cases ahead with
  | nil => exact inside
  | cons first rest =>
      cases classified : classify first with
      | none => simpa [take?, classified, SpokenOf] using inside
      | some value => simpa [take?, classified, SpokenOf] using (List.cons_subset.mp inside).2

theorem speaks_accept (lexeme : Lexeme) : Speaks tokens (accept lexeme) := speaks_take _

theorem speaks_run (classify : Token → Option α) : Speaks tokens (run classify) :=
  fun _ ahead inside => fun _ member => inside ((splitRun_suffix classify ahead).subset member)

/-- A refusal speaks of the token at which it is made. -/
theorem speaks_refuse {cause : Lexeme → Cause}
    (spoken : ∀ found : Lexeme, found.FoundIn tokens → (cause found).SpeaksOf tokens) :
    Speaks tokens (refuse (α := α) cause) :=
  fun _ _ inside => spoken _ (foundIn_headD inside)

theorem speaks_expect (wanted : Wanted) (position : Position) :
    Speaks tokens (expect wanted position) := by
  refine (speaks_take _).bind fun found => ?_
  cases found with
  | some token => exact speaks_pure token
  | none => exact speaks_refuse fun _ found => found

theorem Speaks.collect {item : Reader (Option α)} (items : Speaks tokens item) (rounds : Nat) :
    Speaks tokens (collect item rounds) := by
  induction rounds with
  | zero => exact speaks_pure []
  | succ rounds inductionHypothesis =>
      refine items.bind fun found => ?_
      cases found with
      | none => exact speaks_pure []
      | some value => exact inductionHypothesis.bind fun values => speaks_pure (value :: values)

theorem Speaks.repeated {item : Reader (Option α)} (items : Speaks tokens item) :
    Speaks tokens (repeated item) :=
  speaks_remaining.bind fun rounds => items.collect rounds

end Primitives

end Reader

namespace Grammar

open Reader

section Layer

variable {tokens : List Token} {inner : Reader Node}

theorem speaks_furtherArgument (speaks : Speaks tokens inner) :
    Speaks tokens (furtherArgument inner) := by
  refine (speaks_accept _).bind fun comma => ?_
  cases comma with
  | none => exact speaks_pure none
  | some _ => exact speaks.bind fun arg => speaks_pure (some arg)

theorem speaks_arguments (speaks : Speaks tokens inner) : Speaks tokens (arguments inner) := by
  refine (speaks_at _).bind fun closed => ?_
  cases closed with
  | true => exact speaks_pure []
  | false =>
      refine speaks.bind fun first => ?_
      exact (speaks_furtherArgument speaks).repeated.bind fun further =>
        speaks_pure (first :: further)

theorem speaks_selector (speaks : Speaks tokens inner) : Speaks tokens (selector inner) := by
  refine (speaks_accept _).bind fun point => ?_
  cases point with
  | some location => exact (speaks_expect _ _).bind fun name => speaks_pure _
  | none =>
      refine (speaks_accept _).bind fun opening => ?_
      cases opening with
      | none => exact speaks_pure none
      | some location =>
          refine (speaks_arguments speaks).bind fun args => ?_
          exact (speaks_expect _ _).bind fun _ => speaks_pure _

theorem speaks_chain (speaks : Speaks tokens inner) : Speaks tokens (chain inner) :=
  speaks_next.bind fun _ => (speaks_selector speaks).repeated.bind fun _ => speaks_pure _

theorem speaks_primary (speaks : Speaks tokens inner) : Speaks tokens (primary inner) := by
  refine speaks_peek.bind fun token => ?_
  split_ifs
  · exact speaks_skip.bind fun _ => speaks_pure _
  · exact speaks_skip.bind fun _ => speaks_pure _
  · exact speaks_chain speaks
  · refine speaks_skip.bind fun _ => ?_
    exact speaks.bind fun node => (speaks_expect _ _).bind fun _ => speaks_pure node
  · exact speaks_refuse fun _ found => found

theorem speaks_stepped (speaks : Speaks tokens inner) : Speaks tokens (stepped inner) :=
  (speaks_primary speaks).bind fun _ => (speaks_run _).bind fun _ => speaks_pure _

theorem speaks_unary (speaks : Speaks tokens inner) : Speaks tokens (unary inner) :=
  (speaks_run _).bind fun _ => (speaks_stepped speaks).bind fun _ => speaks_pure _

theorem speaks_operation (level : Level) (speaks : Speaks tokens inner) :
    Speaks tokens (operation level inner) := by
  refine (speaks_take _).bind fun sign => ?_
  cases sign with
  | none => exact speaks_pure none
  | some sign => exact speaks.bind fun right => speaks_pure _

theorem speaks_leveled (level : Level) (speaks : Speaks tokens inner) :
    Speaks tokens (leveled level inner) :=
  speaks.bind fun _ => (speaks_operation level speaks).repeated.bind fun _ => speaks_pure _

theorem speaks_binary (speaks : Speaks tokens inner) : Speaks tokens (binary inner) := by
  have levels (levels : List Level) : Speaks tokens (levels.foldr leveled (unary inner)) := by
    induction levels with
    | nil => exact speaks_unary speaks
    | cons level levels inductionHypothesis => exact speaks_leveled level inductionHypothesis
  exact levels Level.all

/-- What is refused as a target was read right before, so its tokens are among those of the
reading. -/
theorem speaks_assigned {target : Node} {used : List Token}
    (derived : Derives (.operation Level.all) used target) (inside : used ⊆ tokens)
    (speaks : Speaks tokens inner) : Speaks tokens (assigned inner target) := by
  refine (speaks_at _).bind fun signed => ?_
  cases signed with
  | false => exact speaks_pure target
  | true =>
      rw [if_pos rfl]
      split_ifs
      · exact speaks_next.bind fun _ => speaks.bind fun _ => speaks_pure _
      · exact speaks_refuse fun _ _ => ⟨used, target, inside, derived, rfl⟩

theorem speaks_layer (speaks : Speaks tokens inner) (sound : Sound .expression inner) :
    Speaks tokens (layer inner) := by
  refine (speaks_binary speaks).bind_reads fun stop ahead target rest inside reads => ?_
  obtain ⟨used, rfl, derived⟩ := sound_binary sound reads
  exact speaks_assigned derived (List.append_subset.mp inside).1 speaks

end Layer

theorem speaks_expressionWithin (tokens : List Token) (bound : Nat) :
    Speaks tokens (expressionWithin bound) := by
  induction bound with
  | zero => exact speaks_refuse fun _ found => found
  | succ bound inductionHypothesis =>
      exact speaks_layer inductionHypothesis (sound_expressionWithin bound)

/-- An expression that cannot be read speaks of the tokens ahead. -/
theorem speaks_expression {tokens : List Token} : Speaks tokens expression :=
  speaks_remaining.bind fun bound => speaks_expressionWithin tokens bound

end Grammar
end BraceLang
