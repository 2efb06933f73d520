import Mathlib.Tactic.IntervalCases
import BraceLang.Proofs.Horizon.Analysis

/-!
# A failure is decided by what was read up to it

A reading fails at a token and gives its reason at once. It has looked at the token behind that
one at most, so no token further on can repair the program, or change where and why it fails.
-/

namespace BraceLang

/-- The token at an index; at any index past the end, the last. -/
def tokenAt (tokens : List Token) (index : Nat) : Option Token :=
  tokens[min index (tokens.length - 1)]?

/-- Whether the last of the tokens is an end of input. -/
def Closed (tokens : List Token) : Prop :=
  ∃ last, tokens.getLast? = some last ∧ last.kind = .endOfInput

/-- A token sequence parted at its first end of input. -/
structure Parts (tokens front : List Token) (stop : Token) (beyond : List Token) : Prop where
  whole : tokens = front ++ stop :: beyond
  endless : ∀ token ∈ front, token.kind ≠ .endOfInput
  ends : stop.kind = .endOfInput

section Parting

variable {tokens others front otherFront beyond otherBeyond : List Token}
  {stop otherStop : Token} {count : Nat}

theorem Closed.exists_parts (closed : Closed tokens) :
    ∃ front stop beyond, Parts tokens front stop beyond := by
  obtain ⟨last, found, kind⟩ := closed
  obtain ⟨front, stop, beyond, whole, endless, ends⟩ :=
    exists_first_stop ⟨last, List.mem_of_getLast? found, kind⟩
  exact ⟨front, stop, beyond, whole, endless, ends⟩

theorem tokenAt_zero (first : Token) (tokens : List Token) :
    tokenAt (first :: tokens) 0 = some first := by
  rw [tokenAt, Nat.zero_min, List.getElem?_cons_zero]

/-- Behind its first token, a sequence is looked at like the tokens behind. -/
theorem tokenAt_succ (first : Token) (nonempty : tokens ≠ []) (index : Nat) :
    tokenAt (first :: tokens) (index + 1) = tokenAt tokens index := by
  obtain ⟨second, tokens, rfl⟩ := List.exists_cons_of_ne_nil nonempty
  have shifted : min (index + 1) ((first :: second :: tokens).length - 1) =
      min index ((second :: tokens).length - 1) + 1 := by
    simp only [List.length_cons, Nat.add_sub_cancel]
    omega
  rw [tokenAt, tokenAt, shifted, List.getElem?_cons_succ]

theorem tokenAt_append (front : List Token) (nonempty : tokens ≠ []) (index : Nat) :
    tokenAt (front ++ tokens) (front.length + index) = tokenAt tokens index := by
  induction front with
  | nil => rw [List.nil_append, List.length_nil, Nat.zero_add]
  | cons first front inductionHypothesis =>
      have further : front ++ tokens ≠ [] := List.append_ne_nil_of_right_ne_nil front nonempty
      rw [List.cons_append, List.length_cons, Nat.add_right_comm, tokenAt_succ first further,
        inductionHypothesis]

namespace Parts

theorem input_eq (parts : Parts tokens front stop beyond) :
    Input.ofTokens tokens = ⟨front, ⟨stop.location, beyond⟩⟩ :=
  parts.whole ▸ Input.ofTokens_stop parts.endless parts.ends

/-- The token that a reading has come to stands at the index of as many tokens as it took. -/
theorem exists_token (parts : Parts tokens front stop beyond) {taken : Nat}
    (inside : taken ≤ front.length) :
    ∃ token, tokens[taken]? = some token ∧ token.location =
      ((front.drop taken).headD (Terminator.mk stop.location beyond).token).location := by
  obtain ⟨rfl, -, -⟩ := parts
  rcases left : front.drop taken with _ | ⟨token, tail⟩
  · have all : taken = front.length := Nat.le_antisymm inside (List.drop_eq_nil_iff.mp left)
    exact ⟨stop, by rw [all, List.getElem?_append_right (Nat.le_refl _), Nat.sub_self]; rfl, rfl⟩
  · refine ⟨token, ?_, rfl⟩
    have found : (front.drop taken)[0]? = some token := by rw [left, List.getElem?_cons_zero]
    rw [List.getElem?_drop, Nat.add_zero] at found
    rw [List.getElem?_append_left (List.getElem?_eq_some_iff.mp found).1, found]

/-- Whether an opening parenthesis stands behind the end of input shows at the next index. -/
theorem opens_eq (parts : Parts tokens front stop beyond) :
    (Terminator.mk stop.location beyond).opens =
      (tokenAt tokens (front.length + 1)).any (·.is (.op "(")) := by
  obtain ⟨rfl, -, ends⟩ := parts
  rw [tokenAt_append front (List.cons_ne_nil stop beyond)]
  cases beyond with
  | nil =>
      refine (decide_eq_false fun same : stop.toLexeme = .op "(" => ?_).symm
      rw [same] at ends
      cases ends
  | cons next beyond => rw [tokenAt_succ stop (List.cons_ne_nil _ _), tokenAt_zero]; rfl

/-- Sequences whose first tokens are the same mirror one another that far. -/
theorem mirrors (parts : Parts tokens front stop beyond)
    (otherParts : Parts others otherFront otherStop otherBeyond)
    (same : ∀ index < count, tokenAt tokens index = tokenAt others index) :
    Mirrors .same ⟨stop.location, beyond⟩ ⟨otherStop.location, otherBeyond⟩ count front
      otherFront := by
  obtain ⟨rfl, endless, ends⟩ := parts
  obtain ⟨rfl, otherEndless, otherEnds⟩ := otherParts
  induction front generalizing otherFront count with
  | nil =>
      obtain _ | count := count
      · exact .unread _ _
      have first := same 0 (Nat.succ_pos count)
      cases otherFront with
      | nil =>
          rw [List.nil_append, List.nil_append, tokenAt_zero, tokenAt_zero] at first
          exact .ended _ (congrArg Token.location (Option.some.inj first)).symm
      | cons other otherFront =>
          rw [List.nil_append, List.cons_append, tokenAt_zero, tokenAt_zero] at first
          obtain rfl := Option.some.inj first
          exact absurd ends (otherEndless stop (List.mem_cons_self ..))
  | cons token front inductionHypothesis =>
      obtain _ | count := count
      · exact .unread _ _
      have first := same 0 (Nat.succ_pos count)
      cases otherFront with
      | nil =>
          rw [List.nil_append, List.cons_append, tokenAt_zero, tokenAt_zero] at first
          obtain rfl := Option.some.inj first
          exact absurd otherEnds (endless token (List.mem_cons_self ..))
      | cons other otherFront =>
          rw [List.cons_append, List.cons_append, tokenAt_zero, tokenAt_zero] at first
          obtain rfl := Option.some.inj first
          have behind : Mirrors .same ⟨stop.location, beyond⟩ ⟨otherStop.location, otherBeyond⟩
              count front otherFront := by
            refine inductionHypothesis (fun token member => ?_) (fun token member => ?_)
              fun index less => ?_
            · exact endless token (List.mem_cons_of_mem _ member)
            · exact otherEndless token (List.mem_cons_of_mem _ member)
            · have next := same (index + 1) (Nat.succ_lt_succ less)
              rwa [List.cons_append, List.cons_append, tokenAt_succ token (by simp),
                tokenAt_succ token (by simp)] at next
          have whole := Mirrors.token token behind
          rwa [Token.relabel_same] at whole

end Parts
end Parting

/-- With the same words at the same places, tokens that are all mirrored are mirrored by
themselves. -/
theorem Mirrors.eq_of_length_lt {stop other : Terminator} {count : Nat} {ahead others : List Token}
    (mirrors : Mirrors .same stop other count ahead others) (enough : ahead.length < count) :
    others = ahead := by
  induction mirrors with
  | unread => exact absurd enough (Nat.not_lt_zero _)
  | ended => rfl
  | token first _ inductionHypothesis =>
      rw [inductionHypothesis (Nat.lt_of_succ_lt_succ enough), Token.relabel_same]

/-- The token that an analysis has come to, which is where it fails if it does. -/
theorem AnalysisSettled.exists_token {builtins : List Symbol} {place : Location → Location}
    {tokens front beyond : List Token} {stop : Token} {taken : Nat}
    (settled : AnalysisSettled builtins place tokens taken)
    (parts : Parts tokens front stop beyond) :
    ∃ token, tokens[taken]? = some token ∧
      ∀ error, analyzeTokens builtins tokens = .error error → error.location = token.location := by
  have inside := settled.inside
  have located := settled.located
  rw [parts.input_eq] at inside located
  obtain ⟨token, found, placed⟩ := parts.exists_token inside
  exact ⟨token, found, fun error failed => (located error failed).trans placed.symm⟩

/-- An analysis that fails does so at the token of some index, and fails in the very same way for
all tokens that agree with these up to the index behind it. -/
theorem failure_decided_by_read (builtins : List Symbol) {tokens : List Token}
    {error : SyntaxError} (closed : Closed tokens)
    (failed : analyzeTokens builtins tokens = .error error) :
    ∃ index token, tokens[index]? = some token ∧ error.location = token.location ∧
      ∀ others, Closed others →
        (∀ earlier ≤ index + 1, tokenAt tokens earlier = tokenAt others earlier) →
        analyzeTokens builtins others = .error error := by
  obtain ⟨front, stop, beyond, parts⟩ := closed.exists_parts
  obtain ⟨taken, settled⟩ := exists_analysisSettled builtins id tokens
  obtain ⟨token, found, located⟩ := settled.exists_token parts
  refine ⟨taken, token, found, located error failed, fun others otherClosed agree => ?_⟩
  have inside : taken ≤ front.length := by
    have inside := settled.inside
    rwa [parts.input_eq] at inside
  have moves := settled.moves
  rw [parts.input_eq] at moves
  obtain ⟨otherFront, otherStop, otherBeyond, otherParts⟩ := otherClosed.exists_parts
  have mirrors : Mirrors .same ⟨stop.location, beyond⟩ ⟨otherStop.location, otherBeyond⟩
      (taken + 2) front otherFront :=
    parts.mirrors otherParts fun index less => agree index (Nat.le_of_lt_succ less)
  have moved := moves others
  rw [otherParts.input_eq] at moved
  have alike : Alike .same ⟨stop.location, beyond⟩ ⟨otherStop.location, otherBeyond⟩ front
      taken := by
    refine ⟨rfl, ?_⟩
    obtain less | all := Nat.lt_or_eq_of_le inside
    · exact .inl less
    · have same := mirrors.eq_of_length_lt (by omega)
      refine .inr (.inl ?_)
      rw [parts.opens_eq, otherParts.opens_eq, same, ← all, agree _ (Nat.le_refl _)]
  have result := moved mirrors
  rw [failed] at result
  generalize analyzeTokens builtins others = other at result
  cases result with
  | error location keeps => rw [keeps alike]; rfl

/-- A variable without a name, and what follows it exchanged behind the next token. -/
theorem failure_decided_by_read_variable :
    let tokens := [Lexeme.type "int", .semicolon, .name "x", .semicolon, .endOfInput].zipIdx.map
      fun (lexeme, index) => lexeme.token ⟨1, index⟩
    let others := [Lexeme.type "int", .semicolon, .name "x", .op "\x7d", .endOfInput].zipIdx.map
      fun (lexeme, index) => lexeme.token ⟨1, index⟩
    let error : SyntaxError := ⟨.missing .identifier .afterType .semicolon, ⟨1, 1⟩⟩
    Closed tokens ∧ analyzeTokens [] tokens = .error error ∧ Closed others ∧
      analyzeTokens [] others = .error error := by
  intro tokens others error
  have closed : Closed tokens := ⟨_, rfl, rfl⟩
  have otherClosed : Closed others := ⟨_, rfl, rfl⟩
  have failed : analyzeTokens [] tokens = .error error := rfl
  obtain ⟨index, token, found, located, decides⟩ := failure_decided_by_read [] closed failed
  refine ⟨closed, failed, otherClosed, decides others otherClosed ?_⟩
  obtain rfl : index = 1 := by
    have inside : index < 5 := (List.getElem?_eq_some_iff.mp found).1
    have place : tokens[index]?.map Token.location = some error.location := by
      rw [found, located, Option.map_some]
    interval_cases index <;> first | rfl | exact absurd place (by decide)
  decide

end BraceLang
