import BraceLang.Proofs.Token.Munch
import BraceLang.Proofs.Token.Spacing

/-!
# Tokens stand one behind the other

Every character leads to a place further on, and no token is without characters, so the places
of the tokens of a text increase: a place tells of which token it is.
-/

namespace BraceLang

namespace Location

/-- Whether a place is in front of another one: on an earlier line, or on the same one in an
earlier column. -/
def Before (location other : Location) : Prop :=
  location.line < other.line ∨ location.line = other.line ∧ location.column < other.column

variable {location middle other : Location}

theorem Before.trans (front : location.Before middle) (back : middle.Before other) :
    location.Before other := by
  simp only [Before] at *
  omega

theorem Before.ne (before : location.Before other) : location ≠ other := by
  rintro rfl
  simp only [Before] at before
  omega

theorem before_after (location : Location) (character : Char) :
    location.Before (location.after character) := by
  unfold after
  split
  · exact .inl (Nat.lt_succ_self _)
  · exact .inr ⟨rfl, Nat.lt_succ_self _⟩

/-- Moving over a text leads nowhere or further on. -/
theorem before_afterAll_of_ne_nil {characters : List Char} (nonempty : characters ≠ []) :
    location.Before (location.afterAll characters) := by
  induction characters generalizing location with
  | nil => exact absurd rfl nonempty
  | cons character characters inductionHypothesis =>
      have first := before_after location character
      rw [afterAll_cons]
      cases characters with
      | nil => exact first
      | cons => exact first.trans (inductionHypothesis (List.cons_ne_nil _ _))

theorem Before.afterAll (before : location.Before other) (characters : List Char) :
    location.Before (other.afterAll characters) := by
  cases characters with
  | nil => exact before
  | cons => exact before.trans (before_afterAll_of_ne_nil (List.cons_ne_nil _ _))

end Location

theorem Lexeme.Munched.spelling_ne_nil {lexeme : Lexeme} {behind : List Char}
    (munched : lexeme.Munched behind) : lexeme.spelling ≠ [] := by
  rcases munched with ⟨valid, -⟩ | ⟨rfl, -⟩
  · exact spelling_ne_nil_of_valid valid
  · exact List.cons_ne_nil _ _

namespace Scanner

/-- What is scanned stands behind every place in front of the scanner. -/
theorem before_of_mem_scan {rounds : Nat} {rest : List Char} {location earlier : Location}
    {token : Token} (before : earlier.Before location)
    (member : token ∈ (scan rounds ⟨rest, location⟩).1) : earlier.Before token.location := by
  induction rounds generalizing rest location with
  | zero =>
      obtain rfl := List.mem_singleton.mp member
      exact before
  | succ rounds inductionHypothesis =>
      rcases scan_succ rest location with ⟨-, scanned⟩ |
        ⟨gap, lexeme, after, -, -, -, -, -, scanned⟩
      · rw [scanned] at member
        obtain rfl := List.mem_singleton.mp member
        exact before.afterAll rest
      · rw [scanned] at member
        rcases List.mem_cons.mp member with rfl | member
        · exact before.afterAll gap
        · exact inductionHypothesis (before.afterAll _) member

theorem pairwise_scan (rounds : Nat) (rest : List Char) (location : Location) :
    (scan rounds ⟨rest, location⟩).1.Pairwise fun token other =>
      token.location.Before other.location := by
  induction rounds generalizing rest location with
  | zero => exact List.pairwise_singleton ..
  | succ rounds inductionHypothesis =>
      rcases scan_succ rest location with ⟨-, scanned⟩ |
        ⟨gap, lexeme, after, -, -, -, munched, -, scanned⟩
      · rw [scanned]
        exact List.pairwise_singleton ..
      · rw [scanned]
        refine List.pairwise_cons.mpr ⟨fun token member => ?_, inductionHypothesis _ _⟩
        refine before_of_mem_scan ?_ member
        rw [Location.afterAll_append]
        exact Location.before_afterAll_of_ne_nil munched.spelling_ne_nil

end Scanner

/-- The first of the tokens at a place. -/
def tokenPlacedAt (tokens : List Token) (location : Location) : Option Token :=
  tokens.find? (·.location = location)

/-- Among tokens that stand one behind the other, each is the one at its place. -/
theorem tokenPlacedAt_location {tokens : List Token} {token : Token}
    (ordered : tokens.Pairwise fun token other => token.location.Before other.location)
    (member : token ∈ tokens) : tokenPlacedAt tokens token.location = some token := by
  induction ordered with
  | nil => cases member
  | @cons first tokens before _ inductionHypothesis =>
      rw [tokenPlacedAt, List.find?_cons]
      rcases List.mem_cons.mp member with rfl | member
      · rw [decide_eq_true rfl]
      · rw [decide_eq_false (before token member).ne]
        exact inductionHypothesis member

/-- The tokens of a text stand one behind the other. -/
theorem pairwise_tokenize (source : String) :
    (tokenize source).Pairwise fun token other => token.location.Before other.location :=
  Scanner.pairwise_scan _ _ _

end BraceLang
