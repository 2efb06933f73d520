import BraceLang.Proofs.Blame.Statement
import BraceLang.Proofs.Node.Declarations
import BraceLang.Proofs.Token.Line

/-!
# What a failure quotes

The lexeme that is found, and the expression that cannot be assigned to, come into a message as
they are written. Where all tokens but strings are lines, all newlines in a message therefore
stand inside string literals.
-/

namespace BraceLang

variable {tokens : List Token}

theorem Wanted.isLine_text (wanted : Wanted) : IsLine wanted.text := by
  cases wanted <;> decide

theorem Body.isLine_text (body : Body) : IsLine body.text := by
  cases body <;> decide

theorem Position.isLine_text (position : Position) : IsLine position.text := by
  cases position with
  | before body => exact .append (.ofList (by decide)) body.isLine_text
  | after body => exact .append (.ofList (by decide)) body.isLine_text
  | _ => decide

namespace Quotes

/-- What is put between two lines is all that is quoted. -/
theorem between {before text after : String} (quotes : Quotes tokens text) (opens : IsLine before)
    (closes : IsLine after) : Quotes tokens (before ++ text ++ after) :=
  ((line opens).append quotes).append (line closes)

/-- A string is quoted with its quotes. -/
theorem string {body : String} {location : Location}
    (member : (Lexeme.mk .string body).token location ∈ tokens) :
    Quotes tokens ("\"" ++ body ++ "\"") := by
  have spelled : String.ofList ((Lexeme.mk .string body).token location).spelling =
      "\"" ++ body ++ "\"" := by
    rw [← String.toList_inj]
    simp [Lexeme.spelling, Lexeme.token]
  exact spelled ▸ literal member rfl

theorem textOfArgs {args : List Node} (each : ∀ arg ∈ args, Quotes tokens arg.text) :
    Quotes tokens (Node.textOfArgs args) := by
  induction args with
  | nil => exact .line (by decide : IsLine "")
  | cons arg args inductionHypothesis =>
      obtain ⟨first, others⟩ := List.forall_mem_cons.mp each
      cases args with
      | nil => exact first
      | cons => exact (first.append (.line (by decide))).append (inductionHypothesis others)

end Quotes

namespace OnlyStringsBreak

variable (only : OnlyStringsBreak tokens)

include only

theorem quotes_of_mem {lexeme : Lexeme} {location : Location}
    (member : lexeme.token location ∈ tokens) (plain : lexeme.kind ≠ .string) :
    Quotes tokens lexeme.text :=
  .line (only _ member plain)

theorem quotes_describe {lexeme : Lexeme} (found : lexeme.FoundIn tokens) :
    Quotes tokens lexeme.describe := by
  have ended : Quotes tokens "end of input" := .line (by decide)
  rcases found with rfl | ⟨location, member⟩
  · exact ended
  · obtain ⟨kind, text⟩ := lexeme
    have plain (other : kind ≠ .string) : Quotes tokens text := only.quotes_of_mem member other
    cases kind with
    | endOfInput => exact ended
    | string =>
        have written : Lexeme.describe ⟨.string, text⟩ =
            "string literal " ++ ("\"" ++ text ++ "\"") := by
          simp [Lexeme.describe, ← String.append_assoc]
        exact written ▸ (Quotes.line (by decide)).append (.string member)
    | number => exact (Quotes.line (by decide)).append (plain (by decide))
    | _ => exact (plain (by decide)).between (by decide) (by decide)

theorem quotes_name {name : String} (found : (Lexeme.name name).FoundIn tokens) :
    Quotes tokens name := by
  rcases found with ended | ⟨location, member⟩
  · exact Kind.noConfusion (congrArg Lexeme.kind ended)
  · exact only.quotes_of_mem member Kind.noConfusion

/-- Expressions are written with their tokens. -/
theorem quotes_text {phrase : Grammar.Phrase} {used : List Token} {value : phrase.Tree}
    (derived : Grammar.Derives phrase used value) (inside : used ⊆ tokens) :
    ∀ node ∈ phrase.nodes value, Quotes tokens node.text := by
  have mark (op : BinaryOp) : IsLine op.symbol := by cases op <;> decide
  have space : Quotes tokens " " := .line (by decide)
  induction derived with
  | operation _ inductionHypothesis
  | operand _ inductionHypothesis
  | innermost _ inductionHypothesis
  | unsigned _ inductionHypothesis
  | unstepped _ inductionHypothesis
  | chained _ inductionHypothesis => exact inductionHypothesis inside
  | parenthesized _ _ _ inductionHypothesis =>
      have behind := (List.cons_subset.mp inside).2
      exact inductionHypothesis (List.append_subset.mp behind).1
  | noArguments | noFurtherArguments => exact List.forall_mem_nil _
  | arguments _ _ first others =>
      obtain ⟨front, back⟩ := List.append_subset.mp inside
      exact List.forall_mem_append.mpr ⟨first front, others back⟩
  | furtherArguments _ _ _ first others =>
      obtain ⟨front, back⟩ := List.append_subset.mp (List.cons_subset.mp inside).2
      exact List.forall_mem_append.mpr ⟨first front, others back⟩
  | number | name =>
      have here := inside (List.mem_singleton_self _)
      exact List.forall_mem_singleton.mpr (only.quotes_of_mem here Kind.noConfusion)
  | string =>
      exact List.forall_mem_singleton.mpr (.string (inside (List.mem_singleton_self _)))
  | assignment _ _ _ _ target value =>
      obtain ⟨left, rest⟩ := List.append_subset.mp inside
      have targetQuotes := List.forall_mem_singleton.mp (target left)
      have valueQuotes := List.forall_mem_singleton.mp (value (List.cons_subset.mp rest).2)
      exact List.forall_mem_singleton.mpr ((targetQuotes.append (.line (by decide))).append
        valueQuotes)
  | @joined _ _ _ _ _ op _ _ _ _ _ _ leftHypothesis rightHypothesis =>
      obtain ⟨left, rest⟩ := List.append_subset.mp inside
      have leftQuotes := List.forall_mem_singleton.mp (leftHypothesis left)
      have rightQuotes := List.forall_mem_singleton.mp
        (rightHypothesis (List.cons_subset.mp rest).2)
      have opened := (Quotes.line (by decide : IsLine "(")).append leftQuotes
      have joined := ((opened.append space).append (.line (mark op))).append space
      exact List.forall_mem_singleton.mpr ((joined.append rightQuotes).append (.line (by decide)))
  | negated _ _ operand | inverted _ _ operand =>
      have quotes := List.forall_mem_singleton.mp (operand (List.cons_subset.mp inside).2)
      exact List.forall_mem_singleton.mpr ((Quotes.line (by decide)).append quotes)
  | incremented _ _ operand | decremented _ _ operand =>
      have quotes := List.forall_mem_singleton.mp (operand (List.append_subset.mp inside).1)
      exact List.forall_mem_singleton.mpr (quotes.append (.line (by decide)))
  | field _ _ _ _ base =>
      obtain ⟨front, rest⟩ := List.append_subset.mp inside
      have quotes := List.forall_mem_singleton.mp (base front)
      have named := only.quotes_of_mem
        (List.cons_subset.mp (List.cons_subset.mp rest).2).1 Kind.noConfusion
      exact List.forall_mem_singleton.mpr ((quotes.append (.line (by decide))).append named)
  | call _ _ _ _ base args =>
      obtain ⟨front, rest⟩ := List.append_subset.mp inside
      have quotes := List.forall_mem_singleton.mp (base front)
      have argsQuote := Quotes.textOfArgs
        (args (List.append_subset.mp (List.cons_subset.mp rest).2).1)
      exact List.forall_mem_singleton.mpr
        (((quotes.append (.line (by decide))).append argsQuote).append (.line (by decide)))

/-- What is said about a cause quotes the tokens that the cause speaks of. -/
theorem quotes_cause {cause : Cause} (spoken : cause.SpeaksOf tokens) :
    Quotes tokens cause.text := by
  cases cause with
  | missing wanted position found =>
      have asked : IsLine ("Expected " ++ wanted.text ++ " " ++ position.text ++ ", found ") :=
        .append (.append (.append (.append (.ofList (by decide)) wanted.isLine_text)
          (.ofList (by decide))) position.isLine_text) (.ofList (by decide))
      exact (Quotes.line asked).append (only.quotes_describe spoken)
  | noExpression found =>
      exact (Quotes.line (.ofList (by decide))).append (only.quotes_describe spoken)
  | badTarget written =>
      obtain ⟨used, target, inside, derived, rfl⟩ := spoken
      have quotes := List.forall_mem_singleton.mp (only.quotes_text derived inside)
      exact quotes.between (.ofList (by decide)) (.ofList (by decide))
  | missingReturnType method className =>
      have ofMethod := (only.quotes_name spoken.1).between
        (.ofList (by decide) : IsLine "Expected return type for method '")
        (.ofList (by decide) : IsLine "' in class '")
      exact (ofMethod.append (only.quotes_name spoken.2)).append (.line (.ofList (by decide)))
  | noMember className found =>
      have ofClass := (only.quotes_name spoken.1).between
        (.ofList (by decide) : IsLine "Expected member of class '")
        (.ofList (by decide) : IsLine "', found ")
      exact ofClass.append (only.quotes_describe spoken.2)

end OnlyStringsBreak

end BraceLang
