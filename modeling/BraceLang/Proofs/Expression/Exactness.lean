import BraceLang.Proofs.Expression.Completeness
import BraceLang.Session

/-!
# Reading an expression is exact

The reader of expressions and the grammar of expressions agree wherever the
reading starts: what is read is derived by the tokens taken, and what is derived
is read when the token behind it does not let it go on. Reading an expression
writes no script, so whether it succeeds or fails it opens no scope, binds no
name and reports nothing.
-/

namespace BraceLang.Grammar

open Reader

/-- The expressions read at the front of any tokens are those that the grammar derives
there. Whether one is read or not, nothing is written into the script, and so every
session stays as it is. -/
theorem expression_reads_exactly (stop : Terminator) (ahead : List Token) :
    (∀ node rest, expression stop ahead = .ok (node, rest) →
      ∃ used, ahead = used ++ rest ∧ Derives .expression used node) ∧
    (∀ used node rest, ahead = used ++ rest → Derives .expression used node →
      (∀ lexeme ∈ continuations, ¬ lexeme.Starts rest) →
        expression stop ahead = .ok (node, rest)) ∧
    ((liftM expression : Scripted Node) stop ahead).script = [] ∧
    ∀ session : Session,
      session.run ((liftM expression : Scripted Node) stop ahead).script = session ∧
      session.diagnostics ((liftM expression : Scripted Node) stop ahead).script = [] := by
  refine ⟨fun node rest reads => sound_expression reads, ?_, rfl, fun session => ⟨rfl, rfl⟩⟩
  rintro used node rest rfl derived ends
  exact reads_expression derived (expression_ends_iff.mpr ends)

/-- `x = a - b - c * -f(1).d ;` is read up to its semicolon, leaning to the left. -/
theorem expression_reads_assignment :
    let place (column : Nat) : Location := ⟨1, column⟩
    let name (text : String) (column : Nat) : Token := (Lexeme.name text).token (place column)
    let op (text : String) (column : Nat) : Token := (Lexeme.op text).token (place column)
    expression ⟨place 40, []⟩
      [name "x" 1, op "=" 2, name "a" 3, op "-" 4, name "b" 5, op "-" 6, name "c" 7, op "*" 8,
       op "-" 9, name "f" 10, op "(" 11, (Lexeme.mk .number "1").token (place 12), op ")" 13,
       op "." 14, name "d" 15, Lexeme.semicolon.token (place 16)] =
    .ok (.assignment (.reference "x" (place 1))
      (.binary .sub
        (.binary .sub (.reference "a" (place 3)) (.reference "b" (place 5)) (place 4))
        (.binary .mul (.reference "c" (place 7))
          (.unary .negate (.field (.call (.reference "f" (place 10))
            [.number "1" (place 12)] (place 11)) "d" (place 14)) (place 9)) (place 8)) (place 6))
      (place 2), [Lexeme.semicolon.token (place 16)]) := by
  intro place name op
  have reference (text : String) (column : Nat) : Derives (.operation []) [name text column]
      (.reference text (place column)) :=
    .innermost (.unsigned (.unstepped (.chained (.name text (place column)))))
  have number : Derives .unary [(Lexeme.mk .number "1").token (place 12)]
      (.number "1" (place 12)) :=
    .unsigned (.unstepped (.number "1" (place 12)))
  have argument : Derives .arguments [(Lexeme.mk .number "1").token (place 12)]
      [.number "1" (place 12)] :=
    .arguments (.operation (.operand (.operand (.operand (.operand (.innermost number))))))
      .noFurtherArguments
  have called := Derives.call (place 11) (place 13) (.name "f" (place 10)) argument
  have negated := Derives.negated (place 9) (.unsigned (.unstepped (.chained
    (.field (place 14) "d" (place 15) called))))
  have product := Derives.joined (place 8) .mul (.operand (reference "c" 7)) (.innermost negated)
  have difference := Derives.joined (place 6) .sub
    (.joined (place 4) .sub (.operand (.operand (reference "a" 3))) (.operand (reference "b" 5)))
    product
  have derived := Derives.assignment (place 2)
    (.operand (.operand (.operand (.operand (reference "x" 1))))) (.reference "x" (place 1))
    (.operation (.operand (.operand difference)))
  have ends : ∀ lexeme ∈ continuations, ¬ lexeme.Starts [Lexeme.semicolon.token (place 16)] := by
    simp [continuations, Lexeme.op, Lexeme.semicolon]
  exact (expression_reads_exactly _ _).2.1 _ _ _ rfl derived ends

end BraceLang.Grammar
