import BraceLang.Proofs.Node.Shape
import BraceLang.Proofs.Resolution.Typing

/-!
# The token a node stands at

Each node but a block is placed at one token of its text: at the operator between or beside its
operands, at the parenthesis of a call, at the word or the type that it begins with. `lead?` is
the lexeme of that token. A tree points into tokens if each of its nodes stands at such a token
among them; what is found wrong in an expression is then placed at a token that it speaks of.
-/

namespace BraceLang

/-- The lexeme of the token that a node stands at. A block stands at none of its own. -/
def Node.lead? : Node → Option Lexeme
  | .variableDecl type _ _ _ => some (.type type)
  | .methodDecl (some type) _ _ _ _ => some (.type type)
  | .methodDecl none name _ _ _ => some (.name name)
  | .classDecl _ _ _ _ => some (.keyword "class")
  | .block _ _ => none
  | .ifStmt _ _ _ _ => some (.keyword "if")
  | .whileStmt _ _ _ => some (.keyword "while")
  | .forStmt _ _ _ _ _ => some (.keyword "for")
  | .returnStmt _ _ => some (.keyword "return")
  | .breakStmt _ => some (.keyword "break")
  | .continueStmt _ => some (.keyword "continue")
  | .assignment _ _ _ => some (.op "=")
  | .binary op _ _ _ => some op.lexeme
  | .unary op _ _ => some (.op op.symbol)
  | .step op _ _ => some (.op op.symbol)
  | .call _ _ _ => some (.op "(")
  | .field _ _ _ => some (.op ".")
  | .reference name _ => some (.name name)
  | .number digits _ => some ⟨.number, digits⟩
  | .string body _ => some ⟨.string, body⟩

namespace Node

variable {tokens : List Token} {node child : Node}

/-- Whether a node stands at its token, and that is one of `tokens`. -/
def PointsInto (tokens : List Token) (node : Node) : Prop :=
  ∃ lexeme, node.lead? = some lexeme ∧ lexeme.token node.location ∈ tokens

/-- Whether all nodes of a tree stand at tokens among `tokens`. -/
def PointsThroughout (tokens : List Token) (node : Node) : Prop :=
  ∀ part ∈ node.preorder, part.PointsInto tokens

theorem PointsThroughout.of_children (points : node.PointsInto tokens)
    (below : ∀ child ∈ node.children, child.PointsThroughout tokens) :
    node.PointsThroughout tokens :=
  forall_preorder points below

theorem PointsThroughout.here (points : node.PointsThroughout tokens) : node.PointsInto tokens :=
  points node (List.mem_cons_self ..)

theorem PointsThroughout.below (points : node.PointsThroughout tokens)
    (member : child ∈ node.children) : child.PointsThroughout tokens :=
  fun part inside => points part (mem_preorder_of_mem_children member inside)

theorem PointsInto.at_lead {lexeme : Lexeme} (points : node.PointsInto tokens)
    (leads : node.lead? = some lexeme) : lexeme.token node.location ∈ tokens := by
  obtain ⟨other, found, member⟩ := points
  obtain rfl := Option.some.inj (leads.symm.trans found)
  exact member

end Node

namespace Grammar

theorem Joins.lexeme_eq {level : Level} {lexeme : Lexeme} {op : BinaryOp}
    (joins : Joins level lexeme op) : lexeme = op.lexeme := by
  cases joins <;> rfl

/-- All nodes of an expression stand at tokens of its text. -/
theorem Derives.points {phrase : Phrase} {used tokens : List Token} {value : phrase.Tree}
    (derived : Derives phrase used value) (inside : used ⊆ tokens) :
    ∀ node ∈ phrase.nodes value, node.PointsThroughout tokens := by
  induction derived with
  | operation _ inductionHypothesis
  | operand _ inductionHypothesis
  | innermost _ inductionHypothesis
  | unsigned _ inductionHypothesis
  | unstepped _ inductionHypothesis
  | chained _ inductionHypothesis => exact inductionHypothesis inside
  | parenthesized _ _ _ inductionHypothesis =>
      have behind := (List.cons_subset.mp inside).2
      exact inductionHypothesis (List.append_subset.mp behind).1
  | noArguments | noFurtherArguments => exact List.forall_mem_nil _
  | arguments _ _ firstPoints othersPoint =>
      obtain ⟨front, back⟩ := List.append_subset.mp inside
      exact List.forall_mem_append.mpr ⟨firstPoints front, othersPoint back⟩
  | furtherArguments _ _ _ firstPoints othersPoint =>
      obtain ⟨front, back⟩ := List.append_subset.mp (List.cons_subset.mp inside).2
      exact List.forall_mem_append.mpr ⟨firstPoints front, othersPoint back⟩
  | number | string | name =>
      have here := inside (List.mem_singleton_self _)
      exact List.forall_mem_singleton.mpr (.of_children ⟨_, rfl, here⟩ (List.forall_mem_nil _))
  | assignment _ _ _ _ targetPoints valuePoints =>
      obtain ⟨left, rest⟩ := List.append_subset.mp inside
      obtain ⟨sign, right⟩ := List.cons_subset.mp rest
      exact List.forall_mem_singleton.mpr (.of_children ⟨_, rfl, sign⟩
        (List.forall_mem_append.mpr ⟨targetPoints left, valuePoints right⟩))
  | joined _ joins _ _ leftPoints rightPoints =>
      obtain ⟨left, rest⟩ := List.append_subset.mp inside
      obtain ⟨sign, right⟩ := List.cons_subset.mp rest
      exact List.forall_mem_singleton.mpr (.of_children ⟨_, rfl, joins.lexeme_eq ▸ sign⟩
        (List.forall_mem_append.mpr ⟨leftPoints left, rightPoints right⟩))
  | negated _ _ operandPoints
  | inverted _ _ operandPoints =>
      obtain ⟨sign, rest⟩ := List.cons_subset.mp inside
      exact List.forall_mem_singleton.mpr (.of_children ⟨_, rfl, sign⟩ (operandPoints rest))
  | incremented _ _ operandPoints
  | decremented _ _ operandPoints =>
      obtain ⟨front, sign⟩ := List.append_subset.mp inside
      exact List.forall_mem_singleton.mpr (.of_children
        ⟨_, rfl, sign (List.mem_singleton_self _)⟩ (operandPoints front))
  | field _ _ _ _ basePoints =>
      obtain ⟨front, rest⟩ := List.append_subset.mp inside
      exact List.forall_mem_singleton.mpr (.of_children
        ⟨_, rfl, (List.cons_subset.mp rest).1⟩ (basePoints front))
  | call _ _ _ _ basePoints argsPoint =>
      obtain ⟨front, rest⟩ := List.append_subset.mp inside
      obtain ⟨opening, back⟩ := List.cons_subset.mp rest
      exact List.forall_mem_singleton.mpr (.of_children ⟨_, rfl, opening⟩
        (List.forall_mem_append.mpr
          ⟨basePoints front, argsPoint (List.append_subset.mp back).1⟩))

end Grammar

/-- An operator between two operands is a comparison or another operator. -/
theorem BinaryOp.kind_lexeme (op : BinaryOp) :
    op.lexeme.kind = .operator ∨ op.lexeme.kind = .comparison := by
  cases op <;> decide

/-- Whether a diagnostic stands at a token among `tokens` that it speaks of: a name, or the
operator between operands. -/
def Diagnostic.PointsInto (tokens : List Token) : Diagnostic → Prop
  | .redeclared name location => (Lexeme.name name).token location ∈ tokens
  | .undeclared name location => (Lexeme.name name).token location ∈ tokens
  | .mismatch _ _ _ _ => True
  | .incompatible op _ _ location =>
    ∃ kind, (kind = .operator ∨ kind = .comparison) ∧ (Lexeme.mk kind op).token location ∈ tokens

namespace Node

variable {tokens : List Token} {declared : String → Option String}

theorem forall_mem_findingsOfArgs {holds : Diagnostic → Prop} {args : List Node}
    (each : ∀ arg ∈ args, ∀ found ∈ (arg.typed declared).diagnostics, holds found) :
    ∀ found ∈ findingsOfArgs declared args, holds found := by
  induction args with
  | nil => exact List.forall_mem_nil _
  | cons arg args inductionHypothesis =>
      obtain ⟨first, others⟩ := List.forall_mem_cons.mp each
      exact List.forall_mem_append.mpr ⟨first, inductionHypothesis others⟩

/-- What is wrong in a tree that points into tokens points into them. -/
theorem PointsThroughout.typed {node : Node} (points : node.PointsThroughout tokens) :
    ∀ found ∈ (node.typed declared).diagnostics, found.PointsInto tokens := by
  induction node using induction_children with
  | step node inductionHypothesis =>
      have here := points.here
      have below : ∀ child ∈ node.children, ∀ found ∈ (child.typed declared).diagnostics,
          found.PointsInto tokens :=
        fun child member => inductionHypothesis child member (points.below member)
      cases node with
      | reference name location =>
          rw [Node.typed]
          cases declared name with
          | some => exact List.forall_mem_nil _
          | none => exact List.forall_mem_singleton.mpr (here.at_lead rfl)
      | binary op left right location =>
          obtain ⟨leftPoints, others⟩ := List.forall_mem_cons.mp below
          have rightPoints := List.forall_mem_singleton.mp others
          refine List.forall_mem_append.mpr
            ⟨List.forall_mem_append.mpr ⟨leftPoints, rightPoints⟩, ?_⟩
          split
          · exact List.forall_mem_nil _
          · exact List.forall_mem_singleton.mpr ⟨_, op.kind_lexeme, here.at_lead rfl⟩
      | unary | step | field => exact List.forall_mem_singleton.mp below
      | assignment target value location =>
          obtain ⟨targetPoints, others⟩ := List.forall_mem_cons.mp below
          have valuePoints := List.forall_mem_singleton.mp others
          refine List.forall_mem_append.mpr
            ⟨List.forall_mem_append.mpr ⟨targetPoints, valuePoints⟩, ?_⟩
          split
          · exact List.forall_mem_nil _
          · exact List.forall_mem_singleton.mpr trivial
      | call callee args location =>
          obtain ⟨calleePoints, argsPoint⟩ := List.forall_mem_cons.mp below
          exact List.forall_mem_append.mpr ⟨calleePoints, forall_mem_findingsOfArgs argsPoint⟩
      | _ => exact List.forall_mem_nil _

end Node
end BraceLang
