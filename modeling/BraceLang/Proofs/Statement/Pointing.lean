import BraceLang.Proofs.Node.Declarations
import BraceLang.Proofs.Node.Lead

/-!
# What is read points into its text

Every tree that statements yield stands at a token of their text, and so do all nodes below it;
every step they write declares a name that stands at its place, or has such a tree typed. The
parts of a construct are read one behind the other, so what is said of them adds up from the
front to the back, and the tokens behind the last are among those that the first began with.
-/

namespace BraceLang

variable {tokens : List Token}

/-- Whether a step declares a name that stands at its place, or has a tree typed that points into
tokens. -/
def Step.PointsInto (tokens : List Token) : Step → Prop
  | .declare symbol location => (Lexeme.name symbol.name).token location ∈ tokens
  | .check expression => expression.PointsThroughout tokens
  | .initial _ _ value => value.PointsThroughout tokens
  | _ => True

namespace Grammar

/-- A script and trees that point into tokens, with tokens behind them that are among those. -/
structure Points (tokens : List Token) (script : List Step) (nodes : List Node)
    (rest : List Token) : Prop where
  steps : ∀ step ∈ script, step.PointsInto tokens
  trees : ∀ node ∈ nodes, node.PointsThroughout tokens
  behind : rest ⊆ tokens

namespace Points

variable {ahead middle rest : List Token} {front back script : List Step}
  {nodes others : List Node}

theorem nothing (inside : rest ⊆ tokens) : Points tokens [] [] rest :=
  ⟨List.forall_mem_nil _, List.forall_mem_nil _, inside⟩

theorem append (first : Points tokens front nodes middle)
    (second : Points tokens back others rest) :
    Points tokens (front ++ back) (nodes ++ others) rest :=
  ⟨List.forall_mem_append.mpr ⟨first.steps, second.steps⟩,
    List.forall_mem_append.mpr ⟨first.trees, second.trees⟩, second.behind⟩

theorem cons {step : Step} (here : step.PointsInto tokens)
    (points : Points tokens script nodes rest) : Points tokens (step :: script) nodes rest :=
  ⟨List.forall_mem_cons.mpr ⟨here, points.steps⟩, points.trees, points.behind⟩

/-- What points into tokens does so with its scope left behind it. -/
theorem leaving (points : Points tokens script nodes rest) :
    Points tokens (script ++ [.leave]) nodes rest :=
  ⟨List.forall_mem_append.mpr ⟨points.steps, List.forall_mem_singleton.mpr trivial⟩,
    points.trees, points.behind⟩

/-- An expression that is typed where it stands. -/
theorem check {node : Node} (point : node.PointsThroughout tokens) (inside : rest ⊆ tokens) :
    Points tokens [.check node] [node] rest :=
  ⟨List.forall_mem_singleton.mpr point, List.forall_mem_singleton.mpr point, inside⟩

/-- A node at a token over trees that point into the tokens. -/
theorem parent {node : Node} (points : Points tokens script nodes rest)
    (here : node.PointsInto tokens) (below : node.children ⊆ nodes) :
    Points tokens script [node] rest :=
  ⟨points.steps,
    List.forall_mem_singleton.mpr
      (.of_children here fun child member => points.trees child (below member)),
    points.behind⟩

end Points

section Parts

variable {ahead rest : List Token} {script : List Step}

theorem Derives.pointsThroughout {used : List Token} {node : Node}
    (derived : Derives .expression used node) (inside : used ⊆ tokens) :
    node.PointsThroughout tokens :=
  derived.points inside node (List.mem_singleton_self _)

theorem TakesClause.points {closing : Lexeme} {value : Option Node}
    (taken : TakesClause closing ahead script value rest) (inside : ahead ⊆ tokens) :
    Points tokens script value.toList rest := by
  cases taken with
  | absent => exact .nothing (List.cons_subset.mp inside).2
  | present derived =>
      obtain ⟨front, back⟩ := List.append_subset.mp inside
      exact .check (derived.pointsThroughout front) (List.cons_subset.mp back).2

theorem TakesVariable.points {node : Node} (taken : TakesVariable ahead script node rest)
    (inside : ahead ⊆ tokens) : Points tokens script [node] rest := by
  cases taken with
  | plain =>
      simp only [List.cons_subset] at inside
      obtain ⟨type, name, -, behind⟩ := inside
      exact .parent (.cons name (.nothing behind)) ⟨_, rfl, type⟩ (List.Subset.refl _)
  | initialized _ _ _ _ _ _ derived =>
      simp only [List.cons_subset, List.append_subset] at inside
      obtain ⟨type, name, -, used, -, behind⟩ := inside
      have value := derived.pointsThroughout used
      have initial := List.forall_mem_singleton.mpr value
      exact .parent (.cons name ⟨List.forall_mem_singleton.mpr value, initial, behind⟩)
        ⟨_, rfl, type⟩ (List.Subset.refl _)

theorem TakesInitializer.points {init : Option Node}
    (taken : TakesInitializer ahead script init rest) (inside : ahead ⊆ tokens) :
    Points tokens script init.toList rest := by
  cases taken with
  | clause taken => exact taken.points inside
  | declared taken => exact taken.points inside

theorem TakesFurtherParameters.points {params : List Param}
    (taken : TakesFurtherParameters ahead script params rest) (inside : ahead ⊆ tokens) :
    Points tokens script [] rest := by
  induction taken with
  | closed => exact .nothing (List.cons_subset.mp inside).2
  | next _ _ _ _ _ _ inductionHypothesis =>
      simp only [List.cons_subset] at inside
      obtain ⟨-, -, name, behind⟩ := inside
      exact (inductionHypothesis behind).cons name

theorem TakesParameters.points {params : List Param}
    (taken : TakesParameters ahead script params rest) (inside : ahead ⊆ tokens) :
    Points tokens script [] rest := by
  cases taken with
  | none => exact .nothing (List.cons_subset.mp inside).2
  | some _ _ _ _ others =>
      simp only [List.cons_subset] at inside
      obtain ⟨-, name, behind⟩ := inside
      exact (others.points behind).cons name

theorem points_mark (inside : rest ⊆ tokens) : Points tokens (mark ahead) [] rest := by
  cases ahead with
  | nil => exact .nothing inside
  | cons => exact (Points.nothing inside).cons trivial

end Parts

/-- Whether the type in front of a method, if it has one, is among tokens. Nothing is in front of
any other construct. -/
def Construct.Led (tokens : List Token) : Construct → Prop
  | .method (some type) => (Lexeme.type type.text).token type.location ∈ tokens
  | _ => True

/-- Whatever a construct yields and writes points into its text. -/
theorem Takes.points {construct : Construct} {ahead rest : List Token} {script : List Step}
    {value : construct.Yield} (taken : Takes construct ahead script value rest)
    (inside : ahead ⊆ tokens) (led : construct.Led tokens) :
    Points tokens script (construct.nodes value) rest := by
  induction taken with
  | statement _ inductionHypothesis =>
      exact (points_mark inside).append (inductionHypothesis inside trivial)
  | declared taken => exact taken.points inside
  | method _ _ _ inductionHypothesis =>
      obtain ⟨type, behind⟩ := List.cons_subset.mp inside
      exact inductionHypothesis behind type
  | expression _ _ _ derived =>
      simp only [List.cons_subset, List.append_subset] at inside
      obtain ⟨name, used, -, behind⟩ := inside
      exact .check (derived.pointsThroughout (List.cons_subset.mpr ⟨name, used⟩)) behind
  | conditional _ inductionHypothesis => exact inductionHypothesis inside trivial
  | whileLoop _ _ _ _ guarded _ inductionHypothesis =>
      simp only [List.cons_subset, List.append_subset] at inside
      obtain ⟨word, -, used, -, -, ahead⟩ := inside
      have guard := Points.check (guarded.pointsThroughout used) ahead
      have body := (inductionHypothesis ahead trivial).leaving
      exact .parent (guard.append (.cons trivial body)) ⟨_, rfl, word⟩ (List.Subset.refl _)
  | forLoop _ _ _ initTaken guardTaken updateTaken _ inductionHypothesis =>
      simp only [List.cons_subset] at inside
      obtain ⟨word, -, ahead⟩ := inside
      have init := initTaken.points ahead
      have guard := guardTaken.points init.behind
      have update := updateTaken.points guard.behind
      have body := inductionHypothesis (List.cons_subset.mp update.behind).2 trivial
      have clauses := init.append (guard.append (update.append body.leaving))
      exact .parent (.cons trivial clauses) ⟨_, rfl, word⟩ (List.Subset.refl _)
  | returned _ taken =>
      obtain ⟨word, ahead⟩ := List.cons_subset.mp inside
      exact (taken.points ahead).parent ⟨_, rfl, word⟩ (List.Subset.refl _)
  | closedJump jumps =>
      simp only [List.cons_subset] at inside
      obtain ⟨word, -, behind⟩ := inside
      cases jumps <;> exact (Points.nothing behind).parent ⟨_, rfl, word⟩ (List.Subset.refl _)
  | openJump jumps =>
      obtain ⟨word, behind⟩ := List.cons_subset.mp inside
      cases jumps <;> exact (Points.nothing behind).parent ⟨_, rfl, word⟩ (List.Subset.refl _)
  | @classBody _ _ _ _ _ _ _ members _ inductionHypothesis =>
      simp only [List.cons_subset] at inside
      obtain ⟨word, name, -, ahead⟩ := inside
      have body := (inductionHypothesis ahead trivial).leaving
      -- A class keeps its fields in front of its methods, but they are the same members.
      exact .parent (.cons name (.cons trivial body)) ⟨_, rfl, word⟩
        (Member.nodes_perm members).subset
  | opened | closed => exact .cons trivial (.nothing (List.cons_subset.mp inside).2)
  | idle | bodyEnd | membersEnd => exact .nothing (List.cons_subset.mp inside).2
  | noElse => exact .nothing inside
  | arm _ _ _ _ guarded _ _ bodyPoints othersPoint =>
      simp only [List.cons_subset, List.append_subset] at inside
      obtain ⟨word, -, used, -, -, ahead⟩ := inside
      have guard := Points.check (guarded.pointsThroughout used) ahead
      have body := bodyPoints ahead trivial
      have others := othersPoint body.behind trivial
      exact .parent (guard.append (.cons trivial (body.append (.cons trivial others))))
        ⟨_, rfl, word⟩ (List.Subset.refl _)
  | elseBody _ _ _ inductionHypothesis =>
      simp only [List.cons_subset] at inside
      obtain ⟨-, -, ahead⟩ := inside
      exact .cons trivial (inductionHypothesis ahead trivial).leaving
  | elseIf _ _ inductionHypothesis =>
      exact inductionHypothesis (List.cons_subset.mp inside).2 trivial
  | methodRest returnType _ _ _ _ paramsTaken _ inductionHypothesis =>
      simp only [List.cons_subset] at inside
      obtain ⟨name, -, ahead⟩ := inside
      have params := paramsTaken.points ahead
      have body := inductionHypothesis (List.cons_subset.mp params.behind).2 trivial
      refine .parent (.cons name (.cons trivial (params.append body.leaving))) ?_
        (List.Subset.refl _)
      cases returnType with
      | none => exact ⟨_, rfl, name⟩
      | some => exact ⟨_, rfl, led⟩
  | bodyItem _ _ _ firstPoints othersPoint =>
      have first := firstPoints inside trivial
      exact first.append (othersPoint first.behind trivial)
  | field _ taken _ inductionHypothesis =>
      have field := taken.points (List.append_subset.mp inside).2
      exact field.append (inductionHypothesis field.behind trivial)
  | typedMethod _ _ _ _ _ methodPoints othersPoint =>
      obtain ⟨type, ahead⟩ := List.cons_subset.mp (List.append_subset.mp inside).2
      have method := methodPoints ahead type
      exact method.append (othersPoint method.behind trivial)
  | constructor _ _ _ _ methodPoints othersPoint =>
      have method := methodPoints (List.append_subset.mp inside).2 trivial
      exact method.append (othersPoint method.behind trivial)

/-- Whatever a program yields and writes points into its text. -/
theorem TakesProgram.points {ahead : List Token} {script : List Step} {items : List Item}
    (taken : TakesProgram ahead script items) (inside : ahead ⊆ tokens) :
    Points tokens script (items.flatMap Item.nodes) [] := by
  induction taken with
  | nil => exact .nothing inside
  | cons first _ inductionHypothesis =>
      have here := first.points inside trivial
      exact here.append (inductionHypothesis here.behind)

end Grammar
end BraceLang
