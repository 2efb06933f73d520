import BraceLang.Proofs.Statement.Completeness
import BraceLang.Proofs.Statement.Exchange
import BraceLang.Proofs.Statement.Extension

/-!
# A conditional behind an `else` may stand in braces

An else branch is either a body or another conditional. Put in braces, that conditional is a
body with one statement in it, and the tree is the same. Its script is the same up to its marks,
but for a block that is entered in front of the conditional and left behind it.

All constructs around the branch take the same tokens as before, in front of it and behind it.
Those that end in front of the `else` do not see the difference; one that goes on past it holds
the difference in one of its parts.
-/

namespace BraceLang

/-- The steps with which a block is opened and closed, by a construct or by lone braces. -/
inductive Encloses : (opens closes : Step) → Prop where
  | construct : Encloses (.enter .block) .leave
  | braces : Encloses .openBlock .closeBlock

/-- A script, and the same with the steps of `inner` put in a block of their own. -/
inductive Boxed (inner : List Step) : (script boxed : List Step) → Prop where
  | box (front back : List Step) {opens closes : Step} (encloses : Encloses opens closes) :
      Boxed inner (front ++ (inner ++ back)) (front ++ opens :: (inner ++ closes :: back))

theorem Boxed.framed {inner script boxed : List Step} (box : Boxed inner script boxed)
    (front back : List Step) :
    Boxed inner (front ++ (script ++ back)) (front ++ (boxed ++ back)) := by
  cases box with
  | box before after encloses =>
      have whole : Boxed inner _ _ := .box (front ++ before) (after ++ back) encloses
      simpa using whole

section Marked

variable {inner script boxed : List Step} (box : Boxed inner (unmarked script) (unmarked boxed))
include box

/-- Behind steps that are the same up to their marks. -/
theorem Boxed.behind {front exchanged : List Step} (same : unmarked exchanged = unmarked front) :
    Boxed inner (unmarked (front ++ script)) (unmarked (exchanged ++ boxed)) := by
  simpa [same] using box.framed (unmarked front) []

theorem Boxed.preceded (front : List Step) :
    Boxed inner (unmarked (front ++ script)) (unmarked (front ++ boxed)) :=
  box.behind rfl

theorem Boxed.followed (back : List Step) :
    Boxed inner (unmarked (script ++ back)) (unmarked (boxed ++ back)) := by
  simpa using box.framed [] (unmarked back)

end Marked

namespace Grammar

/-- An `else` with the conditional behind it and what stands behind that, and the places of
braces around the conditional. -/
structure ElseIf where
  word : Location
  opening : Location
  closing : Location
  used : List Token
  back : List Token

namespace ElseIf

/-- The `else` with the conditional right behind it. -/
def plain (turn : ElseIf) : List Token :=
  (Lexeme.keyword "else").token turn.word :: (turn.used ++ turn.back)

/-- The `else` with the conditional in braces. -/
def braced (turn : ElseIf) : List Token :=
  (Lexeme.keyword "else").token turn.word :: (Lexeme.op "\x7b").token turn.opening ::
    (turn.used ++ (Lexeme.op "\x7d").token turn.closing :: turn.back)

variable (turn : ElseIf) {before used rest : List Token}

theorem endsLike : EndsLike turn.plain turn.braced :=
  fun _ _ starts => (Lexeme.starts_cons ..).mpr ((Lexeme.starts_cons ..).mp starts)

theorem starts_braced (before : List Token) (lexeme : Lexeme) :
    lexeme.Starts (before ++ turn.braced) ↔ lexeme.Starts (before ++ turn.plain) := by
  cases before <;> simp [plain, braced]

variable {turn}

/-- Tokens without an `else` are taken in front of the one in question. -/
theorem split_of_elseless (used : List Token) (elseless : Elseless used)
    (split : used ++ rest = before ++ turn.plain) :
    ∃ behind, before = used ++ behind ∧ rest = behind ++ turn.plain := by
  obtain found | ⟨beyond, rfl, passed⟩ := List.append_eq_append_iff.mp split
  · exact found
  · obtain _ | ⟨token, beyond⟩ := beyond
    · exact ⟨[], by simp, by simpa using passed.symm⟩
    · have first : (Lexeme.keyword "else").token turn.word = token := (List.cons.inj passed).1
      exact absurd (congrArg Token.toLexeme first).symm (elseless token (by simp))

/-- So what takes no others does not go past it. -/
theorem not_passed (used : List Token) (elseless : Elseless used)
    (split : used ++ rest = before ++ turn.plain) : ¬ rest.length < turn.plain.length := by
  obtain ⟨behind, _, rfl⟩ := split_of_elseless used elseless split
  simp

end ElseIf

theorem TakesPlainly.not_passed {takes : List Token → List Token → Prop} {turn : ElseIf}
    {ahead before rest : List Token} (plainly : TakesPlainly takes ahead rest)
    (split : ahead = before ++ turn.plain) : ¬ rest.length < turn.plain.length := by
  obtain ⟨used, rfl, elseless, _⟩ := plainly
  exact ElseIf.not_passed used elseless split

theorem elseless_of_modifies {modifiers : List Token}
    (modified : ∀ token ∈ modifiers, Modifies token) : Elseless modifiers :=
  fun token member => (modified token member).ne_else

/-- What a construct takes is in front of the `else`, and the construct takes it in front of the
other branch too, or the construct goes past the `else`. -/
theorem Takes.exchanged_or_passed {construct : Construct} {turn : ElseIf}
    {ahead before rest : List Token} {script : List Step} {value : construct.Yield}
    (taken : Takes construct ahead script value rest) (split : ahead = before ++ turn.plain) :
    (∃ behind, rest = behind ++ turn.plain ∧ ∃ exchanged,
      Takes construct (before ++ turn.braced) exchanged value (behind ++ turn.braced) ∧
        unmarked exchanged = unmarked script) ∨ rest.length < turn.plain.length := by
  obtain ⟨used, rfl, exchange⟩ := taken.exchanges
  by_cases passed : rest.length < turn.plain.length
  · exact .inr passed
  · obtain ⟨behind, rfl, rfl⟩ :
        ∃ behind, before = used ++ behind ∧ rest = behind ++ turn.plain := by
      obtain found | ⟨beyond, rfl, equal⟩ := List.append_eq_append_iff.mp split
      · exact found
      · obtain rfl : beyond = [] := by
          rw [equal, List.length_append] at passed
          exact List.eq_nil_of_length_eq_zero (by omega)
        exact ⟨[], by simp, by simpa using equal.symm⟩
    rw [List.append_assoc]
    exact .inl ⟨behind, rfl, exchange _ (turn.endsLike.append behind)⟩

/-- Statements that begin with the same tokens are the same. -/
theorem Takes.unique {ahead rest left : List Token} {script other : List Step} {item found : Item}
    (first : Takes .statement ahead script item rest)
    (second : Takes .statement ahead other found left) :
    script = other ∧ item = found ∧ rest = left := by
  have reads : Scripted.Reads _ ⟨.start, []⟩ ahead script item rest :=
    first.readable _ ahead.length (Nat.le_refl _)
  have again : Scripted.Reads _ ⟨.start, []⟩ ahead other found left :=
    second.readable _ ahead.length (Nat.le_refl _)
  obtain ⟨rfl, result⟩ := Outcome.mk.inj (reads.symm.trans again)
  obtain ⟨rfl, rfl⟩ := Prod.mk.inj (Except.ok.inj result)
  exact ⟨rfl, rfl, rfl⟩

theorem Takes.conditional_unique {ahead rest left : List Token} {script other : List Step}
    {node found : Node} (first : Takes .conditional ahead script node rest)
    (second : Takes .conditional ahead other found left) :
    script = other ∧ node = found ∧ rest = left := by
  obtain ⟨scripts, items, rests⟩ :=
    (Takes.statement first.conditional).unique (Takes.statement second.conditional)
  exact ⟨List.append_cancel_left scripts, Item.node.inj items, rests⟩

theorem Takes.starts_of_conditional {ahead rest : List Token} {script : List Step} {node : Node}
    (taken : Takes .conditional ahead script node rest) : (Lexeme.keyword "if").Starts ahead := by
  cases taken
  exact (Lexeme.starts_cons ..).mpr rfl

theorem Jumps.ne_else {word : String} {node : Location → Node} (jumps : Jumps word node) :
    word ≠ "else" := by
  cases jumps <;> decide

/-- The first statement of a body is followed by the rest of the body. -/
theorem Takes.body_behind {openBlocks : Nat} {ahead middle rest : List Token}
    {front script : List Step} {item : Item} {nodes : List Node}
    (body : Takes (.body openBlocks) ahead script nodes rest)
    (first : Takes .statement ahead front item middle)
    (unclosed : ¬ (Lexeme.op "\x7d").Starts ahead) :
    ∃ back others, Takes (.body (item.openAfter openBlocks)) middle back others rest ∧
      script = front ++ back ∧ nodes = item.nodes ++ others := by
  cases body with
  | bodyEnd => exact absurd ((Lexeme.starts_cons ..).mpr rfl) unclosed
  | bodyItem _ again others =>
      obtain ⟨rfl, rfl, rfl⟩ := again.unique first
      exact ⟨_, _, others, rfl, rfl⟩

theorem TakesProgram.behind {ahead middle : List Token} {front script : List Step} {item : Item}
    {items : List Item} (program : TakesProgram ahead script items)
    (first : Takes .statement ahead front item middle) :
    ∃ back others, TakesProgram middle back others ∧ script = front ++ back ∧
      items = item :: others := by
  cases program with
  | nil => exact absurd first.statement_length_lt (Nat.not_lt_zero _)
  | cons again others =>
      obtain ⟨rfl, rfl, rfl⟩ := again.unique first
      exact ⟨_, _, others, rfl, rfl⟩

theorem idle_else (word : Location) : Idle ((Lexeme.keyword "else").token word) := by
  refine ⟨Kind.noConfusion, Kind.noConfusion, ?_⟩
  rw [Lexeme.token_toLexeme]
  decide

/-- A conditional is not at the end of a body. -/
theorem Takes.unclosed {ahead rest : List Token} {script : List Step} {node : Node}
    (taken : Takes .conditional ahead script node rest) : ¬ (Lexeme.op "\x7d").Starts ahead := by
  obtain ⟨place, tail, rfl⟩ := taken.starts_of_conditional
  simp

section Braced

variable {turn : ElseIf} {choice : List Step} {node : Node}
  (conditional : Takes .conditional (turn.used ++ turn.back) choice node turn.back)
include conditional

/-- The conditional is taken in front of a closing brace. -/
theorem ElseIf.exchanged :
    ∃ exchanged, Takes .conditional
        (turn.used ++ (Lexeme.op "\x7d").token turn.closing :: turn.back) exchanged node
        ((Lexeme.op "\x7d").token turn.closing :: turn.back) ∧
      unmarked exchanged = unmarked choice := by
  obtain ⟨used, split, exchange⟩ := conditional.exchanges
  obtain rfl := List.append_cancel_right split
  refine exchange _ fun lexeme known starts => ?_
  rw [← (Lexeme.starts_cons ..).mp starts, Lexeme.token_toLexeme] at known
  exact absurd known (by decide)

/-- In braces the conditional is a body of its own. -/
theorem ElseIf.takes_braced :
    ∃ boxed, Takes .otherwise turn.braced boxed (some [node]) turn.back ∧
      Boxed (unmarked choice) (unmarked choice) (unmarked boxed) := by
  obtain ⟨exchanged, taken, same⟩ := ElseIf.exchanged conditional
  have body : Takes (.body 0) _ _ [node] turn.back :=
    .bodyItem (fun _ => taken.unclosed) (.statement (.conditional taken))
      (.bodyEnd turn.closing turn.back)
  refine ⟨_, .elseBody turn.word turn.opening body, ?_⟩
  simpa [unmarked_cons, Step.dispatch?, same] using Boxed.box [] [] .construct

/-- In a body in which no conditional stands in front of the `else`, that is passed over, and the
braces are lone ones. -/
theorem ElseIf.body_braced {openBlocks : Nat} {script : List Step} {nodes : List Node}
    {rest : List Token} (body : Takes (.body openBlocks) turn.plain script nodes rest) :
    ∃ boxed, Takes (.body openBlocks) turn.braced boxed nodes rest ∧
      Boxed (unmarked choice) (unmarked script) (unmarked boxed) := by
  obtain ⟨exchanged, taken, same⟩ := ElseIf.exchanged conditional
  obtain ⟨_, _, inside, rfl, rfl⟩ :=
    body.body_behind (.statement (.idle (idle_else turn.word) _)) (by simp [ElseIf.plain])
  obtain ⟨back, nodes, further, rfl, rfl⟩ :=
    inside.body_behind (.statement (.conditional conditional)) conditional.unclosed
  have closed : Takes (.body (openBlocks + 1))
      ((Lexeme.op "\x7d").token turn.closing :: turn.back) _ nodes rest :=
    .bodyItem (absurd · (Nat.succ_ne_zero _)) (.statement (.closed turn.closing turn.back)) further
  have chosen : Takes (.body (openBlocks + 1)) _ _ (node :: nodes) rest :=
    .bodyItem (absurd · (Nat.succ_ne_zero _)) (.statement (.conditional taken)) closed
  have opened : Takes (.body openBlocks) _ _ (node :: nodes) rest :=
    .bodyItem (fun _ => by simp) (.statement (.opened turn.opening _)) chosen
  have whole : Takes (.body openBlocks) turn.braced _ (Item.nothing.nodes ++ node :: nodes) rest :=
    .bodyItem (fun _ => by simp [ElseIf.braced]) (.statement (.idle (idle_else turn.word) _)) opened
  refine ⟨_, whole, ?_⟩
  simpa [unmarked_cons, Step.dispatch?, same] using Boxed.box [] (unmarked back) .braces

/-- A construct that goes past the `else` takes the same tokens if the conditional stands in
braces. -/
theorem Takes.braced {construct : Construct} {ahead before rest : List Token} {script : List Step}
    {value : construct.Yield} (taken : Takes construct ahead script value rest)
    (split : ahead = before ++ turn.plain) (passes : rest.length < turn.plain.length)
    (started : construct.IsStatement → before ≠ []) :
    ∃ boxed, Takes construct (before ++ turn.braced) boxed value rest ∧
      Boxed (unmarked choice) (unmarked script) (unmarked boxed) := by
  -- Of two parts in a row either the first ends in front of the `else`, and is taken there again,
  -- or it goes past it, and the second is as it was.
  induction taken generalizing before with
  | statement _ inductionHypothesis =>
      obtain ⟨boxed, taken, box⟩ := inductionHypothesis split passes started
      exact ⟨_, .statement taken, by simpa using box⟩
  | declared taken => exact absurd passes (taken.plainly.not_passed split)
  | method type place _ inductionHypothesis =>
      obtain ⟨before, rfl, rfl⟩ :=
        ElseIf.split_of_elseless [(Lexeme.type type).token place] (by simp) split
      obtain ⟨boxed, taken, box⟩ := inductionHypothesis rfl passes False.elim
      exact ⟨_, .method type place taken, box⟩
  | @expression name place semicolon used node derived rest =>
      have split : ((Lexeme.name name).token place ::
          (used ++ [Lexeme.semicolon.token semicolon])) ++ rest = before ++ turn.plain := by
        simpa using split
      exact absurd passes (ElseIf.not_passed _ (by simpa using derived.elseless) split)
  | conditional _ inductionHypothesis =>
      obtain ⟨boxed, taken, box⟩ := inductionHypothesis split passes False.elim
      exact ⟨_, .conditional taken, box⟩
  | @whileLoop word opening closing brace used _ _ _ guard _ guarded _ inductionHypothesis =>
      obtain ⟨before, rfl, rfl⟩ := ElseIf.split_of_elseless
        ((Lexeme.keyword "while").token word :: (Lexeme.op "(").token opening ::
          (used ++ [(Lexeme.op ")").token closing, (Lexeme.op "\x7b").token brace]))
        (by simp [guarded.elseless]) (by simpa using split)
      obtain ⟨boxed, taken, box⟩ := inductionHypothesis rfl passes False.elim
      simp only [List.cons_append, List.append_assoc, List.nil_append]
      exact ⟨_, .whileLoop word opening closing brace guarded taken,
        (box.followed [.leave]).preceded [.check guard, .enter .block]⟩
  | @forLoop word opening brace _ _ _ _ _ initScript guardScript updateScript _ _ _ _ _ initTaken
      guardTaken updateTaken _ inductionHypothesis =>
      obtain ⟨update, rfl, noElseUpdate, takesUpdate⟩ := updateTaken.plainly (by simp)
      obtain ⟨guard, rfl, noElseGuard, takesGuard⟩ := guardTaken.plainly (by simp)
      obtain ⟨init, rfl, noElseInit, takesInit⟩ := initTaken.plainly
      obtain ⟨before, rfl, rfl⟩ := ElseIf.split_of_elseless
        ((Lexeme.keyword "for").token word :: (Lexeme.op "(").token opening ::
          (init ++ (guard ++ (update ++ [(Lexeme.op "\x7b").token brace]))))
        (by simp [noElseInit, noElseGuard, noElseUpdate]) (by simpa using split)
      obtain ⟨boxed, taken, box⟩ := inductionHypothesis rfl passes False.elim
      simp only [List.cons_append, List.append_assoc, List.nil_append]
      refine ⟨_, .forLoop word opening brace (takesInit _) (takesGuard _) (takesUpdate _) taken, ?_⟩
      have clauses := ((box.followed [.leave]).preceded updateScript).preceded guardScript
      exact (clauses.preceded initScript).preceded [.enter .block]
  | returned word taken =>
      obtain ⟨used, rfl, noElse, _⟩ := taken.plainly (by simp)
      exact absurd passes (ElseIf.not_passed (_ :: used) (by simpa using noElse) split)
  | closedJump jumps =>
      exact absurd passes (ElseIf.not_passed [_, _] (by simp [jumps.ne_else]) split)
  | openJump jumps => exact absurd passes (ElseIf.not_passed [_] (by simp [jumps.ne_else]) split)
  | @classBody name word namePlace brace _ _ _ _ _ inductionHypothesis =>
      obtain ⟨before, rfl, rfl⟩ := ElseIf.split_of_elseless
        [(Lexeme.keyword "class").token word, (Lexeme.name name).token namePlace,
          (Lexeme.op "\x7b").token brace] (by simp) split
      obtain ⟨boxed, taken, box⟩ := inductionHypothesis rfl passes False.elim
      exact ⟨_, .classBody name word namePlace brace taken, (box.followed [.leave]).preceded
        [.declare ⟨name, "class", .className⟩ namePlace, .enter .classBody]⟩
  | opened brace rest | closed brace rest =>
      exact absurd passes (ElseIf.not_passed [_] (by simp) split)
  | idle _ rest =>
      obtain _ | ⟨first, before⟩ := before
      · exact absurd rfl (started trivial)
      · exact absurd passes (ElseIf.not_passed [] (by simp) (List.cons.inj split).2)
  | @arm word opening closing brace used _ _ _ _ otherScript guard _ _ guarded body
      others bodyBraced othersBraced =>
      obtain ⟨before, rfl, rfl⟩ := ElseIf.split_of_elseless
        ((Lexeme.keyword "if").token word :: (Lexeme.op "(").token opening ::
          (used ++ [(Lexeme.op ")").token closing, (Lexeme.op "\x7b").token brace]))
        (by simp [guarded.elseless]) (by simpa using split)
      simp only [List.cons_append, List.append_assoc, List.nil_append]
      obtain ⟨behind, rfl, exchanged, taken, same⟩ | passed := body.exchanged_or_passed rfl
      · obtain ⟨boxed, otherTaken, box⟩ := othersBraced rfl passes False.elim
        exact ⟨_, .arm word opening closing brace guarded taken otherTaken,
          ((box.preceded [.leave]).behind same).preceded [.check guard, .enter .block]⟩
      · obtain ⟨boxed, taken, box⟩ := bodyBraced rfl passed False.elim
        exact ⟨_, .arm word opening closing brace guarded taken others,
          (box.followed (.leave :: otherScript)).preceded [.check guard, .enter .block]⟩
  | noElse => exact absurd passes (ElseIf.not_passed [] (by simp) split)
  | elseBody word brace _ inductionHypothesis =>
      obtain _ | ⟨first, before⟩ := before
      · obtain ⟨place, tail, begins⟩ := conditional.starts_of_conditional
        have brace := (List.cons.inj split).2.trans begins
        exact absurd (congrArg Token.toLexeme (List.cons.inj brace).1) (by simp)
      · obtain ⟨rfl, behind⟩ := List.cons.inj split
        obtain ⟨before, rfl, rfl⟩ :=
          ElseIf.split_of_elseless [(Lexeme.op "\x7b").token brace] (by simp) behind
        obtain ⟨boxed, taken, box⟩ := inductionHypothesis rfl passes False.elim
        exact ⟨_, .elseBody word brace taken, (box.followed [.leave]).preceded [.enter .block]⟩
  | elseIf word taken inductionHypothesis =>
      obtain _ | ⟨first, before⟩ := before
      · obtain ⟨_, rfl⟩ := List.cons.inj split
        obtain ⟨rfl, rfl, rfl⟩ := taken.conditional_unique conditional
        exact ElseIf.takes_braced conditional
      · obtain ⟨rfl, rfl⟩ := List.cons.inj split
        obtain ⟨boxed, taken, box⟩ := inductionHypothesis rfl passes False.elim
        exact ⟨_, .elseIf word taken, box⟩
  | @methodRest returnType name namePlace opening brace _ _ _ paramScript _ _ _ paramsTaken _
      inductionHypothesis =>
      obtain ⟨params, rfl, noElse, takesParams⟩ := paramsTaken.plainly
      obtain ⟨before, rfl, rfl⟩ := ElseIf.split_of_elseless
        ((Lexeme.name name).token namePlace :: (Lexeme.op "(").token opening ::
          (params ++ [(Lexeme.op "\x7b").token brace]))
        (by simp [noElse]) (by simpa using split)
      obtain ⟨boxed, taken, box⟩ := inductionHypothesis rfl passes False.elim
      simp only [List.cons_append, List.append_assoc, List.nil_append]
      exact ⟨_, .methodRest returnType name namePlace opening brace (takesParams _) taken,
        ((box.followed [.leave]).preceded paramScript).preceded
          [.declare _ namePlace, .enter .methodBody]⟩
  | bodyEnd brace rest | membersEnd _ brace rest =>
      exact absurd passes (ElseIf.not_passed [_] (by simp) split)
  | @bodyItem openBlocks _ _ _ _ back _ _ inside first others firstBraced othersBraced =>
      obtain rfl := split
      have insideBraced (none : openBlocks = 0) :=
        mt (turn.starts_braced before _).mp (inside none)
      obtain ⟨behind, rfl, exchanged, taken, same⟩ | passed := first.exchanged_or_passed rfl
      · obtain ⟨boxed, otherTaken, box⟩ := othersBraced rfl passes False.elim
        exact ⟨_, .bodyItem insideBraced taken otherTaken, box.behind same⟩
      obtain _ | ⟨token, before⟩ := before
      · exact ElseIf.body_braced conditional (.bodyItem inside first others)
      · obtain ⟨boxed, taken, box⟩ := firstBraced rfl passed fun _ => List.cons_ne_nil _ _
        exact ⟨_, .bodyItem insideBraced taken others, box.followed back⟩
  | @field _ modifiers _ _ _ front _ _ _ modified taken _ inductionHypothesis =>
      obtain ⟨used, rfl, noElse, takes⟩ := taken.plainly
      obtain ⟨before, rfl, rfl⟩ := ElseIf.split_of_elseless (modifiers ++ used)
        (by simp [elseless_of_modifies modified, noElse]) (by simpa using split)
      obtain ⟨boxed, taken, box⟩ := inductionHypothesis rfl passes False.elim
      simp only [List.append_assoc]
      exact ⟨_, .field modified (takes _) taken, box.preceded front⟩
  | @typedMethod _ type place modifiers _ _ _ _ back _ _ modified method others methodBraced
      othersBraced =>
      obtain ⟨before, rfl, rfl⟩ := ElseIf.split_of_elseless
        (modifiers ++ [(Lexeme.type type).token place])
        (by simp [elseless_of_modifies modified]) (by simpa using split)
      simp only [List.append_assoc, List.cons_append, List.nil_append]
      obtain ⟨behind, rfl, exchanged, taken, same⟩ | passed := method.exchanged_or_passed rfl
      · obtain ⟨boxed, otherTaken, box⟩ := othersBraced rfl passes False.elim
        exact ⟨_, .typedMethod type place modified taken otherTaken, box.behind same⟩
      · obtain ⟨boxed, taken, box⟩ := methodBraced rfl passed False.elim
        exact ⟨_, .typedMethod type place modified taken others, box.followed back⟩
  | @constructor className place modifiers _ _ _ _ back _ _ modified method others methodBraced
      othersBraced =>
      obtain ⟨before, rfl, rfl⟩ := ElseIf.split_of_elseless
        (modifiers ++ [(Lexeme.name className).token place])
        (by simp [elseless_of_modifies modified]) (by simpa using split)
      simp only [List.append_assoc, List.cons_append, List.nil_append]
      have named : (Lexeme.name className).token place :: (before ++ turn.plain) =
          ((Lexeme.name className).token place :: before) ++ turn.plain := rfl
      obtain ⟨behind, rfl, exchanged, taken, same⟩ | passed := method.exchanged_or_passed named
      · obtain ⟨boxed, otherTaken, box⟩ := othersBraced rfl passes False.elim
        exact ⟨_, .constructor place modified taken otherTaken, box.behind same⟩
      · obtain ⟨boxed, taken, box⟩ := methodBraced named passed False.elim
        exact ⟨_, .constructor place modified taken others, box.followed back⟩

/-- In a program too an `else` may be passed over in front of a conditional. -/
theorem ElseIf.program_braced {script : List Step} {items : List Item}
    (program : TakesProgram turn.plain script items) :
    ∃ boxed others, TakesProgram turn.braced boxed others ∧
      others.flatMap Item.nodes = items.flatMap Item.nodes ∧
      Boxed (unmarked choice) (unmarked script) (unmarked boxed) := by
  obtain ⟨exchanged, taken, same⟩ := ElseIf.exchanged conditional
  obtain ⟨_, _, inside, rfl, rfl⟩ :=
    program.behind (.statement (.idle (idle_else turn.word) _))
  obtain ⟨back, items, further, rfl, rfl⟩ := inside.behind (.statement (.conditional conditional))
  have closed := TakesProgram.cons (.statement (.closed turn.closing turn.back)) further
  have chosen := TakesProgram.cons (.statement (.conditional taken)) closed
  have opened := TakesProgram.cons (.statement (.opened turn.opening _)) chosen
  refine ⟨_, _, .cons (.statement (.idle (idle_else turn.word) _)) opened, rfl, ?_⟩
  simpa [unmarked_cons, Step.dispatch?, same] using Boxed.box [] (unmarked back) .braces

/-- A program takes the same statements if a conditional behind an `else` stands in braces, but
for the braces where the `else` is passed over. -/
theorem TakesProgram.braced {ahead before : List Token} {script : List Step} {items : List Item}
    (taken : TakesProgram ahead script items) (split : ahead = before ++ turn.plain) :
    ∃ boxed others, TakesProgram (before ++ turn.braced) boxed others ∧
      others.flatMap Item.nodes = items.flatMap Item.nodes ∧
      Boxed (unmarked choice) (unmarked script) (unmarked boxed) := by
  induction taken generalizing before with
  | nil => cases before <;> cases split
  | @cons _ _ _ back _ _ first others inductionHypothesis =>
      obtain rfl := split
      obtain ⟨behind, rfl, exchanged, taken, same⟩ | passed := first.exchanged_or_passed rfl
      · obtain ⟨boxed, items, othersTaken, equal, box⟩ := inductionHypothesis rfl
        exact ⟨_, _, .cons taken othersTaken, by simp [equal], box.behind same⟩
      obtain _ | ⟨token, before⟩ := before
      · exact ElseIf.program_braced conditional (.cons first others)
      · obtain ⟨boxed, taken, box⟩ :=
          Takes.braced conditional first rfl passed fun _ => List.cons_ne_nil _ _
        exact ⟨_, _, .cons taken others, rfl, box.followed back⟩

end Braced
end Grammar
end BraceLang
