import BraceLang.Proofs.Horizon.Scripted
import BraceLang.Proofs.Statement.Soundness

/-!
# What a construct takes is a matter of its own tokens

A construct takes the same tokens, whatever stands behind them, as long as what stands there
does not make it go on: an `else` behind a conditional, or a semicolon behind a jump. The marks
of its script count the tokens that are ahead and change; nothing else does.

What has no statements inside it goes on in no case, and there is no `else` among its tokens.
-/

namespace BraceLang

@[simp] theorem unmarked_nil : unmarked [] = [] := rfl

theorem unmarked_cons (step : Step) (script : List Step) :
    unmarked (step :: script) =
      if step.dispatch? = none then step :: unmarked script else unmarked script := by
  cases step <;> rfl

namespace Grammar

section Words

variable (text word : String)

@[simp] theorem op_ne_keyword : Lexeme.op text ≠ .keyword word :=
  Lexeme.ne_of_kind Kind.noConfusion

@[simp] theorem keyword_ne_op : Lexeme.keyword word ≠ .op text :=
  Lexeme.ne_of_kind Kind.noConfusion

@[simp] theorem name_ne_keyword : Lexeme.name text ≠ .keyword word :=
  Lexeme.ne_of_kind Kind.noConfusion

@[simp] theorem type_ne_keyword : Lexeme.type text ≠ .keyword word :=
  Lexeme.ne_of_kind Kind.noConfusion

@[simp] theorem semicolon_ne_keyword : Lexeme.semicolon ≠ .keyword word :=
  Lexeme.ne_of_kind Kind.noConfusion

end Words

/-- Whether there is no `else` among tokens. -/
def Elseless (tokens : List Token) : Prop := ∀ token ∈ tokens, token.toLexeme ≠ .keyword "else"

@[simp] theorem elseless_nil : Elseless [] := List.forall_mem_nil _

@[simp] theorem elseless_cons (first : Token) (rest : List Token) :
    Elseless (first :: rest) ↔ first.toLexeme ≠ .keyword "else" ∧ Elseless rest :=
  List.forall_mem_cons

@[simp] theorem elseless_append (front back : List Token) :
    Elseless (front ++ back) ↔ Elseless front ∧ Elseless back :=
  List.forall_mem_append

/-- Whether some tokens make nothing go on that ends in front of `rest`. -/
def EndsLike (rest others : List Token) : Prop :=
  ∀ lexeme ∈ [Lexeme.keyword "else", .semicolon], lexeme.Starts others → lexeme.Starts rest

theorem EndsLike.append {rest others : List Token} (like : EndsLike rest others)
    (used : List Token) : EndsLike (used ++ rest) (used ++ others) := by
  cases used with
  | nil => exact like
  | cons first used => exact fun lexeme _ starts => by simpa using starts

/-- Tokens without an `else` are taken in front of `rest`, and in front of any others. -/
def TakesPlainly (takes : List Token → List Token → Prop) (ahead rest : List Token) : Prop :=
  ∃ used, ahead = used ++ rest ∧ Elseless used ∧ ∀ others, takes (used ++ others) others

section Parts

variable {ahead rest : List Token} {script : List Step}

theorem Joins.ne_else {level : Level} {lexeme : Lexeme} {op : BinaryOp}
    (joins : Joins level lexeme op) : lexeme ≠ .keyword "else" := by
  cases joins <;> decide

/-- An expression has no `else`. -/
theorem Derives.elseless {phrase : Phrase} {used : List Token} {value : phrase.Tree}
    (derived : Derives phrase used value) : Elseless used := by
  induction derived with
  | joined sign joins => simp_all [joins.ne_else]
  | number | string => simp [Lexeme.keyword]
  | _ => simp_all

theorem TakesClause.plainly {closing : Lexeme} {value : Option Node}
    (taken : TakesClause closing ahead script value rest) (other : closing ≠ .keyword "else") :
    TakesPlainly (TakesClause closing · script value ·) ahead rest := by
  cases taken with
  | absent place => exact ⟨[closing.token place], rfl, by simpa using other, .absent place⟩
  | @present used _ derived place =>
      refine ⟨used ++ [closing.token place], by simp, by simp [derived.elseless, other],
        fun others => ?_⟩
      rw [List.append_assoc]
      exact .present derived place others

theorem TakesVariable.plainly {node : Node} (taken : TakesVariable ahead script node rest) :
    TakesPlainly (TakesVariable · script node ·) ahead rest := by
  cases taken with
  | plain type name place namePlace semicolon =>
      exact ⟨[_, _, _], rfl, by simp, .plain type name place namePlace semicolon⟩
  | @initialized type name place namePlace sign semicolon used _ derived =>
      refine ⟨(Lexeme.type type).token place :: (Lexeme.name name).token namePlace ::
        (Lexeme.op "=").token sign :: (used ++ [Lexeme.semicolon.token semicolon]), by simp,
        by simp [derived.elseless], fun others => ?_⟩
      simp only [List.cons_append, List.append_assoc]
      exact .initialized type name place namePlace sign semicolon derived others

theorem TakesInitializer.plainly {init : Option Node}
    (taken : TakesInitializer ahead script init rest) :
    TakesPlainly (TakesInitializer · script init ·) ahead rest := by
  cases taken with
  | clause taken =>
      obtain ⟨used, split, elseless, takes⟩ := taken.plainly (by simp)
      exact ⟨used, split, elseless, fun others => .clause (takes others)⟩
  | declared taken =>
      obtain ⟨used, split, elseless, takes⟩ := taken.plainly
      exact ⟨used, split, elseless, fun others => .declared (takes others)⟩

theorem TakesFurtherParameters.plainly {params : List Param}
    (taken : TakesFurtherParameters ahead script params rest) :
    TakesPlainly (TakesFurtherParameters · script params ·) ahead rest := by
  induction taken with
  | closed closing => exact ⟨[_], rfl, by simp, .closed closing⟩
  | next type name comma place namePlace _ inductionHypothesis =>
      obtain ⟨used, rfl, elseless, takes⟩ := inductionHypothesis
      exact ⟨_ :: _ :: _ :: used, rfl, by simpa using elseless,
        fun others => .next type name comma place namePlace (takes others)⟩

theorem TakesParameters.plainly {params : List Param}
    (taken : TakesParameters ahead script params rest) :
    TakesPlainly (TakesParameters · script params ·) ahead rest := by
  cases taken with
  | none closing => exact ⟨[_], rfl, by simp, .none closing⟩
  | some type name place namePlace others =>
      obtain ⟨used, rfl, elseless, takes⟩ := others.plainly
      exact ⟨_ :: _ :: used, rfl, by simpa using elseless,
        fun others => .some type name place namePlace (takes others)⟩

theorem Modifies.ne_else {token : Token} (modifies : Modifies token) :
    token.toLexeme ≠ .keyword "else" := by
  obtain ⟨word, known, equal⟩ := modifies
  rw [equal]
  rintro same
  obtain rfl := (Lexeme.keyword_inj ..).mp same
  exact absurd known (by decide)

end Parts

section Exchange

variable {ahead middle rest : List Token} {script : List Step}

@[simp] theorem unmarked_mark (ahead : List Token) : unmarked (mark ahead) = [] := by
  cases ahead <;> rfl

/-- A construct takes the tokens in front of `rest` also in front of others that make nothing go
on, and all of its script but the marks stays the same. -/
def Exchanges (construct : Construct) (ahead : List Token) (script : List Step)
    (value : construct.Yield) (rest : List Token) : Prop :=
  ∃ used, ahead = used ++ rest ∧ ∀ others, EndsLike rest others →
    ∃ exchanged, Takes construct (used ++ others) exchanged value others ∧
      unmarked exchanged = unmarked script

/-- What a construct takes in front of some tokens it takes in front of others. -/
theorem Takes.exchanges {construct : Construct} {value : construct.Yield}
    (taken : Takes construct ahead script value rest) :
    Exchanges construct ahead script value rest := by
  induction taken with
  | statement _ inductionHypothesis =>
      obtain ⟨used, rfl, exchange⟩ := inductionHypothesis
      refine ⟨used, rfl, fun others like => ?_⟩
      obtain ⟨exchanged, taken, same⟩ := exchange others like
      exact ⟨_, .statement taken, by simp [same]⟩
  | declared taken =>
      obtain ⟨used, rfl, _, takes⟩ := taken.plainly
      exact ⟨used, rfl, fun others _ => ⟨_, .declared (takes others), rfl⟩⟩
  | method type place _ inductionHypothesis =>
      obtain ⟨used, rfl, exchange⟩ := inductionHypothesis
      refine ⟨_ :: used, rfl, fun others like => ?_⟩
      obtain ⟨exchanged, taken, same⟩ := exchange others like
      exact ⟨_, .method type place taken, same⟩
  | @expression name place semicolon used node derived rest =>
      refine ⟨(Lexeme.name name).token place :: (used ++ [Lexeme.semicolon.token semicolon]),
        by simp, fun others _ => ⟨_, ?_, rfl⟩⟩
      simp only [List.cons_append, List.append_assoc]
      exact .expression name place semicolon derived others
  | conditional _ inductionHypothesis =>
      obtain ⟨used, rfl, exchange⟩ := inductionHypothesis
      refine ⟨used, rfl, fun others like => ?_⟩
      obtain ⟨exchanged, taken, same⟩ := exchange others like
      exact ⟨_, .conditional taken, same⟩
  | @whileLoop word opening closing brace used _ _ _ _ _ guarded _ inductionHypothesis =>
      obtain ⟨inside, rfl, exchange⟩ := inductionHypothesis
      refine ⟨(Lexeme.keyword "while").token word :: (Lexeme.op "(").token opening ::
        (used ++ (Lexeme.op ")").token closing :: (Lexeme.op "\x7b").token brace :: inside),
        by simp, fun others like => ?_⟩
      obtain ⟨exchanged, taken, same⟩ := exchange others like
      simp only [List.cons_append, List.append_assoc]
      exact ⟨_, .whileLoop word opening closing brace guarded taken,
        by simp [unmarked_cons, Step.dispatch?, same]⟩
  | forLoop word opening brace initTaken guardTaken updateTaken _ inductionHypothesis =>
      obtain ⟨inside, rfl, exchange⟩ := inductionHypothesis
      obtain ⟨update, rfl, _, takesUpdate⟩ := updateTaken.plainly (by simp)
      obtain ⟨guard, rfl, _, takesGuard⟩ := guardTaken.plainly (by simp)
      obtain ⟨init, rfl, _, takesInit⟩ := initTaken.plainly
      refine ⟨(Lexeme.keyword "for").token word :: (Lexeme.op "(").token opening ::
        (init ++ (guard ++ (update ++ (Lexeme.op "\x7b").token brace :: inside))),
        by simp, fun others like => ?_⟩
      obtain ⟨exchanged, taken, same⟩ := exchange others like
      simp only [List.cons_append, List.append_assoc]
      exact ⟨_, .forLoop word opening brace (takesInit _) (takesGuard _) (takesUpdate _) taken,
        by simp [unmarked_cons, Step.dispatch?, same]⟩
  | returned word taken =>
      obtain ⟨used, rfl, _, takes⟩ := taken.plainly (by simp)
      exact ⟨_ :: used, rfl, fun others _ => ⟨_, .returned word (takes others), rfl⟩⟩
  | closedJump jumps place semicolon rest =>
      exact ⟨[_, _], rfl, fun others _ => ⟨_, .closedJump jumps place semicolon others, rfl⟩⟩
  | openJump jumps place unclosed =>
      refine ⟨[_], rfl, fun others like => ⟨_, .openJump jumps place fun closes => ?_, rfl⟩⟩
      exact unclosed (like _ (by simp) closes)
  | classBody name word namePlace brace _ inductionHypothesis =>
      obtain ⟨inside, rfl, exchange⟩ := inductionHypothesis
      refine ⟨_ :: _ :: _ :: inside, rfl, fun others like => ?_⟩
      obtain ⟨exchanged, taken, same⟩ := exchange others like
      exact ⟨_, .classBody name word namePlace brace taken,
        by simp [unmarked_cons, Step.dispatch?, same]⟩
  | opened brace => exact ⟨[_], rfl, fun others _ => ⟨_, .opened brace others, rfl⟩⟩
  | closed brace => exact ⟨[_], rfl, fun others _ => ⟨_, .closed brace others, rfl⟩⟩
  | idle idle => exact ⟨[_], rfl, fun others _ => ⟨_, .idle idle others, rfl⟩⟩
  | @arm word opening closing brace used _ _ _ _ _ _ _ _ guarded _ _ bodyExchanges
      othersExchange =>
      obtain ⟨behind, rfl, exchangeOthers⟩ := othersExchange
      obtain ⟨inside, rfl, exchangeBody⟩ := bodyExchanges
      refine ⟨(Lexeme.keyword "if").token word :: (Lexeme.op "(").token opening ::
        (used ++ (Lexeme.op ")").token closing :: (Lexeme.op "\x7b").token brace ::
          (inside ++ behind)), by simp, fun others like => ?_⟩
      obtain ⟨otherExchanged, otherTaken, otherSame⟩ := exchangeOthers others like
      obtain ⟨exchanged, taken, same⟩ := exchangeBody (behind ++ others) (like.append behind)
      simp only [List.cons_append, List.append_assoc]
      exact ⟨_, .arm word opening closing brace guarded taken otherTaken,
        by simp [unmarked_cons, Step.dispatch?, same, otherSame]⟩
  | noElse ended =>
      exact ⟨[], rfl, fun others like => ⟨_, .noElse fun starts => ended (like _ (by simp) starts),
        rfl⟩⟩
  | elseBody word brace _ inductionHypothesis =>
      obtain ⟨inside, rfl, exchange⟩ := inductionHypothesis
      refine ⟨_ :: _ :: inside, rfl, fun others like => ?_⟩
      obtain ⟨exchanged, taken, same⟩ := exchange others like
      exact ⟨_, .elseBody word brace taken,
        by simp [unmarked_cons, Step.dispatch?, same]⟩
  | elseIf word _ inductionHypothesis =>
      obtain ⟨used, rfl, exchange⟩ := inductionHypothesis
      refine ⟨_ :: used, rfl, fun others like => ?_⟩
      obtain ⟨exchanged, taken, same⟩ := exchange others like
      exact ⟨_, .elseIf word taken, same⟩
  | methodRest returnType name namePlace opening brace paramsTaken _ inductionHypothesis =>
      obtain ⟨inside, rfl, exchange⟩ := inductionHypothesis
      obtain ⟨params, rfl, _, takesParams⟩ := paramsTaken.plainly
      refine ⟨(Lexeme.name name).token namePlace :: (Lexeme.op "(").token opening ::
        (params ++ (Lexeme.op "\x7b").token brace :: inside), by simp, fun others like => ?_⟩
      obtain ⟨exchanged, taken, same⟩ := exchange others like
      simp only [List.cons_append, List.append_assoc]
      exact ⟨_, .methodRest returnType name namePlace opening brace (takesParams _) taken,
        by simp [unmarked_cons, Step.dispatch?, same]⟩
  | bodyEnd brace => exact ⟨[_], rfl, fun others _ => ⟨_, .bodyEnd brace others, rfl⟩⟩
  | bodyItem inside first _ firstExchanges othersExchange =>
      obtain ⟨behind, rfl, exchangeOthers⟩ := othersExchange
      obtain ⟨used, rfl, exchangeFirst⟩ := firstExchanges
      refine ⟨used ++ behind, by simp, fun others like => ?_⟩
      obtain ⟨otherExchanged, otherTaken, otherSame⟩ := exchangeOthers others like
      obtain ⟨exchanged, taken, same⟩ := exchangeFirst (behind ++ others) (like.append behind)
      rw [List.append_assoc]
      refine ⟨_, .bodyItem (fun none => ?_) taken otherTaken, by simp [same, otherSame]⟩
      -- The first token of a statement is its own.
      obtain _ | ⟨token, used⟩ := used
      · exact absurd first.statement_length_lt (Nat.lt_irrefl _)
      · simpa using inside none
  | membersEnd className brace =>
      exact ⟨[_], rfl, fun others _ => ⟨_, .membersEnd className brace others, rfl⟩⟩
  | @field _ modifiers _ _ _ _ _ _ _ modified taken _ inductionHypothesis =>
      obtain ⟨behind, rfl, exchange⟩ := inductionHypothesis
      obtain ⟨used, rfl, _, takes⟩ := taken.plainly
      refine ⟨modifiers ++ (used ++ behind), by simp, fun others like => ?_⟩
      obtain ⟨exchanged, taken, same⟩ := exchange others like
      simp only [List.append_assoc]
      exact ⟨_, .field modified (takes _) taken, by simp [same]⟩
  | @typedMethod _ type place modifiers _ _ _ _ _ _ _ modified _ _ methodExchanges
      othersExchange =>
      obtain ⟨behind, rfl, exchangeOthers⟩ := othersExchange
      obtain ⟨used, rfl, exchangeMethod⟩ := methodExchanges
      refine ⟨modifiers ++ (Lexeme.type type).token place :: (used ++ behind), by simp,
        fun others like => ?_⟩
      obtain ⟨otherExchanged, otherTaken, otherSame⟩ := exchangeOthers others like
      obtain ⟨exchanged, taken, same⟩ := exchangeMethod (behind ++ others) (like.append behind)
      simp only [List.cons_append, List.append_assoc]
      exact ⟨_, .typedMethod type place modified taken otherTaken, by simp [same, otherSame]⟩
  | @constructor className place modifiers _ _ _ _ _ _ _ modified method _ methodExchanges
      othersExchange =>
      obtain ⟨behind, rfl, exchangeOthers⟩ := othersExchange
      obtain ⟨_ | ⟨_, used⟩, split, exchangeMethod⟩ := methodExchanges
      · have shorter := method.length_add_least
        rw [split] at shorter
        exact absurd shorter (Nat.not_succ_le_self _)
      obtain ⟨rfl, rfl⟩ := List.cons.inj split
      refine ⟨modifiers ++ (Lexeme.name className).token place :: (used ++ behind), by simp,
        fun others like => ?_⟩
      obtain ⟨otherExchanged, otherTaken, otherSame⟩ := exchangeOthers others like
      obtain ⟨exchanged, taken, same⟩ := exchangeMethod (behind ++ others) (like.append behind)
      simp only [List.cons_append, List.append_assoc] at taken ⊢
      exact ⟨_, .constructor place modified taken otherTaken, by simp [same, otherSame]⟩

end Exchange
end Grammar
end BraceLang
