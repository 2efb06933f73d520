import BraceLang.Proofs.Statement.Soundness

/-!
# What more tokens behind a construct change

A construct that takes tokens takes the same tokens when more of them stand behind, with
two exceptions. A conditional goes on with an `else`, and a jump at the very end takes a
semicolon. The first is excluded here; the second changes neither the tree nor what the
script does, and `LeftBehind` keeps it in the account.

The marks of a script count the tokens ahead, so they count the tokens behind too.
-/

namespace BraceLang

/-- A step in front of so many more tokens. -/
def Step.later (more : Nat) : Step → Step
  | .statement lexeme left => .statement lexeme (left + more)
  | step => step

namespace Grammar

/-- A construct of which a jump may be the end. -/
def Construct.IsStatement : Construct → Prop
  | .statement => True
  | .marked => True
  | _ => False

/-- What is left behind a construct that left `rest`, with `behind` behind that: all of it, or
all but a semicolon that closes a jump. -/
def LeftBehind (construct : Construct) (rest behind left : List Token) : Prop :=
  left = rest ++ behind ∨
    construct.IsStatement ∧ rest = [] ∧ ∃ place, behind = Lexeme.semicolon.token place :: left

/-- With more tokens behind, a construct takes the same. -/
def Extends (construct : Construct) (ahead : List Token) (script : List Step)
    (value : construct.Yield) (rest behind : List Token) : Prop :=
  ∃ left, Takes construct (ahead ++ behind) (script.map (Step.later behind.length)) value left ∧
    LeftBehind construct rest behind left

section Parts

variable {ahead rest : List Token} {script : List Step} {more : Nat}

theorem TakesClause.append {closing : Lexeme} {value : Option Node}
    (taken : TakesClause closing ahead script value rest) (more : Nat) (behind : List Token) :
    TakesClause closing (ahead ++ behind) (script.map (Step.later more)) value
      (rest ++ behind) := by
  cases taken with
  | absent place => exact .absent place _
  | present derived place =>
      rw [List.append_assoc]
      exact .present derived place _

theorem TakesVariable.append {node : Node} (taken : TakesVariable ahead script node rest)
    (more : Nat) (behind : List Token) :
    TakesVariable (ahead ++ behind) (script.map (Step.later more)) node (rest ++ behind) := by
  cases taken with
  | plain type name place namePlace semicolon =>
      exact .plain type name place namePlace semicolon _
  | initialized type name place namePlace sign semicolon derived =>
      simp only [List.cons_append, List.append_assoc]
      exact .initialized type name place namePlace sign semicolon derived _

theorem TakesInitializer.append {init : Option Node}
    (taken : TakesInitializer ahead script init rest) (more : Nat) (behind : List Token) :
    TakesInitializer (ahead ++ behind) (script.map (Step.later more)) init (rest ++ behind) := by
  cases taken with
  | clause taken => exact .clause (taken.append more behind)
  | declared taken => exact .declared (taken.append more behind)

theorem TakesFurtherParameters.append {params : List Param}
    (taken : TakesFurtherParameters ahead script params rest) (more : Nat)
    (behind : List Token) :
    TakesFurtherParameters (ahead ++ behind) (script.map (Step.later more)) params
      (rest ++ behind) := by
  induction taken with
  | closed closing => exact .closed closing _
  | next type name comma place namePlace _ inductionHypothesis =>
      exact .next type name comma place namePlace inductionHypothesis

theorem TakesParameters.append {params : List Param}
    (taken : TakesParameters ahead script params rest) (more : Nat) (behind : List Token) :
    TakesParameters (ahead ++ behind) (script.map (Step.later more)) params (rest ++ behind) := by
  cases taken with
  | none closing => exact .none closing _
  | some type name place namePlace others =>
      exact .some type name place namePlace (others.append more behind)

end Parts

variable {ahead rest behind : List Token} {script : List Step}

/-- A construct that leaves tokens leaves all that stand behind them too; so does one of which a
jump cannot be the end. -/
theorem LeftBehind.eq {construct : Construct} {left : List Token}
    (leaves : LeftBehind construct rest behind left)
    (apart : rest ≠ [] ∨ ¬ construct.IsStatement) : left = rest ++ behind := by
  obtain equal | ⟨jump, ended, _⟩ := leaves
  · exact equal
  · exact absurd jump (apart.resolve_left (not_not_intro ended))

theorem mark_append {ahead : List Token} (nonempty : ahead ≠ []) (behind : List Token) :
    mark (ahead ++ behind) = (mark ahead).map (Step.later behind.length) := by
  obtain ⟨first, tail, rfl⟩ := List.exists_cons_of_ne_nil nonempty
  simp only [List.cons_append, mark, List.length_append, List.map_cons, List.map_nil, Step.later]
  congr 2
  omega

/-- Where something is left behind a construct, or the construct cannot end in a jump, all the
tokens behind it are left. -/
theorem Extends.takes {construct : Construct} {value : construct.Yield}
    (extended : Extends construct ahead script value rest behind)
    (apart : rest ≠ [] ∨ ¬ construct.IsStatement) :
    Takes construct (ahead ++ behind) (script.map (Step.later behind.length)) value
      (rest ++ behind) := by
  obtain ⟨left, taken, leaves⟩ := extended
  exact leaves.eq apart ▸ taken

/-- A lexeme that does not stand in front of some tokens does not stand in front of more. -/
theorem not_starts_append {lexeme : Lexeme} (absent : ¬ lexeme.Starts rest)
    (absentBehind : rest = [] → ¬ lexeme.Starts behind) : ¬ lexeme.Starts (rest ++ behind) := by
  cases rest with
  | nil => exact absentBehind rfl
  | cons first tail => exact fun starts => absent ((Lexeme.starts_cons ..).mpr
      ((Lexeme.starts_cons ..).mp starts))

theorem Takes.ne_nil {construct : Construct} {value : construct.Yield}
    (taken : Takes construct ahead script value rest) (least : construct.least = 1) :
    ahead ≠ [] := by
  have shorter := taken.length_add_least
  exact List.ne_nil_of_length_pos (by omega)

/-- What a construct takes does not depend on what stands behind it, unless that is an `else`. -/
theorem Takes.extends {construct : Construct} {value : construct.Yield}
    (taken : Takes construct ahead script value rest)
    (unelse : rest = [] → ¬ (Lexeme.keyword "else").Starts behind) :
    Extends construct ahead script value rest behind := by
  induction taken with
  | statement taken inductionHypothesis =>
      obtain ⟨left, further, leaves⟩ := inductionHypothesis unelse
      rw [Extends, List.map_append, ← mark_append (taken.ne_nil rfl)]
      exact ⟨left, .statement further, leaves⟩
  | declared taken => exact ⟨_, .declared (taken.append _ behind), .inl rfl⟩
  | method type place taken inductionHypothesis =>
      exact ⟨_, .method type place ((inductionHypothesis unelse).takes (.inr id)), .inl rfl⟩
  | expression name place semicolon derived rest =>
      rw [Extends, List.cons_append, List.append_assoc]
      exact ⟨_, .expression name place semicolon derived _, .inl rfl⟩
  | conditional _ inductionHypothesis =>
      exact ⟨_, .conditional ((inductionHypothesis unelse).takes (.inr id)), .inl rfl⟩
  | whileLoop word opening closing brace guarded _ inductionHypothesis =>
      have body := (inductionHypothesis unelse).takes (.inr id)
      simp only [Extends, List.map_cons, List.map_append, List.cons_append, List.append_assoc]
      exact ⟨_, .whileLoop word opening closing brace guarded body, .inl rfl⟩
  | forLoop word opening brace initTaken guardTaken updateTaken _ inductionHypothesis =>
      have body := (inductionHypothesis unelse).takes (.inr id)
      simp only [Extends, List.map_cons, List.map_append]
      exact ⟨_, .forLoop word opening brace (initTaken.append _ behind)
        (guardTaken.append _ behind) (updateTaken.append _ behind) body, .inl rfl⟩
  | returned word taken => exact ⟨_, .returned word (taken.append _ behind), .inl rfl⟩
  | closedJump jumps place semicolon rest =>
      exact ⟨_, .closedJump jumps place semicolon _, .inl rfl⟩
  | @openJump _ _ jumps place rest unclosed =>
      -- Only a jump without a semicolon at the very end sees the first token behind.
      by_cases closes : rest = [] ∧ Lexeme.semicolon.Starts behind
      · obtain ⟨rfl, semicolon, left, rfl⟩ := closes
        exact ⟨left, .closedJump jumps place semicolon left, .inr ⟨trivial, rfl, semicolon, rfl⟩⟩
      · have stillUnclosed := not_starts_append unclosed fun ended starts => closes ⟨ended, starts⟩
        exact ⟨_, .openJump jumps place stillUnclosed, .inl rfl⟩
  | classBody name word namePlace brace _ inductionHypothesis =>
      have members := (inductionHypothesis unelse).takes (.inr id)
      simp only [Extends, List.map_cons, List.map_append]
      exact ⟨_, .classBody name word namePlace brace members, .inl rfl⟩
  | opened brace rest => exact ⟨_, .opened brace _, .inl rfl⟩
  | closed brace rest => exact ⟨_, .closed brace _, .inl rfl⟩
  | idle idle rest => exact ⟨_, .idle idle _, .inl rfl⟩
  | arm word opening closing brace guarded _ others bodyExtends othersExtend =>
      have shorter := others.length_add_least
      have body := (bodyExtends fun ended => unelse (List.eq_nil_of_length_eq_zero
        (Nat.le_zero.mp (List.length_eq_zero_iff.mpr ended ▸ shorter)))).takes (.inr id)
      have elseTaken := (othersExtend unelse).takes (.inr id)
      simp only [Extends, List.map_cons, List.map_append, List.cons_append, List.append_assoc]
      exact ⟨_, .arm word opening closing brace guarded body elseTaken, .inl rfl⟩
  | noElse ended =>
      exact ⟨_, .noElse (not_starts_append ended unelse), .inl rfl⟩
  | elseBody word brace _ inductionHypothesis =>
      have body := (inductionHypothesis unelse).takes (.inr id)
      simp only [Extends, List.map_cons, List.map_append]
      exact ⟨_, .elseBody word brace body, .inl rfl⟩
  | elseIf word _ inductionHypothesis =>
      exact ⟨_, .elseIf word ((inductionHypothesis unelse).takes (.inr id)), .inl rfl⟩
  | methodRest returnType name namePlace opening brace paramsTaken _ inductionHypothesis =>
      have body := (inductionHypothesis unelse).takes (.inr id)
      simp only [Extends, List.map_cons, List.map_append]
      exact ⟨_, .methodRest returnType name namePlace opening brace
        (paramsTaken.append _ behind) body, .inl rfl⟩
  | bodyEnd brace rest => exact ⟨_, .bodyEnd brace _, .inl rfl⟩
  | bodyItem inside first others firstExtends othersExtend =>
      have more := others.ne_nil rfl
      have item := (firstExtends fun ended => absurd ended more).takes (.inl more)
      have body := (othersExtend unelse).takes (.inr id)
      rw [Extends, List.map_append]
      refine ⟨_, .bodyItem (fun unopened => ?_) item body, .inl rfl⟩
      exact not_starts_append (inside unopened) fun ended => absurd ended (first.ne_nil rfl)
  | membersEnd className brace rest => exact ⟨_, .membersEnd className brace _, .inl rfl⟩
  | field modified taken _ inductionHypothesis =>
      have members := (inductionHypothesis unelse).takes (.inr id)
      rw [Extends, List.map_append, List.append_assoc]
      exact ⟨_, .field modified (taken.append _ behind) members, .inl rfl⟩
  | typedMethod type place modified taken others methodExtends inductionHypothesis =>
      have more := others.ne_nil rfl
      have method := (methodExtends fun ended => absurd ended more).takes (.inl more)
      have members := (inductionHypothesis unelse).takes (.inr id)
      rw [Extends, List.map_append, List.append_assoc]
      exact ⟨_, .typedMethod type place modified method members, .inl rfl⟩
  | constructor place modified taken others methodExtends inductionHypothesis =>
      have more := others.ne_nil rfl
      have method := (methodExtends fun ended => absurd ended more).takes (.inl more)
      have members := (inductionHypothesis unelse).takes (.inr id)
      rw [Extends, List.map_append, List.append_assoc]
      exact ⟨_, .constructor place modified method members, .inl rfl⟩

end Grammar
end BraceLang
