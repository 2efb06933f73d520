import BraceLang.Proofs.Statement.Soundness

/-!
# The braces of a program and the moves of its script

The script of a construct opens and closes scopes in the order of the braces among its
tokens, whether a brace delimits a body or stands alone. A construct with a header
enters its scope in front of the header, but a header has no braces.
-/

namespace BraceLang

/-- What a brace does to a stack of scopes. -/
inductive Brace where
  | opened
  | closed

/-- The brace that a lexeme is. -/
def Lexeme.brace? (lexeme : Lexeme) : Option Brace :=
  if lexeme = .op "\x7b" then some .opened
  else if lexeme = .op "\x7d" then some .closed
  else none

/-- The brace whose effect a step has. -/
def Step.brace? : Step → Option Brace
  | .enter _ => some .opened
  | .openBlock => some .opened
  | .leave => some .closed
  | .closeBlock => some .closed
  | _ => none

/-- The braces among tokens. -/
def braces (tokens : List Token) : List Brace := tokens.filterMap (·.toLexeme.brace?)

/-- The braces whose effects a script has. -/
def moves (script : List Step) : List Brace := script.filterMap Step.brace?

section Braces

@[simp] theorem braces_nil : braces [] = [] := rfl

@[simp] theorem braces_cons (first : Token) (rest : List Token) :
    braces (first :: rest) = first.toLexeme.brace?.toList ++ braces rest := by
  cases found : first.toLexeme.brace? <;> simp [braces, found]

@[simp] theorem braces_append (front back : List Token) :
    braces (front ++ back) = braces front ++ braces back :=
  List.filterMap_append

/-- Only operators are braces. -/
theorem Lexeme.brace?_of_kind {lexeme : Lexeme} (kind : lexeme.kind ≠ .operator) :
    lexeme.brace? = none := by
  rw [brace?, if_neg (ne_of_kind kind), if_neg (ne_of_kind kind)]

@[simp] theorem Lexeme.brace?_op (text : String) :
    (Lexeme.op text).brace? =
      if text = "\x7b" then some .opened else if text = "\x7d" then some .closed else none := by
  simp [brace?]

@[simp] theorem Lexeme.brace?_name (text : String) : (Lexeme.name text).brace? = none :=
  brace?_of_kind Kind.noConfusion

@[simp] theorem Lexeme.brace?_type (text : String) : (Lexeme.type text).brace? = none :=
  brace?_of_kind Kind.noConfusion

@[simp] theorem Lexeme.brace?_keyword (text : String) : (Lexeme.keyword text).brace? = none :=
  brace?_of_kind Kind.noConfusion

@[simp] theorem Lexeme.brace?_semicolon : Lexeme.semicolon.brace? = none :=
  brace?_of_kind Kind.noConfusion

@[simp] theorem moves_nil : moves [] = [] := rfl

@[simp] theorem moves_cons (step : Step) (script : List Step) :
    moves (step :: script) = step.brace?.toList ++ moves script := by
  cases found : step.brace? <;> simp [moves, found]

@[simp] theorem moves_append (front back : List Step) :
    moves (front ++ back) = moves front ++ moves back :=
  List.filterMap_append

end Braces

namespace Grammar

theorem Joins.brace?_eq_none {level : Level} {lexeme : Lexeme} {op : BinaryOp}
    (joins : Joins level lexeme op) : lexeme.brace? = none := by
  cases joins <;> rfl

/-- An expression has no braces. -/
theorem Derives.braces_eq_nil {phrase : Phrase} {used : List Token} {value : phrase.Tree}
    (derived : Derives phrase used value) : braces used = [] := by
  induction derived with
  | joined sign joins => simp_all [joins.brace?_eq_none]
  | number | string => exact (braces_cons ..).trans (by simp [Lexeme.brace?_of_kind])
  | _ => simp_all

variable {ahead rest : List Token} {script : List Step}

theorem TakesClause.braces {closing : Lexeme} {value : Option Node} (closes : closing.brace? = none)
    (taken : TakesClause closing ahead script value rest) :
    moves script = [] ∧ braces ahead = braces rest := by
  cases taken with
  | absent => simp [closes]
  | present derived => simp [closes, derived.braces_eq_nil, Step.brace?]

theorem TakesVariable.braces {node : Node} (taken : TakesVariable ahead script node rest) :
    moves script = [] ∧ braces ahead = braces rest := by
  cases taken with
  | plain => simp [Step.brace?]
  | initialized _ _ _ _ _ _ derived => simp [derived.braces_eq_nil, Step.brace?]

theorem TakesInitializer.braces {init : Option Node}
    (taken : TakesInitializer ahead script init rest) :
    moves script = [] ∧ braces ahead = braces rest := by
  cases taken with
  | clause taken => exact taken.braces Lexeme.brace?_semicolon
  | declared taken => exact taken.braces

theorem TakesFurtherParameters.braces {params : List Param}
    (taken : TakesFurtherParameters ahead script params rest) :
    moves script = [] ∧ braces ahead = braces rest := by
  induction taken with
  | closed => simp
  | next => simp_all [Step.brace?]

theorem TakesParameters.braces {params : List Param}
    (taken : TakesParameters ahead script params rest) :
    moves script = [] ∧ braces ahead = braces rest := by
  cases taken with
  | none => simp
  | some _ _ _ _ others => simpa [Step.brace?] using others.braces

/-- Modifiers have no braces. -/
theorem braces_modifiers {modifiers : List Token} (modified : ∀ token ∈ modifiers, Modifies token) :
    braces modifiers = [] :=
  List.filterMap_eq_nil_iff.mpr fun token member =>
    Lexeme.brace?_of_kind (by rw [(modified token member).reserved]; exact Kind.noConfusion)

/-- The closing brace that a construct takes although its script does not close a scope: the
scope around it is left by whoever entered it. -/
def Construct.closing : Construct → List Brace
  | .body _ => [.closed]
  | .members _ => [.closed]
  | _ => []

theorem moves_mark (ahead : List Token) : moves (mark ahead) = [] := by
  cases ahead <;> rfl

theorem Idle.brace?_eq_none {first : Token} (idle : Idle first) : first.toLexeme.brace? = none := by
  have other (text : String) (known : Lexeme.op text ∈ statementLexemes) :
      first.toLexeme ≠ .op text := fun equal => idle.2.2 (equal ▸ known)
  rw [Lexeme.brace?, if_neg (other _ (by decide)), if_neg (other _ (by decide))]

/-- The braces a construct takes are the moves of its script. -/
theorem Takes.braces {construct : Construct} {value : construct.Yield}
    (taken : Takes construct ahead script value rest) :
    braces ahead = moves script ++ construct.closing ++ braces rest := by
  induction taken with
  | statement _ inductionHypothesis =>
      rw [moves_append, moves_mark, inductionHypothesis]
      rfl
  | declared taken =>
      obtain ⟨still, same⟩ := taken.braces
      simp [still, same, Construct.closing]
  | expression _ _ _ derived =>
      have unbraced := derived.braces_eq_nil
      simp_all [Construct.closing, Step.brace?]
  | whileLoop _ _ _ _ guarded _ inductionHypothesis =>
      simp [inductionHypothesis, guarded.braces_eq_nil, Construct.closing, Step.brace?]
  | forLoop _ _ _ initTaken guardTaken updateTaken _ inductionHypothesis =>
      -- The scope is entered in front of the clauses, which have no braces.
      obtain ⟨initStill, initSame⟩ := initTaken.braces
      obtain ⟨guardStill, guardSame⟩ := guardTaken.braces Lexeme.brace?_semicolon
      obtain ⟨updateStill, updateSame⟩ := updateTaken.braces (by simp)
      simp [initStill, initSame, guardStill, guardSame, updateStill, updateSame,
        inductionHypothesis, Construct.closing, Step.brace?]
  | returned _ taken =>
      obtain ⟨still, same⟩ := taken.braces Lexeme.brace?_semicolon
      simp [still, same, Construct.closing]
  | idle idle => simp [idle.brace?_eq_none, Construct.closing]
  | arm _ _ _ _ guarded _ _ bodyBraces otherBraces =>
      simp [bodyBraces, otherBraces, guarded.braces_eq_nil, Construct.closing, Step.brace?]
  | methodRest _ _ _ _ _ paramsTaken _ inductionHypothesis =>
      obtain ⟨still, same⟩ := paramsTaken.braces
      simp [still, same, inductionHypothesis, Construct.closing, Step.brace?]
  | bodyItem _ _ _ firstBraces othersBraces =>
      simp [firstBraces, othersBraces, Construct.closing]
  | field modified taken _ inductionHypothesis =>
      obtain ⟨still, same⟩ := taken.braces
      simp [braces_modifiers modified, still, same, inductionHypothesis, Construct.closing]
  | typedMethod _ _ modified _ _ methodBraces othersBraces
  | constructor _ modified _ _ methodBraces othersBraces =>
      simp_all [braces_modifiers modified, Construct.closing]
  | _ => simp_all [Construct.closing, Step.brace?]

/-- The braces of a program are the moves of its script. -/
theorem TakesProgram.braces {items : List Item} (taken : TakesProgram ahead script items) :
    braces ahead = moves script := by
  induction taken with
  | nil => rfl
  | cons first _ inductionHypothesis =>
      rw [first.braces, inductionHypothesis, moves_append]
      simp [Construct.closing]

end Grammar
end BraceLang
