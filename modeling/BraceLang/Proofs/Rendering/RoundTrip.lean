import BraceLang.Proofs.Analysis
import BraceLang.Proofs.Rendering.Statement

/-!
# Reading undoes writing

A statement takes its own tokens and yields its own tree, whatever stands behind it
as long as that is no `else`. So the statements of a program take all its tokens, and
the analysis of what is written out for a program has that program.
-/

namespace BraceLang.Grammar

open Node

variable {rest : List Token}

section Parts

theorem takesClause_written (closing : Lexeme) {value : Option Node} (place : Location)
    (shaped : value.all isExpression = true) (rest : List Token) :
    ∃ script,
      TakesClause closing (writtenClause closing place value ++ rest) script value rest := by
  cases value with
  | none => exact ⟨[], .absent place rest⟩
  | some node =>
      refine ⟨[.check node], ?_⟩
      rw [writtenClause, List.append_assoc]
      exact .present (derives_written shaped) place rest

theorem takesVariable_written {type name : String} {init : Option Node} (place : Location)
    (shaped : init.all isExpression = true) (rest : List Token) :
    ∃ script, TakesVariable (writtenVariable type name init place ++ rest) script
      (.variableDecl type name init place) rest := by
  cases init with
  | none => exact ⟨_, .plain type name place place place rest⟩
  | some value =>
      have initialized := TakesVariable.initialized type name place place place place
        (derives_written shaped) rest
      exact ⟨_, by simpa [writtenVariable] using initialized⟩

theorem takesInitializer_written {init : Option Node} (place : Location)
    (shaped : init.all (fun node => node.isVariable || node.isExpression) = true)
    (rest : List Token) :
    ∃ script, TakesInitializer (writtenInitializer place init ++ rest) script init rest := by
  by_cases declared : ∃ type name value declaredPlace,
      init = some (.variableDecl type name value declaredPlace)
  · obtain ⟨type, name, value, declaredPlace, rfl⟩ := declared
    have valueShaped : value.all isExpression = true := by
      simpa [isVariable, isExpression] using shaped
    obtain ⟨script, taken⟩ := takesVariable_written declaredPlace valueShaped rest
    exact ⟨script, .declared taken⟩
  · have clause : writtenInitializer place init = writtenClause .semicolon place init := by
      unfold writtenInitializer
      split
      · exact absurd ⟨_, _, _, _, rfl⟩ declared
      · rfl
    have valueShaped : init.all isExpression = true := by
      cases init with
      | none => rfl
      | some node => cases node <;> simp_all [isVariable]
    obtain ⟨script, taken⟩ := takesClause_written .semicolon place valueShaped rest
    exact ⟨script, .clause (clause ▸ taken)⟩

theorem takesFurtherParameters_written (place : Location) (params : List Param)
    (rest : List Token) :
    ∃ script, TakesFurtherParameters (writtenFurtherParams place params ++ rest) script params
      rest := by
  induction params with
  | nil => exact ⟨[], .closed place rest⟩
  | cons param params inductionHypothesis =>
      obtain ⟨script, others⟩ := inductionHypothesis
      exact ⟨_, .next param.type param.name place place place others⟩

theorem takesParameters_written (place : Location) (params : List Param) (rest : List Token) :
    ∃ script, TakesParameters (writtenParams place params ++ rest) script params rest := by
  cases params with
  | nil => exact ⟨[], .none place rest⟩
  | cons param params =>
      obtain ⟨script, others⟩ := takesFurtherParameters_written place params rest
      exact ⟨_, .some param.type param.name place place others⟩

end Parts

/-- The statements that are expressions begin with a name and end with a semicolon. -/
theorem exists_name_of_isStatement {node : Node} (shaped : node.isStatement = true)
    (expression : node.isExpression = true) :
    ∃ name place tail, node.written = (Lexeme.name name).token place :: tail ∧
      node.writtenStatement = (Lexeme.name name).token place ::
        (tail ++ [Lexeme.semicolon.token node.location]) := by
  have starts : node.startsWithName = true := by cases node <;> simp_all [isStatement, isExpression]
  have tokens : node.writtenStatement = node.written ++ [Lexeme.semicolon.token node.location] := by
    cases node <;> first | rfl | simp [isExpression] at expression
  rw [startsWithName] at starts
  rcases written : node.written with _ | ⟨⟨⟨kind, name⟩, place⟩, tail⟩
  · simp [written] at starts
  · obtain rfl : kind = .identifier := by simpa [written] using starts
    exact ⟨name, place, tail, rfl, by rw [tokens, written]; rfl⟩

/-- The first token of a statement is neither an `else` nor a closing brace. -/
theorem exists_first {node : Node} (shaped : node.isStatement = true) :
    ∃ first tail, node.writtenStatement = first :: tail ∧
      first.toLexeme ≠ .keyword "else" ∧ first.toLexeme ≠ .op "\x7d" := by
  cases node with
  | methodDecl returnType =>
      cases returnType with
      | none => simp [isStatement] at shaped
      | some type => exact ⟨_, _, rfl, Lexeme.ne_of_kind Kind.noConfusion,
          Lexeme.ne_of_kind Kind.noConfusion⟩
  | variableDecl =>
      exact ⟨_, _, rfl, Lexeme.ne_of_kind Kind.noConfusion, Lexeme.ne_of_kind Kind.noConfusion⟩
  | block => simp [isStatement] at shaped
  | classDecl | ifStmt | whileStmt | forStmt | returnStmt | breakStmt | continueStmt =>
      exact ⟨_, _, rfl, by simp, Lexeme.ne_of_kind Kind.noConfusion⟩
  | _ =>
      have expression := shaped
      simp only [isStatement, Bool.and_eq_true] at expression
      obtain ⟨name, place, tail, _, equal⟩ := exists_name_of_isStatement shaped expression.1
      exact ⟨_, _, equal, Lexeme.ne_of_kind Kind.noConfusion, Lexeme.ne_of_kind Kind.noConfusion⟩

/-- A statement takes what is written out for it, whatever but an `else` stands behind it. -/
def TakenAsWritten (node : Node) : Prop :=
  node.isStatement = true → ∀ rest, ¬ (Lexeme.keyword "else").Starts rest →
    ∃ script, Takes .marked (node.writtenStatement ++ rest) script (.node node) rest

/-- A body takes what is written out for its statements. -/
def TakenAsBody (nodes : List Node) : Prop :=
  areStatements nodes = true → ∀ place rest,
    ∃ script, Takes (.body 0) (writtenStatements nodes ++ (Lexeme.op "\x7d").token place :: rest)
      script nodes rest

theorem TakenAsWritten.expression {node : Node}
    (form : node.isStatement = (node.isExpression && node.startsWithName)) :
    TakenAsWritten node := by
  intro shaped rest _
  have expression : node.isExpression = true := by
    rw [form, Bool.and_eq_true] at shaped
    exact shaped.1
  obtain ⟨name, place, tail, written, equal⟩ := exists_name_of_isStatement shaped expression
  have derived := derives_written expression
  rw [written] at derived
  rw [equal, List.cons_append, List.append_assoc]
  exact ⟨_, .expression name place node.location derived rest⟩

theorem TakenAsWritten.declared {type name : String} {init : Option Node} {place : Location} :
    TakenAsWritten (.variableDecl type name init place) := by
  intro shaped rest _
  obtain ⟨script, taken⟩ := takesVariable_written place shaped rest
  exact ⟨script, .declared taken⟩

theorem takesMethod_written (returnType : Option Token) {body : List Node} (name : String)
    (params : List Param) (place : Location) (bodyTaken : TakenAsBody body)
    (shaped : areStatements body = true) (rest : List Token) :
    ∃ script, Takes (.method returnType)
      ((Lexeme.name name).token place :: (Lexeme.op "(").token place ::
        (writtenParams place params ++ braced place (writtenStatements body)) ++ rest)
      script (.methodDecl (returnType.map (·.text)) name params body
        (returnType.getD ((Lexeme.name name).token place)).location) rest := by
  obtain ⟨script, inside⟩ := bodyTaken shaped place rest
  obtain ⟨paramScript, paramsTaken⟩ := takesParameters_written place params
    ((Lexeme.op "\x7b").token place ::
      (writtenStatements body ++ (Lexeme.op "\x7d").token place :: rest))
  have taken := Takes.methodRest returnType name place place place paramsTaken inside
  exact ⟨_, by simpa [braced] using taken⟩

theorem TakenAsWritten.method {returnType : Option String} {body : List Node} (name : String)
    (params : List Param) (place : Location) (bodyTaken : TakenAsBody body) :
    TakenAsWritten (.methodDecl returnType name params body place) := by
  intro shaped rest _
  simp only [isStatement, Bool.and_eq_true] at shaped
  obtain ⟨type, rfl⟩ := Option.isSome_iff_exists.mp shaped.1
  obtain ⟨script, taken⟩ := takesMethod_written (some ((Lexeme.type type).token place))
    name params place bodyTaken shaped.2 rest
  exact ⟨script, .method type place taken⟩

theorem TakenAsWritten.whileLoop {condition : Node} {body : List Node} (place : Location)
    (bodyTaken : TakenAsBody body) : TakenAsWritten (.whileStmt condition body place) := by
  intro shaped rest _
  simp only [isStatement, Bool.and_eq_true] at shaped
  obtain ⟨script, inside⟩ := bodyTaken shaped.2 place rest
  have taken := Takes.whileLoop place place place place (derives_written shaped.1) inside
  exact ⟨_, by simpa [writtenStatement, braced] using taken⟩

theorem TakenAsWritten.forLoop {init condition update : Option Node} {body : List Node}
    (place : Location) (bodyTaken : TakenAsBody body) :
    TakenAsWritten (.forStmt init condition update body place) := by
  intro shaped rest _
  simp only [isStatement, Bool.and_eq_true] at shaped
  obtain ⟨⟨⟨initShaped, conditionShaped⟩, updateShaped⟩, bodyShaped⟩ := shaped
  obtain ⟨script, inside⟩ := bodyTaken bodyShaped place rest
  obtain ⟨updateScript, updateTaken⟩ := takesClause_written (.op ")") place updateShaped
    ((Lexeme.op "\x7b").token place ::
      (writtenStatements body ++ (Lexeme.op "\x7d").token place :: rest))
  obtain ⟨guardScript, guardTaken⟩ := takesClause_written .semicolon place
    conditionShaped (writtenClause (.op ")") place update ++ (Lexeme.op "\x7b").token place ::
      (writtenStatements body ++ (Lexeme.op "\x7d").token place :: rest))
  obtain ⟨initScript, initTaken⟩ := takesInitializer_written place initShaped
    (writtenClause .semicolon place condition ++ (writtenClause (.op ")") place update ++
      (Lexeme.op "\x7b").token place ::
        (writtenStatements body ++ (Lexeme.op "\x7d").token place :: rest)))
  have taken := Takes.forLoop place place place initTaken guardTaken updateTaken inside
  exact ⟨_, by simpa [writtenStatement, braced] using taken⟩

/-- What happens otherwise is taken as it is written out. -/
def TakenAsElse (other : Option (List Node)) : Prop :=
  areElseStatements other = true → ∀ place rest, ¬ (Lexeme.keyword "else").Starts rest →
    ∃ script, Takes .otherwise (writtenElse place other ++ rest) script other rest

theorem TakenAsElse.none : TakenAsElse none := fun _ _ _ ended => ⟨[], .noElse ended⟩

theorem TakenAsElse.some {nodes : List Node} (bodyTaken : TakenAsBody nodes) :
    TakenAsElse (some nodes) := by
  intro shaped place rest _
  obtain ⟨script, inside⟩ := bodyTaken shaped place rest
  have taken := Takes.elseBody place place inside
  exact ⟨_, by simpa [writtenElse, braced] using taken⟩

theorem TakenAsWritten.conditional {condition : Node} {thenBranch : List Node}
    {elseBranch : Option (List Node)} (place : Location) (bodyTaken : TakenAsBody thenBranch)
    (elseTaken : TakenAsElse elseBranch) :
    TakenAsWritten (.ifStmt condition thenBranch elseBranch place) := by
  intro shaped rest ended
  simp only [isStatement, Bool.and_eq_true] at shaped
  obtain ⟨⟨conditionShaped, thenShaped⟩, elseShaped⟩ := shaped
  obtain ⟨otherScript, others⟩ := elseTaken elseShaped place rest ended
  obtain ⟨script, inside⟩ := bodyTaken thenShaped place (writtenElse place elseBranch ++ rest)
  have taken := Takes.arm place place place place (derives_written conditionShaped) inside others
  exact ⟨_, .conditional (by simpa [writtenStatement, braced] using taken)⟩

theorem TakenAsWritten.returned {value : Option Node} (place : Location) :
    TakenAsWritten (.returnStmt value place) := by
  intro shaped rest _
  obtain ⟨script, taken⟩ := takesClause_written .semicolon place shaped rest
  exact ⟨script, .returned place taken⟩

/-- The methods of a class take what is written out for them. -/
def TakenAsMethods (className : String) (methods : List Node) : Prop :=
  areMethods className methods = true → ∀ place rest,
    ∃ script, Takes (.members className)
      (writtenStatements methods ++ (Lexeme.op "\x7d").token place :: rest) script
      (methods.map Member.method) rest

theorem TakenAsMethods.cons {className name : String} {returnType : Option String}
    {params : List Param} {body methods : List Node} (place : Location)
    (bodyTaken : TakenAsBody body) (othersTaken : TakenAsMethods className methods) :
    TakenAsMethods className (.methodDecl returnType name params body place :: methods) := by
  intro shaped closing rest
  simp only [areMethods, Bool.and_eq_true, Bool.or_eq_true, decide_eq_true_eq] at shaped
  obtain ⟨⟨named, bodyShaped⟩, othersShaped⟩ := shaped
  obtain ⟨back, others⟩ := othersTaken othersShaped closing rest
  have unmodified : ∀ token ∈ ([] : List Token), Modifies token := by simp
  cases returnType with
  | none =>
      obtain rfl : name = className := by simpa using named
      obtain ⟨front, method⟩ := takesMethod_written none name params place bodyTaken bodyShaped
        (writtenStatements methods ++ (Lexeme.op "\x7d").token closing :: rest)
      have taken := Takes.constructor place unmodified method others
      exact ⟨_, by simpa [writtenStatements, writtenStatement] using taken⟩
  | some type =>
      obtain ⟨front, method⟩ := takesMethod_written (some ((Lexeme.type type).token place)) name
        params place bodyTaken bodyShaped
        (writtenStatements methods ++ (Lexeme.op "\x7d").token closing :: rest)
      have taken := Takes.typedMethod type place unmodified method others
      exact ⟨_, by simpa [writtenStatements, writtenStatement] using taken⟩

/-- Fields in front of the methods are members too. -/
theorem takesMembers_written {className : String} {fields methods : List Node}
    (fieldsShaped : fields.all isVariable = true)
    (methodsShaped : areMethods className methods = true)
    (methodsTaken : TakenAsMethods className methods) (place : Location) (rest : List Token) :
    ∃ script, Takes (.members className)
      (writtenStatements fields ++
        (writtenStatements methods ++ (Lexeme.op "\x7d").token place :: rest)) script
      (fields.map Member.field ++ methods.map Member.method) rest := by
  induction fields with
  | nil => exact methodsTaken methodsShaped place rest
  | cons field fields inductionHypothesis =>
      simp only [List.all_cons, Bool.and_eq_true] at fieldsShaped
      obtain ⟨back, others⟩ := inductionHypothesis fieldsShaped.2
      cases field with
      | variableDecl type name init declared =>
          obtain ⟨front, taken⟩ := takesVariable_written declared fieldsShaped.1 _
          have unmodified : ∀ token ∈ ([] : List Token), Modifies token := by simp
          have member := Takes.field unmodified taken others
          exact ⟨_, by simpa [writtenStatements, writtenStatement] using member⟩
      | _ => simp [isVariable] at fieldsShaped

theorem filterMap_field (fields methods : List Node) :
    (fields.map Member.field ++ methods.map Member.method).filterMap Member.field? = fields := by
  simp [List.filterMap_append, List.filterMap_map, Function.comp_def, Member.field?]

theorem filterMap_method (fields methods : List Node) :
    (fields.map Member.field ++ methods.map Member.method).filterMap Member.method? = methods := by
  simp [List.filterMap_append, List.filterMap_map, Function.comp_def, Member.method?]

theorem TakenAsWritten.classBody {name : String} {fields methods : List Node} (place : Location)
    (methodsTaken : TakenAsMethods name methods) :
    TakenAsWritten (.classDecl name fields methods place) := by
  intro shaped rest _
  simp only [isStatement, Bool.and_eq_true] at shaped
  obtain ⟨script, members⟩ := takesMembers_written shaped.1 shaped.2 methodsTaken place rest
  have taken := Takes.classBody name place place place members
  rw [filterMap_field, filterMap_method] at taken
  exact ⟨_, by simpa [writtenStatement, braced] using taken⟩

/-- Statements do not begin with an `else`, nor does what closes their body. -/
theorem not_starts_else {nodes : List Node} (shaped : areStatements nodes = true)
    (ended : ¬ (Lexeme.keyword "else").Starts rest) :
    ¬ (Lexeme.keyword "else").Starts (writtenStatements nodes ++ rest) := by
  cases nodes with
  | nil => exact ended
  | cons node nodes =>
      simp only [areStatements, Bool.and_eq_true] at shaped
      obtain ⟨first, tail, written, notElse, _⟩ := exists_first shaped.1
      simpa [writtenStatements, written] using notElse

theorem TakenAsBody.nil : TakenAsBody [] := fun _ place rest => ⟨[], .bodyEnd place rest⟩

theorem TakenAsBody.cons {node : Node} {nodes : List Node} (firstTaken : TakenAsWritten node)
    (othersTaken : TakenAsBody nodes) : TakenAsBody (node :: nodes) := by
  intro shaped place rest
  simp only [areStatements, Bool.and_eq_true] at shaped
  obtain ⟨back, others⟩ := othersTaken shaped.2 place rest
  obtain ⟨front, first⟩ := firstTaken shaped.1
    (writtenStatements nodes ++ (Lexeme.op "\x7d").token place :: rest)
    (not_starts_else shaped.2 (by simp [Lexeme.op, Lexeme.keyword]))
  obtain ⟨leading, tail, written, _, notBrace⟩ := exists_first shaped.1
  have inside : 0 = 0 → ¬ (Lexeme.op "\x7d").Starts (node.writtenStatement ++
      (writtenStatements nodes ++ (Lexeme.op "\x7d").token place :: rest)) := fun _ => by
    simpa [written] using notBrace
  have taken := Takes.bodyItem inside (.statement first) others
  exact ⟨_, by simpa [writtenStatements] using! taken⟩

mutual

theorem takenAsWritten : (node : Node) → TakenAsWritten node
  | .variableDecl _ _ _ _ => .declared
  | .methodDecl _ name params body place => .method name params place (takenAsBody body)
  | .classDecl name _ methods place => .classBody place (takenAsMethods name methods)
  | .block _ _ => nofun
  | .ifStmt _ thenBranch elseBranch place =>
      .conditional place (takenAsBody thenBranch) (takenAsElse elseBranch)
  | .whileStmt _ body place => .whileLoop place (takenAsBody body)
  | .forStmt _ _ _ body place => .forLoop place (takenAsBody body)
  | .returnStmt _ place => .returned place
  | .breakStmt place => fun _ rest _ => ⟨[], .closedJump .break place place rest⟩
  | .continueStmt place => fun _ rest _ => ⟨[], .closedJump .continue place place rest⟩
  | .assignment _ _ _ => .expression rfl
  | .binary _ _ _ _ => .expression rfl
  | .unary _ _ _ => .expression rfl
  | .step _ _ _ => .expression rfl
  | .call _ _ _ => .expression rfl
  | .field _ _ _ => .expression rfl
  | .reference _ _ => .expression rfl
  | .number _ _ => .expression rfl
  | .string _ _ => .expression rfl

theorem takenAsBody : (nodes : List Node) → TakenAsBody nodes
  | [] => .nil
  | node :: nodes => .cons (takenAsWritten node) (takenAsBody nodes)

theorem takenAsElse : (other : Option (List Node)) → TakenAsElse other
  | none => .none
  | some nodes => .some (takenAsBody nodes)

theorem takenAsMethods (className : String) :
    (methods : List Node) → TakenAsMethods className methods
  | [] => fun _ place rest => ⟨[], .membersEnd className place rest⟩
  | node :: methods => by
      cases node with
      | methodDecl => exact .cons _ (takenAsBody _) (takenAsMethods className methods)
      | _ => exact fun shaped => absurd shaped (by simp [areMethods])

end

/-- A program takes what is written out for its statements. -/
theorem takesProgram_written {nodes : List Node} (shaped : areStatements nodes = true) :
    ∃ script, TakesProgram (writtenStatements nodes) script (nodes.map Item.node) := by
  induction nodes with
  | nil => exact ⟨[], .nil⟩
  | cons node nodes inductionHypothesis =>
      simp only [areStatements, Bool.and_eq_true] at shaped
      obtain ⟨back, others⟩ := inductionHypothesis shaped.2
      have ended := not_starts_else shaped.2 (Lexeme.not_starts_nil (.keyword "else"))
      rw [List.append_nil] at ended
      obtain ⟨front, first⟩ := takenAsWritten node shaped.1 (writtenStatements nodes) ended
      exact ⟨_, .cons (.statement first) others⟩

section Inside

/-- Whether no end of input is among tokens. -/
def Inside (tokens : List Token) : Prop := ∀ token ∈ tokens, token.kind ≠ .endOfInput

@[simp] theorem inside_nil : Inside [] := nofun

@[simp] theorem inside_cons (first : Token) (tokens : List Token) :
    Inside (first :: tokens) ↔ first.kind ≠ .endOfInput ∧ Inside tokens :=
  List.forall_mem_cons

@[simp] theorem inside_append (front back : List Token) :
    Inside (front ++ back) ↔ Inside front ∧ Inside back :=
  List.forall_mem_append

@[simp] theorem inside_enclose (needed : Bool) (place : Location) (tokens : List Token) :
    Inside (enclose needed place tokens) ↔ Inside tokens := by
  cases needed <;> simp [enclose, Lexeme.op]

@[simp] theorem inside_braced (place : Location) (tokens : List Token) :
    Inside (braced place tokens) ↔ Inside tokens := by
  simp [braced, Lexeme.op]

@[simp] theorem kind_lexeme (op : BinaryOp) : op.lexeme.kind ≠ .endOfInput := by
  cases op <;> simp [BinaryOp.lexeme, BinaryOp.tightness]

@[simp] theorem inside_written (node : Node) : Inside node.written := by
  refine (written.mutual_induct_unfolding (fun _ tokens => Inside tokens)
    (fun _ _ tokens => Inside tokens) (fun _ _ tokens => Inside tokens)
    ?_ ?_ ?_ ?_ ?_ ?_ ?_ ?_ ?_ ?_ ?_ ?_ ?_ ?_).1 node
  all_goals
    intros
    simp_all [writtenArgs, writtenFurtherArgs, Lexeme.op, Lexeme.name]

@[simp] theorem inside_writtenClause {closing : Lexeme} (closes : closing.kind ≠ .endOfInput)
    (value : Option Node) (place : Location) : Inside (writtenClause closing place value) := by
  cases value <;> simp [writtenClause, closes]

@[simp] theorem inside_writtenVariable (type name : String) (init : Option Node)
    (place : Location) : Inside (writtenVariable type name init place) := by
  cases init <;> simp [writtenVariable, Lexeme.semicolon, Lexeme.op]

@[simp] theorem inside_writtenInitializer (init : Option Node) (place : Location) :
    Inside (writtenInitializer place init) := by
  unfold writtenInitializer
  split <;> simp [Lexeme.semicolon]

@[simp] theorem inside_writtenFurtherParams (place : Location) (params : List Param) :
    Inside (writtenFurtherParams place params) := by
  induction params <;> simp_all [writtenFurtherParams, Lexeme.op]

@[simp] theorem inside_writtenParams (place : Location) (params : List Param) :
    Inside (writtenParams place params) := by
  cases params <;> simp [writtenParams, Lexeme.op]

theorem inside_writtenStatements (nodes : List Node) : Inside (writtenStatements nodes) := by
  refine (writtenStatement.mutual_induct_unfolding (fun _ tokens => Inside tokens)
    (fun _ _ tokens => Inside tokens) (fun _ tokens => Inside tokens)
    ?_ ?_ ?_ ?_ ?_ ?_ ?_ ?_ ?_ ?_ ?_ ?_ ?_ ?_ ?_).2.2 nodes
  case refine_2 =>
    intro returnType
    cases returnType <;> simp_all [Lexeme.op]
  all_goals
    intros
    simp_all [Lexeme.op, Lexeme.keyword, Lexeme.semicolon]

end Inside

end BraceLang.Grammar

namespace BraceLang

/-- Whether a tree is a program that reading can build: a block of statements at the place of
its first token. -/
def Node.isProgram : Node → Bool
  | .block statements place =>
    areStatements statements && (writtenStatements statements).head?.all (·.location = place)
  | _ => false

/-- The tokens of a program, closed by the end of input. -/
def Node.writtenProgram (program : Node) : List Token :=
  writtenStatements program.statements ++ [Lexeme.endOfInput.token program.location]

theorem Input.ofTokens_written {tokens : List Token} (inside : Grammar.Inside tokens)
    (place : Location) :
    Input.ofTokens (tokens ++ [Lexeme.endOfInput.token place]) = ⟨tokens, ⟨place, []⟩⟩ :=
  ofTokens_stop inside rfl

theorem Grammar.nodes_map_node (nodes : List Node) :
    (nodes.map Grammar.Item.node).flatMap Grammar.Item.nodes = nodes := by
  induction nodes with
  | nil => rfl
  | cons node nodes inductionHypothesis =>
      rw [List.map_cons, List.flatMap_cons, inductionHypothesis]
      rfl

/-- What is written out for a program is read as that program. -/
theorem analyzeTokens_writtenProgram (builtins : List Symbol) (program : Node)
    (shaped : program.isProgram = true) :
    ∃ analysis, analyzeTokens builtins program.writtenProgram = .ok analysis ∧
      analysis.program = program := by
  cases program with
  | block statements place =>
      simp only [Node.isProgram, Bool.and_eq_true] at shaped
      obtain ⟨statementsShaped, placed⟩ := shaped
      obtain ⟨script, taken⟩ := Grammar.takesProgram_written statementsShaped
      have input : Input.ofTokens (Node.block statements place).writtenProgram =
          ⟨Node.writtenStatements statements, ⟨place, []⟩⟩ :=
        Input.ofTokens_written (Grammar.inside_writtenStatements statements) place
      have same : (Input.ofTokens (Node.block statements place).writtenProgram).program
          (statements.map .node) = .block statements place := by
        rw [input, Input.program, Grammar.nodes_map_node]
        rcases written : Node.writtenStatements statements with _ | ⟨first, tail⟩
        · rfl
        · simpa [written] using placed
      have consumed : Grammar.TakesProgram
          (Input.ofTokens (Node.block statements place).writtenProgram).ahead script
          (statements.map .node) := input ▸ taken
      exact ⟨_, analyzeTokens_eq_ok_iff.mpr ⟨script, _, consumed, rfl⟩, same⟩
  | _ => simp [Node.isProgram] at shaped

/-- A class with a field and a constructor, and an `if` with an else branch behind it. -/
theorem analyzeTokens_writtenProgram_class :
    let place (column : Nat) : Location := ⟨1, column⟩
    let program : Node := .block
      [.classDecl "Counter" [.variableDecl "int" "count" (some (.number "0" (place 2))) (place 3)]
        [.methodDecl none "Counter" [⟨"int", "start"⟩]
          [.assignment (.reference "count" (place 5)) (.reference "start" (place 6)) (place 7)]
          (place 8)] (place 1),
       .ifStmt (.binary .lt (.reference "a" (place 9)) (.number "2" (place 10)) (place 11))
        [.breakStmt (place 12)]
        (some [.step .increment (.reference "a" (place 13)) (place 14)]) (place 15)] (place 1)
    program.isProgram = true ∧
      ∃ analysis, analyzeTokens standardBuiltins program.writtenProgram = .ok analysis ∧
        analysis.program = program := by
  intro place program
  have shaped : program.isProgram = true := by decide
  exact ⟨shaped, analyzeTokens_writtenProgram standardBuiltins program shaped⟩

end BraceLang
