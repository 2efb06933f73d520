import BraceLang.Proofs.Analysis
import BraceLang.Proofs.Resolution.Agreement

/-!
# One pass finds what a second one would

The analysis carries out its script while the tokens are read; `Node.findings` goes over
the finished tree. Both find the same, in the same order, as long as the tree tells all
there is to tell: a block of a brace that stands alone leaves no node, and of a field
behind a method the tree does not tell that it is declared behind it. Whether a program
has either is seen from its script.
-/

namespace BraceLang

/-- The parts of a program in which a step of a script may be due. -/
inductive Region where
  | statements
  /-- The members of a class of which none so far is a method. -/
  | fields
  /-- The members of a class behind the first method. -/
  | methods
deriving DecidableEq

namespace Region

/-- The region inside a scope. -/
def inside : ScopeKind → Region
  | .classBody => .fields
  | _ => .statements

/-- The regions from the inside out behind a step, unless a brace stands alone or a field
is declared behind a method. -/
def after : List Region → Step → Option (List Region)
  | regions, .enter kind => some (inside kind :: regions)
  | regions, .leave => some regions.tail
  | _, .openBlock => none
  | _, .closeBlock => none
  | .fields :: regions, .declare ⟨_, _, .method⟩ _ => some (.methods :: regions)
  | .methods :: _, .declare ⟨_, _, .variable⟩ _ => none
  | regions, _ => some regions

/-- The region behind the declaration of a method. -/
def behindMethod : Region → Region
  | .statements => .statements
  | .fields => .methods
  | .methods => .methods

theorem after_declare_method {region : Region} {regions : List Region} {symbol : Symbol}
    {location : Location} (method : symbol.kind = .method) :
    after (region :: regions) (.declare symbol location) =
      some (region.behindMethod :: regions) := by
  obtain ⟨_, _, kind⟩ := symbol
  cases method
  cases region <;> rfl

end Region

/-- In a plain script no brace stands alone, and in every class the fields come before
the methods. -/
def Plain (script : List Step) : Prop :=
  (script.foldlM Region.after [.statements]).isSome = true

instance : DecidablePred Plain := fun _ => inferInstanceAs (Decidable (_ = true))

/-- What a script that is plain from a region on comes to: it leaves what is around the
region as it is, and the region in which it ends fulfils a claim. -/
def Region.Entails (region : Region) (script : List Step) (claim : Region → Prop) : Prop :=
  ∀ ⦃regions ahead⦄, script.foldlM Region.after (region :: regions) = some ahead →
    ∃ final, ahead = final :: regions ∧ claim final

/-- What a plain script among statements comes to: a claim, and statements may follow. -/
abbrev AmongStatements (script : List Step) (claim : Prop) : Prop :=
  Region.statements.Entails script fun final => final = .statements ∧ claim

namespace Region.Entails

variable {region next : Region} {front back script : List Step} {claim result : Region → Prop}

theorem nil (holds : claim region) : region.Entails [] claim := by
  intro regions ahead ran
  cases ran
  exact ⟨region, rfl, holds⟩

/-- A step that changes the region and nothing around it. -/
theorem cons {step : Step}
    (steps : ∀ regions, after (region :: regions) step = some (next :: regions))
    (rest : next.Entails script claim) : region.Entails (step :: script) claim := by
  intro regions ahead ran
  rw [List.foldlM_cons, steps] at ran
  exact rest ran

/-- There is nothing to show of a step that is not plain. -/
theorem unplain {step : Step} (stops : ∀ regions, after (region :: regions) step = none) :
    region.Entails (step :: script) claim := by
  intro regions ahead ran
  rw [List.foldlM_cons, stops] at ran
  cases ran

theorem append (first : region.Entails front claim)
    (others : ∀ middle, claim middle → middle.Entails back result) :
    region.Entails (front ++ back) result := by
  intro regions ahead ran
  rw [List.foldlM_append] at ran
  obtain ⟨between, ranFront, ranBack⟩ := Option.bind_eq_some_iff.mp ran
  obtain ⟨middle, rfl, holds⟩ := first ranFront
  exact others middle holds ranBack

theorem followed (first : region.Entails front (· = next)) (others : next.Entails back result) :
    region.Entails (front ++ back) result :=
  first.append fun _ kept => kept ▸ others

/-- A script in a scope of its own leaves the region around it as it is. -/
theorem framed {kind : ScopeKind} (within : (inside kind).Entails script claim)
    (others : ∀ final, claim final → region.Entails back result) :
    region.Entails (.enter kind :: (script ++ .leave :: back)) result := by
  intro regions ahead ran
  change (script ++ .leave :: back).foldlM after (inside kind :: region :: regions) = some ahead
    at ran
  rw [List.foldlM_append] at ran
  obtain ⟨between, ranInside, ranBack⟩ := Option.bind_eq_some_iff.mp ran
  obtain ⟨final, rfl, holds⟩ := within ranInside
  exact others final holds ranBack

theorem mono (entails : region.Entails script claim)
    (implies : ∀ final, claim final → result final) : region.Entails script result := by
  intro regions ahead ran
  obtain ⟨final, same, holds⟩ := entails ran
  exact ⟨final, same, implies final holds⟩

end Region.Entails

namespace Grammar

open Node Resolver

/-- A tree of an expression is resolved by typing it. -/
def Phrase.IsChecked : (phrase : Phrase) → phrase.Tree → Prop
  | .arguments, _ => True
  | .furtherArguments, _ => True
  | .expression, node => node.resolve = check node
  | .operation _, node => node.resolve = check node
  | .unary, node => node.resolve = check node
  | .stepped, node => node.resolve = check node
  | .primary, node => node.resolve = check node
  | .chain, node => node.resolve = check node

theorem Derives.isChecked {phrase : Phrase} {used : List Token} {value : phrase.Tree}
    (derived : Derives phrase used value) : phrase.IsChecked value := by
  induction derived with
  | operation _ inductionHypothesis
  | operand _ inductionHypothesis
  | innermost _ inductionHypothesis
  | unsigned _ inductionHypothesis
  | unstepped _ inductionHypothesis
  | parenthesized _ _ _ inductionHypothesis
  | chained _ inductionHypothesis => exact inductionHypothesis
  | noArguments | arguments | noFurtherArguments | furtherArguments => trivial
  | _ => rfl

section Parts

variable {ahead rest : List Token} {script : List Step}

theorem script_mark (ahead : List Token) (script : List Step) :
    Resolver.script (mark ahead ++ script) = Resolver.script script := by
  cases ahead <;> rfl

theorem entails_mark {claim : Region → Prop} (ahead : List Token)
    (entails : Region.statements.Entails script claim) :
    Region.statements.Entails (mark ahead ++ script) claim := by
  cases ahead with
  | nil => exact entails
  | cons first rest => exact .cons (fun _ => rfl) entails

theorem TakesClause.agrees {closing : Lexeme} {value : Option Node}
    (taken : TakesClause closing ahead script value rest) :
    AgreesAsking (Resolver.script script) (checkOption value) := by
  cases taken with
  | absent => exact .idle
  | present _ => exact script_singleton _ ▸ .check _

theorem TakesClause.resolveOption_eq {closing : Lexeme} {value : Option Node}
    (taken : TakesClause closing ahead script value rest) :
    resolveOption value = checkOption value := by
  cases taken with
  | absent => rfl
  | present derived => exact derived.isChecked

theorem TakesVariable.agrees {node : Node} (taken : TakesVariable ahead script node rest) :
    Agrees (Resolver.script script) node.resolve := by
  cases taken with
  | plain type name place namePlace =>
      exact (Agrees.declare ⟨name, type, .variable⟩ namePlace place).andThen
        AgreesAsking.idle.agrees
  | initialized type name place namePlace =>
      exact (Agrees.declare ⟨name, type, .variable⟩ namePlace place).andThen
        (script_singleton _ ▸ (AgreesAsking.initial name type _).agrees)

theorem TakesInitializer.agrees {init : Option Node}
    (taken : TakesInitializer ahead script init rest) :
    Agrees (Resolver.script script) (resolveOption init) := by
  cases taken with
  | clause taken => exact taken.resolveOption_eq ▸ taken.agrees.agrees
  | declared taken => exact taken.agrees

theorem TakesFurtherParameters.agrees {params : List Param}
    (taken : TakesFurtherParameters ahead script params rest) (location : Location) :
    Agrees (Resolver.script script) (Resolver.parameters location params) := by
  induction taken with
  | closed => exact AgreesAsking.idle.agrees
  | next type name _ _ namePlace _ inductionHypothesis =>
      exact (Agrees.declare ⟨name, type, .parameter⟩ namePlace location).andThen
        inductionHypothesis

theorem TakesParameters.agrees {params : List Param}
    (taken : TakesParameters ahead script params rest) (location : Location) :
    Agrees (Resolver.script script) (Resolver.parameters location params) := by
  cases taken with
  | none => exact AgreesAsking.idle.agrees
  | some type name _ namePlace others =>
      exact (Agrees.declare ⟨name, type, .parameter⟩ namePlace location).andThen
        (others.agrees location)

theorem TakesClause.entails {closing : Lexeme} {value : Option Node} {region : Region}
    (taken : TakesClause closing ahead script value rest) :
    region.Entails script (· = region) := by
  cases taken with
  | absent => exact .nil rfl
  | present => cases region <;> exact .cons (fun _ => rfl) (.nil rfl)

theorem TakesVariable.entails {node : Node} {region : Region}
    (taken : TakesVariable ahead script node rest) :
    region.Entails script fun final => region ≠ .methods ∧ final = region := by
  cases region with
  | methods => cases taken <;> exact .unplain fun _ => rfl
  | statements | fields =>
      cases taken with
      | plain => exact .cons (fun _ => rfl) (.nil ⟨nofun, rfl⟩)
      | initialized => exact .cons (fun _ => rfl) (.cons (fun _ => rfl) (.nil ⟨nofun, rfl⟩))

theorem TakesInitializer.entails {init : Option Node}
    (taken : TakesInitializer ahead script init rest) :
    Region.statements.Entails script (· = .statements) := by
  cases taken with
  | clause taken => exact taken.entails
  | declared taken => exact taken.entails.mono fun _ => And.right

theorem TakesFurtherParameters.entails {params : List Param}
    (taken : TakesFurtherParameters ahead script params rest) :
    Region.statements.Entails script (· = .statements) := by
  induction taken with
  | closed => exact .nil rfl
  | next _ _ _ _ _ _ inductionHypothesis => exact .cons (fun _ => rfl) inductionHypothesis

theorem TakesParameters.entails {params : List Param}
    (taken : TakesParameters ahead script params rest) :
    Region.statements.Entails script (· = .statements) := by
  cases taken with
  | none => exact .nil rfl
  | some _ _ _ _ others => exact .cons (fun _ => rfl) others.entails

end Parts

/-- What a plain script of a construct comes to: it finds what is found in the tree. -/
abbrev Construct.Agrees : (construct : Construct) → List Step → construct.Yield → Prop
  | .statement, script, item => AmongStatements script <|
      Resolver.Agrees (Resolver.script script) (resolveAll item.nodes)
  | .marked, script, item => AmongStatements script <|
      Resolver.Agrees (Resolver.script script) (resolveAll item.nodes)
  | .body _, script, nodes => AmongStatements script <|
      Resolver.Agrees (Resolver.script script) (resolveAll nodes)
  | .conditional, script, node => AmongStatements script <|
      AgreesAsking (Resolver.script script) node.resolve
  | .otherwise, script, other => AmongStatements script <|
      AgreesAsking (Resolver.script script) (resolveElse other)
  | .method _, script, node => ∀ region : Region, region.Entails script fun final =>
      final = region.behindMethod ∧ Resolver.Agrees (Resolver.script script) node.resolve
  | .members _, script, listed => ∀ region : Region, region ≠ .statements →
      region.Entails script fun _ =>
        (region = .methods → listed.filterMap Member.field? = []) ∧
        Resolver.Agrees (Resolver.script script)
          ((resolveAll (listed.filterMap Member.field?)).andThen
            (resolveAll (listed.filterMap Member.method?)))

theorem resolveAll_node (node : Node) : resolveAll (Item.node node).nodes = node.resolve :=
  andThen_idle _

theorem resolveAll_append (front back : List Node) :
    resolveAll (front ++ back) = (resolveAll front).andThen (resolveAll back) := by
  induction front with
  | nil => rfl
  | cons node front inductionHypothesis =>
      rw [List.cons_append, resolveAll, resolveAll, inductionHypothesis, andThen_assoc]

/-- A counting loop has one scope, and so one frame, for its clauses and its body. -/
theorem agrees_forLoop {ahead afterInit afterGuard afterUpdate : List Token}
    {initScript guardScript updateScript script : List Step} {init guard update : Option Node}
    {nodes : List Node} (word : Location)
    (initTaken : TakesInitializer ahead initScript init afterInit)
    (guardTaken : TakesClause .semicolon afterInit guardScript guard afterGuard)
    (updateTaken : TakesClause (.op ")") afterGuard updateScript update afterUpdate)
    (bodyAgrees : (Construct.body 0).Agrees script nodes) :
    Construct.marked.Agrees
      (.enter .block :: (initScript ++ (guardScript ++ (updateScript ++ (script ++ [.leave])))))
      (.node (.forStmt init guard update nodes word)) := by
  have inside : AmongStatements (initScript ++ (guardScript ++ (updateScript ++ script))) _ :=
    initTaken.entails.followed
      (guardTaken.entails.followed (updateTaken.entails.followed bodyAgrees))
  have regrouped : initScript ++ (guardScript ++ (updateScript ++ (script ++ [Step.leave]))) =
      (initScript ++ (guardScript ++ (updateScript ++ script))) ++ [.leave] := by
    simp only [List.append_assoc]
  rw [regrouped]
  refine .framed inside ?_
  rintro _ ⟨_, agrees⟩
  refine .nil ⟨rfl, ?_⟩
  rw [resolveAll_node, script_framed_end, script_append, script_append, script_append]
  exact (initTaken.agrees.andThen (guardTaken.agrees.agrees.andThen
    (updateTaken.agrees.agrees.andThen agrees))).framed.agrees

/-- A method is declared around the frame of its parameters and its body. -/
theorem agrees_methodRest (returnType : Option Token) (name : String) (namePlace : Location)
    {ahead rest : List Token} {paramScript script : List Step} {params : List Param}
    {nodes : List Node} (paramsTaken : TakesParameters ahead paramScript params rest)
    (bodyAgrees : (Construct.body 0).Agrees script nodes) :
    (Construct.method returnType).Agrees
      (.declare ⟨name, (returnType.getD ((Lexeme.name name).token namePlace)).text, .method⟩
        namePlace :: .enter .methodBody :: (paramScript ++ (script ++ [.leave])))
      (.methodDecl (returnType.map (·.text)) name params nodes
        (returnType.getD ((Lexeme.name name).token namePlace)).location) := by
  intro region
  have inside : AmongStatements (paramScript ++ script) _ :=
    paramsTaken.entails.followed bodyAgrees
  rw [← List.append_assoc]
  refine .cons (fun _ => Region.after_declare_method rfl) (.framed inside ?_)
  rintro _ ⟨_, agrees⟩
  refine .nil ⟨rfl, ?_⟩
  rw [Resolver.script, script_framed_end, script_append, resolve,
    declared_type returnType name namePlace]
  exact (Agrees.declare ..).andThen ((paramsTaken.agrees _).andThen agrees).framed.agrees

/-- Behind a method no fields come, so a method in front of the other members is in front of
them in the tree as well. -/
theorem agrees_method {className : String} {returnType : Option Token} {front back : List Step}
    {node : Node} {members : List Member}
    (methodAgrees : (Construct.method returnType).Agrees front node)
    (othersAgree : (Construct.members className).Agrees back members) :
    (Construct.members className).Agrees (front ++ back) (.method node :: members) := by
  intro region among
  have behind : region.behindMethod = .methods := by
    cases region with
    | statements => exact absurd rfl among
    | fields | methods => rfl
  apply (methodAgrees region).append
  rintro _ ⟨rfl, agrees⟩
  rw [behind]
  refine (othersAgree .methods (by decide)).mono ?_
  rintro _ ⟨unfielded, further⟩
  have unfielded := unfielded rfl
  rw [unfielded] at further
  refine ⟨fun _ => unfielded, ?_⟩
  have whole := agrees.andThen further
  rw [← script_append] at whole
  simp only [List.filterMap_cons, Member.field?, unfielded]
  exact whole

/-- A plain script finds what is found in the tree that is read along with it. -/
theorem Takes.agrees {construct : Construct} {ahead rest : List Token} {script : List Step}
    {value : construct.Yield} (taken : Takes construct ahead script value rest) :
    construct.Agrees script value := by
  induction taken with
  | @statement ahead _ script _ _ inductionHypothesis =>
      refine entails_mark ahead (inductionHypothesis.mono ?_)
      rintro _ ⟨rfl, agrees⟩
      exact ⟨rfl, script_mark ahead script ▸ agrees⟩
  | declared taken =>
      apply taken.entails.mono
      rintro _ ⟨_, rfl⟩
      exact ⟨rfl, resolveAll_node _ ▸ taken.agrees⟩
  | method _ _ _ inductionHypothesis =>
      apply (inductionHypothesis .statements).mono
      rintro _ ⟨rfl, agrees⟩
      exact ⟨rfl, resolveAll_node _ ▸ agrees⟩
  | expression _ _ _ derived =>
      refine .cons (fun _ => rfl) (.nil ⟨rfl, ?_⟩)
      rw [resolveAll_node, derived.isChecked, script_singleton]
      exact (AgreesAsking.check _).agrees
  | conditional _ inductionHypothesis =>
      apply inductionHypothesis.mono
      rintro _ ⟨rfl, agrees⟩
      exact ⟨rfl, resolveAll_node _ ▸ agrees.agrees⟩
  | whileLoop _ _ _ _ _ _ inductionHypothesis =>
      refine .cons (fun _ => rfl) (.framed inductionHypothesis ?_)
      rintro _ ⟨_, agrees⟩
      refine .nil ⟨rfl, ?_⟩
      rw [resolveAll_node, Resolver.script, script_framed_end]
      exact (AgreesAsking.check _).agrees.andThen agrees.framed.agrees
  | forLoop word _ _ initTaken guardTaken updateTaken _ inductionHypothesis =>
      exact agrees_forLoop word initTaken guardTaken updateTaken inductionHypothesis
  | returned _ taken =>
      apply taken.entails.mono
      rintro _ rfl
      exact ⟨rfl, resolveAll_node _ ▸ taken.agrees.agrees⟩
  | closedJump jumps | openJump jumps =>
      refine .nil ⟨rfl, ?_⟩
      cases jumps <;> exact AgreesAsking.idle.agrees
  | classBody _ _ _ _ _ inductionHypothesis =>
      refine .cons (fun _ => rfl) (.framed (inductionHypothesis .fields (by decide)) ?_)
      rintro _ ⟨_, agrees⟩
      refine .nil ⟨rfl, ?_⟩
      rw [resolveAll_node, Resolver.script, script_framed_end]
      exact (Agrees.declare ..).andThen agrees.framed.agrees
  | opened | closed => exact .unplain fun _ => rfl
  | idle => exact .nil ⟨rfl, AgreesAsking.idle.agrees⟩
  | arm _ _ _ _ _ _ _ bodyAgrees othersAgree =>
      refine .cons (fun _ => rfl) (.framed bodyAgrees ?_)
      rintro _ ⟨_, agrees⟩
      apply othersAgree.mono
      rintro _ ⟨rfl, further⟩
      refine ⟨rfl, ?_⟩
      rw [Resolver.script, script_framed]
      exact (AgreesAsking.check _).andThen (agrees.framed.andThen further)
  | noElse => exact .nil ⟨rfl, .idle⟩
  | elseBody _ _ _ inductionHypothesis =>
      refine .framed inductionHypothesis ?_
      rintro _ ⟨_, agrees⟩
      exact .nil ⟨rfl, script_framed_end .. ▸ agrees.framed⟩
  | @elseIf _ _ _ _ node _ inductionHypothesis =>
      -- The tree has a frame here for which the script has no scope.
      apply inductionHypothesis.mono
      rintro _ ⟨rfl, agrees⟩
      have single : resolveElse (some [node]) = framed node.resolve :=
        congrArg framed (andThen_idle node.resolve)
      exact ⟨rfl, single ▸ agrees.framed_right⟩
  | methodRest returnType name namePlace _ _ paramsTaken _ inductionHypothesis =>
      exact agrees_methodRest returnType name namePlace paramsTaken inductionHypothesis
  | bodyEnd => exact .nil ⟨rfl, AgreesAsking.idle.agrees⟩
  | bodyItem _ _ _ firstAgrees othersAgree =>
      refine .append firstAgrees ?_
      rintro _ ⟨rfl, agrees⟩
      apply othersAgree.mono
      rintro _ ⟨rfl, further⟩
      refine ⟨rfl, ?_⟩
      rw [script_append, resolveAll_append]
      exact agrees.andThen further
  | membersEnd => exact fun _ _ => .nil ⟨fun _ => rfl, AgreesAsking.idle.agrees⟩
  | field _ taken _ inductionHypothesis =>
      intro region among
      apply taken.entails.append
      rintro _ ⟨early, rfl⟩
      apply (inductionHypothesis _ among).mono
      rintro _ ⟨_, agrees⟩
      refine ⟨fun late => absurd late early, ?_⟩
      have whole := taken.agrees.andThen agrees
      rw [← andThen_assoc, ← script_append] at whole
      exact whole
  | typedMethod _ _ _ _ _ methodAgrees othersAgree
  | constructor _ _ _ _ methodAgrees othersAgree =>
      exact agrees_method methodAgrees othersAgree

theorem TakesProgram.agrees {ahead : List Token} {script : List Step} {items : List Item}
    (taken : TakesProgram ahead script items) :
    AmongStatements script <|
      Resolver.Agrees (Resolver.script script) (resolveAll (items.flatMap Item.nodes)) := by
  induction taken with
  | nil => exact .nil ⟨rfl, AgreesAsking.idle.agrees⟩
  | cons first _ inductionHypothesis =>
      apply first.agrees.append
      rintro _ ⟨rfl, agrees⟩
      apply inductionHypothesis.mono
      rintro _ ⟨rfl, further⟩
      refine ⟨rfl, ?_⟩
      rw [script_append, List.flatMap_cons, resolveAll_append]
      exact agrees.andThen further

end Grammar

/-- The builtins of a session mean what they mean in a frame of their own. -/
theorem Session.alike_start (builtins : List Symbol) :
    (start builtins).frames.Alike ⟨builtins, []⟩ where
  top := (frames_start builtins).2
  outer _ := by rw [(frames_start builtins).1]

/-- What the analysis of a plain program finds wrong in one pass is what is found wrong in
its tree afterwards, in the same order. -/
theorem diagnostics_eq_findings {builtins : List Symbol} {tokens : List Token}
    {analysis : Analysis} (analyzed : analyzeTokens builtins tokens = .ok analysis)
    (plain : Plain (Reading.ofTokens tokens).script) :
    analysis.diagnostics.map Diagnostic.unplaced =
      (analysis.program.findings builtins).map Diagnostic.unplaced := by
  obtain ⟨script, items, taken, rfl⟩ := analyzeTokens_eq_ok_iff.mp analyzed
  rw [Reading.script_ofTokens taken] at plain
  obtain ⟨ahead, ran⟩ := Option.isSome_iff_exists.mp plain
  obtain ⟨_, _, _, agrees⟩ := taken.agrees ran
  obtain ⟨_, _, _, found⟩ := agrees (Session.alike_start builtins)
  rw [← Session.diagnostics_eq (Session.Rooted.start builtins)] at found
  exact found

/-- An `if` behind an `else`, a class with a field and a method that hides it, and a name
bound twice. -/
theorem diagnostics_eq_findings_hidden :
    let tokens := [Lexeme.keyword "class", .name "A", .op "\x7b", .type "int", .name "x",
      .semicolon, .type "int", .name "f", .op "(", .op ")", .op "\x7b", .type "String", .name "x",
      .op "=", .mk .number "1", .semicolon, .op "\x7d", .op "\x7d", .keyword "if", .op "(",
      .name "x", .op ")", .op "\x7b", .op "\x7d", .keyword "else", .keyword "if", .op "(",
      .mk .number "1", .op ")", .op "\x7b", .type "int", .name "A", .semicolon, .type "int",
      .name "A", .semicolon, .op "\x7d", .endOfInput].map (·.token .start)
    ∃ analysis, analyzeTokens standardBuiltins tokens = .ok analysis ∧
      Plain (Reading.ofTokens tokens).script ∧ analysis.diagnostics.length = 3 ∧
      analysis.diagnostics.map Diagnostic.unplaced =
        (analysis.program.findings standardBuiltins).map Diagnostic.unplaced := by
  intro tokens
  obtain ⟨analysis, analyzed⟩ : ∃ analysis, analyzeTokens standardBuiltins tokens = .ok analysis :=
    ⟨_, rfl⟩
  have plain : Plain (Reading.ofTokens tokens).script := by decide
  have counted : analysis.diagnostics.length = 3 := by
    cases analyzed
    decide
  exact ⟨analysis, analyzed, plain, counted, diagnostics_eq_findings analyzed plain⟩

end BraceLang
