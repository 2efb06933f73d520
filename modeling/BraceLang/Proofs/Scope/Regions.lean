import BraceLang.Proofs.Scope.Consistency
import BraceLang.Proofs.Scope.Locality

/-!
# Which regions lie in which

In the body of a class nothing is opened but the bodies of methods, and nothing is declared but
variables and methods. That is a matter of the regions around each step of a script, from the
inside out: `Suits` follows them along a script, without any table. A session whose script suits
the regions around its current scope keeps to what regions admit.
-/

namespace BraceLang

/-- Whether a step may be taken directly in a region. -/
def ScopeKind.Admits (region : ScopeKind) : Step → Prop
  | .enter kind => kind ≠ .global ∧ (region = .classBody → kind = .methodBody)
  | .openBlock => region ≠ .classBody
  | .declare symbol _ => region = .classBody → symbol.kind = .variable ∨ symbol.kind = .method
  | _ => True

/-- The regions around what follows a step in a region and those around it. The outermost region is
never left. -/
def Step.regionsAfter (region : ScopeKind) (outer : List ScopeKind) : Step → List ScopeKind
  | .enter kind => kind :: region :: outer
  | .openBlock => .block :: region :: outer
  | .leave => if outer = [] then [region] else outer
  | .closeBlock => if outer = [] then [region] else outer
  | _ => region :: outer

/-- The regions around the start of a script, each step of which may be taken where it is, and
those around its end. -/
inductive Suits : (regions : List ScopeKind) → List Step → (later : List ScopeKind) → Prop where
  | done (regions : List ScopeKind) : Suits regions [] regions
  | step {region : ScopeKind} {outer later : List ScopeKind} {step : Step} {script : List Step}
      (admits : region.Admits step)
      (further : Suits (step.regionsAfter region outer) script later) :
      Suits (region :: outer) (step :: script) later

namespace Suits

variable {region : ScopeKind} {regions outer middle later : List ScopeKind}
  {front back script : List Step}

theorem trans (first : Suits regions front middle) (second : Suits middle back later) :
    Suits regions (front ++ back) later := by
  induction first with
  | done => exact second
  | step admits _ inductionHypothesis => exact .step admits (inductionHypothesis second)

theorem single {step : Step} (admits : region.Admits step) :
    Suits (region :: outer) [step] (step.regionsAfter region outer) :=
  .step admits (.done _)

/-- What is done in a region of its own comes back to the one around. -/
theorem framed {kind : ScopeKind} (admits : region.Admits (.enter kind))
    (inside : Suits (kind :: region :: outer) script (kind :: region :: outer))
    (further : Suits (region :: outer) back later) :
    Suits (region :: outer) (.enter kind :: (script ++ .leave :: back)) later :=
  .step admits (inside.trans (.step trivial further))

end Suits

namespace Grammar

/-- The regions around what follows an item. -/
def Item.regionsAfter (region : ScopeKind) (outer : List ScopeKind) : Item → List ScopeKind
  | .opened => .block :: region :: outer
  | .closed => if outer = [] then [region] else outer
  | _ => region :: outer

/-- Directly in a body no item closes a block. -/
theorem Item.regionsAfter_of_ne_closed (item : Item) (region : ScopeKind) (outer : List ScopeKind)
    (unclosed : item ≠ .closed) : item.regionsAfter region outer =
      List.replicate (item.openAfter 0) .block ++ region :: outer := by
  cases item with
  | closed => exact absurd rfl unclosed
  | node | opened | nothing => rfl

/-- In a block that is open in a body an item may close that block. -/
theorem Item.regionsAfter_block (item : Item) (openBlocks : Nat) (region : ScopeKind)
    (outer : List ScopeKind) :
    item.regionsAfter .block (List.replicate openBlocks .block ++ region :: outer) =
      List.replicate (item.openAfter (openBlocks + 1)) .block ++ region :: outer := by
  cases item with
  | closed => exact if_neg (by simp)
  | node | opened | nothing => rfl

/-- How the script of a construct suits the regions around it. Only methods may stand directly in
the body of a class; the statements of a body begin inside of the blocks that are open in it. -/
def Construct.Suits (construct : Construct) (script : List Step) (value : construct.Yield) : Prop :=
  ∀ region outer, match construct, value with
    | .statement, item =>
      region ≠ .classBody →
        BraceLang.Suits (region :: outer) script (item.regionsAfter region outer)
    | .marked, item =>
      region ≠ .classBody →
        BraceLang.Suits (region :: outer) script (item.regionsAfter region outer)
    | .body openBlocks, _ =>
      region ≠ .classBody →
        BraceLang.Suits (List.replicate openBlocks .block ++ region :: outer) script
          (region :: outer)
    | .conditional, _ =>
      region ≠ .classBody → BraceLang.Suits (region :: outer) script (region :: outer)
    | .otherwise, _ =>
      region ≠ .classBody → BraceLang.Suits (region :: outer) script (region :: outer)
    | .method _, _ => BraceLang.Suits (region :: outer) script (region :: outer)
    | .members _, _ =>
      BraceLang.Suits (.classBody :: region :: outer) script (.classBody :: region :: outer)

section Parts

variable {ahead rest : List Token} {script : List Step} (region : ScopeKind)
  (outer : List ScopeKind)

theorem TakesClause.suits {closing : Lexeme} {value : Option Node}
    (taken : TakesClause closing ahead script value rest) :
    Suits (region :: outer) script (region :: outer) := by
  cases taken with
  | absent => exact .done _
  | present => exact .single trivial

/-- A variable may be declared in every region. -/
theorem TakesVariable.suits {node : Node} (taken : TakesVariable ahead script node rest) :
    Suits (region :: outer) script (region :: outer) := by
  cases taken with
  | plain => exact .single fun _ => .inl rfl
  | initialized => exact .step (fun _ => .inl rfl) (.single trivial)

theorem TakesInitializer.suits {init : Option Node}
    (taken : TakesInitializer ahead script init rest) :
    Suits (region :: outer) script (region :: outer) := by
  cases taken with
  | clause taken => exact taken.suits region outer
  | declared taken => exact taken.suits region outer

theorem TakesFurtherParameters.suits {params : List Param}
    (taken : TakesFurtherParameters ahead script params rest) (inside : region ≠ .classBody) :
    Suits (region :: outer) script (region :: outer) := by
  induction taken with
  | closed => exact .done _
  | next _ _ _ _ _ _ inductionHypothesis =>
      exact .step (fun here => absurd here inside) inductionHypothesis

theorem TakesParameters.suits {params : List Param}
    (taken : TakesParameters ahead script params rest) (inside : region ≠ .classBody) :
    Suits (region :: outer) script (region :: outer) := by
  cases taken with
  | none => exact .done _
  | some _ _ _ _ others =>
      exact .step (fun here => absurd here inside) (others.suits region outer inside)

end Parts

/-- Every construct suits the regions in which it may stand. -/
theorem Takes.suits {construct : Construct} {ahead rest : List Token} {script : List Step}
    {value : construct.Yield} (taken : Takes construct ahead script value rest) :
    construct.Suits script value := by
  have block {region : ScopeKind} (inside : region ≠ .classBody) :
      region.Admits (.enter .block) := ⟨ScopeKind.noConfusion, fun here => absurd here inside⟩
  induction taken with
  | @statement ahead _ script _ _ inductionHypothesis =>
      intro region outer inside
      have marked : Suits (region :: outer) (mark ahead) (region :: outer) := by
        cases ahead with
        | nil => exact .done _
        | cons => exact .single trivial
      exact marked.trans (inductionHypothesis region outer inside)
  | declared taken => exact fun region outer _ => taken.suits region outer
  | method _ _ _ inductionHypothesis => exact fun region outer _ => inductionHypothesis region outer
  | expression => exact fun _ _ _ => .single trivial
  | conditional _ inductionHypothesis
  | elseIf _ _ inductionHypothesis => exact inductionHypothesis
  | whileLoop _ _ _ _ _ _ inductionHypothesis =>
      intro region outer inside
      exact .step trivial (.framed (block inside)
        (inductionHypothesis .block (region :: outer) ScopeKind.noConfusion) (.done _))
  | forLoop _ _ _ initTaken guardTaken updateTaken _ inductionHypothesis =>
      intro region outer inside
      have framed := Suits.framed (block inside)
        ((initTaken.suits .block (region :: outer)).trans
          ((guardTaken.suits .block (region :: outer)).trans
            ((updateTaken.suits .block (region :: outer)).trans
              (inductionHypothesis .block (region :: outer) ScopeKind.noConfusion)))) (.done _)
      simp only [List.append_assoc] at framed
      exact framed
  | returned _ taken => exact fun region outer _ => taken.suits region outer
  | closedJump jumps | openJump jumps => cases jumps <;> exact fun _ _ _ => .done _
  | classBody _ _ _ _ _ inductionHypothesis =>
      intro region outer inside
      exact .step (fun here => absurd here inside)
        (.framed ⟨ScopeKind.noConfusion, fun here => absurd here inside⟩
          (inductionHypothesis region outer) (.done _))
  | opened => exact fun _ _ inside => .single inside
  | closed => exact fun _ _ _ => .single trivial
  | idle | noElse => exact fun _ _ _ => .done _
  | arm _ _ _ _ _ _ _ bodySuits othersSuit =>
      intro region outer inside
      exact .step trivial (.framed (block inside)
        (bodySuits .block (region :: outer) ScopeKind.noConfusion) (othersSuit region outer inside))
  | elseBody _ _ _ inductionHypothesis =>
      intro region outer inside
      exact .framed (block inside)
        (inductionHypothesis .block (region :: outer) ScopeKind.noConfusion) (.done _)
  | methodRest _ _ _ _ _ paramsTaken _ inductionHypothesis =>
      intro region outer
      have admits : region.Admits (.enter .methodBody) :=
        ⟨ScopeKind.noConfusion, fun _ => rfl⟩
      have framed := Suits.framed admits
        ((paramsTaken.suits .methodBody (region :: outer) ScopeKind.noConfusion).trans
          (inductionHypothesis .methodBody (region :: outer) ScopeKind.noConfusion)) (.done _)
      rw [List.append_assoc] at framed
      exact .step (fun _ => .inr rfl) framed
  | bodyEnd => exact fun _ _ _ => .done _
  | membersEnd => exact fun _ _ => .done _
  | @bodyItem openBlocks _ _ _ _ _ item _ inside first _ firstSuits othersSuit =>
      intro region outer plain
      have others := othersSuit region outer plain
      -- A closing brace among the items finds a block of the body open: else it would end the body.
      cases openBlocks with
      | zero =>
          have unclosed : item ≠ .closed := by
            rintro rfl
            exact inside rfl first.starts_of_closed
          rw [← item.regionsAfter_of_ne_closed region outer unclosed] at others
          exact (firstSuits region outer plain).trans others
      | succ openBlocks =>
          rw [← item.regionsAfter_block] at others
          exact (firstSuits .block _ ScopeKind.noConfusion).trans others
  | field _ taken _ inductionHypothesis =>
      exact fun region outer => (taken.suits .classBody (region :: outer)).trans
        (inductionHypothesis region outer)
  | typedMethod _ _ _ _ _ methodSuits othersSuit
  | constructor _ _ _ _ methodSuits othersSuit =>
      exact fun region outer => (methodSuits .classBody (region :: outer)).trans
        (othersSuit region outer)

/-- Where no statement stands directly in a class, every program suits the regions around it. -/
theorem TakesProgram.suits {ahead : List Token} {script : List Step} {items : List Item}
    (taken : TakesProgram ahead script items) {region : ScopeKind} {outer : List ScopeKind}
    (plain : ∀ kind ∈ region :: outer, kind ≠ .classBody) :
    ∃ later, Suits (region :: outer) script later := by
  induction taken generalizing region outer with
  | nil => exact ⟨_, .done _⟩
  | @cons _ _ _ _ item _ first _ inductionHypothesis =>
      obtain ⟨here, around⟩ := List.forall_mem_cons.mp plain
      have suits := first.suits region outer here
      obtain ⟨next, further, equal, stillPlain⟩ : ∃ next further,
          item.regionsAfter region outer = next :: further ∧
            ∀ kind ∈ next :: further, kind ≠ .classBody := by
        cases item with
        | opened => exact ⟨_, _, rfl, List.forall_mem_cons.mpr ⟨ScopeKind.noConfusion, plain⟩⟩
        | closed =>
            cases outer with
            | nil => exact ⟨_, _, rfl, plain⟩
            | cons => exact ⟨_, _, rfl, around⟩
        | node | nothing => exact ⟨_, _, rfl, plain⟩
      obtain ⟨later, others⟩ := inductionHypothesis stillPlain
      exact ⟨later, .trans suits (equal ▸ others)⟩

end Grammar

namespace ScopeTable

variable {table : ScopeTable} {id : ScopeId}

/-- Whether the scopes of a table keep to what their regions admit. -/
structure KeepsRegions (table : ScopeTable) : Prop where
  global : ∀ id < table.size, table.kind id = .global ↔ id = root
  children : ∀ child id, table.parent? child = some id → table.kind id = .classBody →
    table.kind child = .methodBody
  symbols : ∀ id, table.kind id = .classBody →
    ∀ symbol ∈ table.symbols id, symbol.kind = .variable ∨ symbol.kind = .method

namespace KeepsRegions

theorem empty : KeepsRegions empty where
  global id inside := by
    obtain rfl := Nat.lt_one_iff.mp inside
    exact ⟨fun _ => rfl, fun _ => rfl⟩
  children child id found := by simp at found
  symbols id inside := by cases id <;> cases inside

theorem enter (keeps : table.KeepsRegions) (descending : table.Descending)
    (inhabited : 0 < table.size) (inside : id < table.size) {kind : ScopeKind}
    (admits : (table.kind id).Admits (.enter kind)) : (table.enter id kind).KeepsRegions where
  global other known := by
    rw [size_enter] at known
    rw [kind_enter inside]
    split_ifs with fresh
    · subst fresh
      exact iff_of_false admits.1 (Nat.ne_of_gt inhabited)
    · exact keeps.global other (Nat.lt_of_le_of_ne (Nat.le_of_lt_succ known) fresh)
  children child other found around := by
    rw [parent?_enter inside] at found
    rw [kind_enter inside] at around ⊢
    split_ifs at found with fresh
    · obtain rfl := Option.some.inj found
      rw [if_neg (Nat.ne_of_lt inside)] at around
      rw [if_pos fresh]
      exact admits.2 around
    · have known := Nat.lt_trans (descending found) (lt_size_of_parent? found)
      rw [if_neg (Nat.ne_of_lt known)] at around
      rw [if_neg fresh]
      exact keeps.children child other found around
  symbols other around := by
    rw [symbols_enter inside]
    rw [kind_enter inside] at around
    split_ifs at around with fresh
    · rw [fresh, ScopeTable.symbols, scope_of_size_le (Nat.le_refl _)]
      exact List.forall_mem_nil _
    · exact keeps.symbols other around

theorem bound (keeps : table.KeepsRegions) (inside : id < table.size) {symbol : Symbol}
    (admits : table.kind id = .classBody → symbol.kind = .variable ∨ symbol.kind = .method) :
    (table.bound id symbol).KeepsRegions where
  global other known := by
    rw [size_bound] at known
    rw [kind_bound inside]
    exact keeps.global other known
  children child other found around := by
    rw [parent?_bound inside] at found
    rw [kind_bound inside] at around ⊢
    exact keeps.children child other found around
  symbols other around added member := by
    rw [kind_bound inside] at around
    rw [symbols_bound inside] at member
    split_ifs at member with here
    · obtain ⟨rfl, -⟩ := here
      rcases List.mem_append.mp member with member | member
      · exact keeps.symbols other around added member
      · rw [List.mem_singleton.mp member]
        exact admits around
    · exact keeps.symbols other around added member

theorem foldl_bound (keeps : table.KeepsRegions) (inside : id < table.size)
    (plain : table.kind id ≠ .classBody) (symbols : List Symbol) :
    (symbols.foldl (fun table symbol => table.bound id symbol) table).KeepsRegions := by
  induction symbols generalizing table with
  | nil => exact keeps
  | cons symbol symbols inductionHypothesis =>
      refine inductionHypothesis (keeps.bound inside fun here => absurd here plain) ?_ ?_
      · rwa [size_bound]
      · rwa [kind_bound inside]

end KeepsRegions
end ScopeTable

namespace Session

variable {session : Session}

/-- The regions around the current scope, its own first. -/
def regionsAround (session : Session) : List ScopeKind :=
  (session.scopes.around session.current).map session.scopes.kind

/-- The region of the current scope. -/
def region (session : Session) : ScopeKind := session.scopes.kind session.current

theorem regions_enter (rooted : session.Rooted) (kind : ScopeKind) :
    (session.enter kind).region :: (session.enter kind).regionsAround =
      kind :: session.region :: session.regionsAround := by
  have kept : ∀ id ∈ session.current :: session.scopes.around session.current,
      (session.enter kind).scopes.kind id = session.scopes.kind id := by
    intro id member
    rw [← ScopeTable.path_eq_cons_around] at member
    have below := Nat.lt_of_le_of_lt (rooted.descending.le_of_mem_path member) rooted.inside
    rw [Session.enter, ScopeTable.kind_enter rooted.inside, if_neg (Nat.ne_of_lt below)]
  have own : (session.enter kind).region = kind := by
    rw [region, Session.enter, ScopeTable.kind_enter rooted.inside, if_pos rfl]
  have around : (session.enter kind).scopes.around (session.enter kind).current =
      session.current :: session.scopes.around session.current :=
    rooted.descending.around_entered rooted.inside kind
  rw [own, regionsAround, around, List.map_congr_left kept]
  rfl

theorem regions_leave (rooted : session.Rooted) :
    session.leave.region :: session.leave.regionsAround =
      if session.regionsAround = [] then [session.region] else session.regionsAround := by
  simp only [region, regionsAround, leave, ScopeTable.outer]
  cases found : session.scopes.parent? session.current with
  | none => simp [ScopeTable.around_of_parent_eq_none found]
  | some parent => simp [rooted.descending.around_of_parent found]

/-- A step does to the regions around a session what it does to regions. -/
theorem regions_after (rooted : session.Rooted) (step : Step) :
    (session.after step).region :: (session.after step).regionsAround =
      step.regionsAfter session.region session.regionsAround := by
  cases step with
  | enter kind => exact regions_enter rooted kind
  | openBlock => exact regions_enter rooted .block
  | leave | closeBlock => exact regions_leave rooted
  | declare symbol location =>
      have kinds : (session.after (.declare symbol location)).scopes.kind = session.scopes.kind :=
        funext (ScopeTable.kind_bound rooted.inside symbol)
      rw [region, regionsAround, kinds, after, rooted.descending.around_bound rooted.inside]
      rfl
  | statement | check | initial => rfl

/-- The scopes of a session keep to what their regions admit. -/
theorem keepsRegions_after (rooted : session.Rooted) (keeps : session.scopes.KeepsRegions)
    {step : Step} (admits : session.region.Admits step) :
    (session.after step).scopes.KeepsRegions := by
  have inhabited := Nat.lt_of_le_of_lt (Nat.zero_le _) rooted.inside
  cases step with
  | enter kind => exact keeps.enter rooted.descending inhabited rooted.inside admits
  | openBlock =>
      exact keeps.enter rooted.descending inhabited rooted.inside
        ⟨ScopeKind.noConfusion, fun here => absurd here admits⟩
  | declare symbol location => exact keeps.bound rooted.inside admits
  | leave | closeBlock | statement | check | initial => exact keeps

theorem keepsRegions_run (rooted : session.Rooted) (keeps : session.scopes.KeepsRegions)
    {script : List Step} {later : List ScopeKind}
    (suits : Suits (session.region :: session.regionsAround) script later) :
    (session.run script).scopes.KeepsRegions := by
  induction script generalizing session with
  | nil => exact keeps
  | cons step script inductionHypothesis =>
      cases suits with
      | step admits further =>
          rw [← regions_after rooted] at further
          exact inductionHypothesis (rooted.after step) (keepsRegions_after rooted keeps admits)
            further

theorem keepsRegions_start (builtins : List Symbol) :
    (start builtins).scopes.KeepsRegions :=
  ScopeTable.KeepsRegions.empty.foldl_bound Nat.one_pos ScopeKind.noConfusion builtins

/-- In front of the first step there is no region but that of the root. -/
theorem regions_start (builtins : List Symbol) :
    (start builtins).region :: (start builtins).regionsAround = [.global] := by
  have orphan : (start builtins).scopes.parent? (start builtins).current = none :=
    (Follows.start builtins).parent ScopeTable.root
  have root : (start builtins).region = .global :=
    ((keepsRegions_start builtins).global _ (Rooted.start builtins).inside).mpr rfl
  rw [root, regionsAround, ScopeTable.around_of_parent_eq_none orphan]
  rfl

end Session
end BraceLang
