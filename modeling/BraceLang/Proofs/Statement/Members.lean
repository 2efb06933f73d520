import BraceLang.Proofs.Horizon.Statement
import BraceLang.Proofs.Scope.Pairing

/-!
# Declarations read alike in a class and elsewhere

A type begins a method or a variable. Among statements a parenthesis two tokens on tells
which, whatever stands in front of it; among the members of a class there has to be a name in
front of it as well. The two answers differ only where no name stands behind the type, and
there neither a method nor a variable can be read.

In a class the answer may also be found by taking the type and the name and going back. That
leaves no trace, so it is the answer of a look ahead.
-/

namespace BraceLang

open Grammar Scripted

/-- Read on, and go back to where the reading began. -/
def Reader.foreseen {α : Type} (reader : Reader α) : Reader α := fun stop ahead =>
  (reader stop ahead).map fun (value, _) => (value, ahead)

namespace Grammar

open Reader

/-- Take a type and the name behind it, and tell whether a parenthesis is opened there. -/
def opensMethod : Reader Bool := do
  skip
  if (← peek).kind = .identifier then
    skip
    at? (.op "(")
  else
    return false

/-- A member with a type in front, of which it is first read on what it is. -/
def foreseenMember (inner : Scripted Item) : Scripted Member := do
  if ← opensMethod.foreseen then
    return .method (← methodDeclaration inner)
  else
    return .field (← variableDeclaration)

/-- Whether a member is the method or the variable that a tree declares. -/
inductive Member.Declares : Member → Node → Prop where
  | method (returnType : Option String) (name : String) (params : List Param) (body : List Node)
      (location : Location) :
      Declares (.method (.methodDecl returnType name params body location))
        (.methodDecl returnType name params body location)
  | field (type name : String) (init : Option Node) (location : Location) :
      Declares (.field (.variableDecl type name init location))
        (.variableDecl type name init location)

/-- Two outcomes are those of one declaration, read as a member and as a statement: either the
same tree and the same tokens left, or failures at the same place. The statement is marked in
front of its script, and else the scripts are the same. -/
inductive ReadAlike (mark : List Step) : Outcome (Option Member) → Outcome Item → Prop where
  | ok {script : List Step} {found : Member} {node : Node} {rest : List Token}
      (declares : found.Declares node) :
      ReadAlike mark ⟨script, .ok (some found, rest)⟩ ⟨mark ++ script, .ok (.node node, rest)⟩
  | error {script : List Step} (cause otherCause : Cause) (location : Location) :
      ReadAlike mark ⟨script, .error ⟨cause, location⟩⟩
        ⟨mark ++ script, .error ⟨otherCause, location⟩⟩

namespace ReadAlike

variable {mark : List Step} {asMember : Outcome (Option Member)} {asStatement : Outcome Item}

theorem scripts (alike : ReadAlike mark asMember asStatement) :
    asStatement.script = mark ++ asMember.script := by
  cases alike <;> rfl

theorem results (alike : ReadAlike mark asMember asStatement) :
    (∃ found node rest, asMember.result = .ok (some found, rest) ∧
      asStatement.result = .ok (.node node, rest) ∧ found.Declares node) ∨
    ∃ error otherError, asMember.result = .error error ∧
      asStatement.result = .error otherError ∧ error.location = otherError.location := by
  cases alike with
  | ok declares => exact .inl ⟨_, _, _, rfl, rfl, declares⟩
  | error => exact .inr ⟨_, _, rfl, rfl, rfl⟩

end ReadAlike

section Choices

variable {inner : Scripted Item} {stop : Terminator} {first : Token} {tail : List Token}

theorem expect_refused {wanted : Wanted} {ahead : List Token} (position : Position)
    (refused : wanted.admits (ahead.headD stop.token) = false) :
    expect wanted position stop ahead =
      .error ⟨.missing wanted position (ahead.headD stop.token).toLexeme,
        (ahead.headD stop.token).location⟩ := by
  cases ahead with
  | nil => rfl
  | cons first tail => simp_all [expect, bind, take?, refuse]

/-- Where no name stands behind the type, there is no variable. -/
theorem variableDeclaration_unnamed (unnamed : (tail.headD stop.token).kind ≠ .identifier) :
    variableDeclaration stop (first :: tail) =
      ⟨[], .error ⟨.missing .identifier .afterType (tail.headD stop.token).toLexeme,
        (tail.headD stop.token).location⟩⟩ := by
  have taken : next stop (first :: tail) = .ok (first, tail) := rfl
  have refused : expect .identifier .afterType stop tail = _ :=
    expect_refused .afterType (decide_eq_false unnamed)
  rw [variableDeclaration, bind_ok (lift_eq taken), bind_error (lift_eq refused)]
  rfl

/-- Where no name stands behind the type, there is no method. -/
theorem methodDeclaration_unnamed (unnamed : (tail.headD stop.token).kind ≠ .identifier) :
    methodDeclaration inner stop (first :: tail) =
      ⟨[], .error ⟨.missing .identifier .methodName (tail.headD stop.token).toLexeme,
        (tail.headD stop.token).location⟩⟩ := by
  have taken : next stop (first :: tail) = .ok (first, tail) := rfl
  have refused : expect .identifier .methodName stop tail = _ :=
    expect_refused .methodName (decide_eq_false unnamed)
  rw [methodDeclaration, bind_ok (lift_eq taken), methodRest, bind_error (lift_eq refused)]
  rfl

/-- Whether a name and an opening parenthesis stand behind a type. -/
def headsMethod (stop : Terminator) (tail : List Token) : Bool :=
  (tail.headD stop.token).kind = .identifier && (tail.tail.headD stop.token).is (.op "(")

/-- A member behind a type is chosen by a look ahead. -/
theorem typedMember_eq :
    typedMember inner stop (first :: tail) =
      if headsMethod stop tail then (Member.method <$> methodDeclaration inner) stop (first :: tail)
      else (Member.field <$> variableDeclaration) stop (first :: tail) := by
  cases tail with
  | nil => rfl
  | cons second tail =>
      rw [typedMember, bind_ok (lift_eq (sees_one _ stop first (second :: tail))),
        bind_ok (lift_eq (sees_two _ stop first second tail))]
      change _ = if (second.kind = .identifier && (tail.headD stop.token).is (.op "(")) = true
        then _ else _
      rw [List.headD_cons]
      split <;> rfl

/-- What is read on and gone back over is what a look ahead sees. -/
theorem foreseenMember_eq_typedMember :
    foreseenMember inner stop (first :: tail) = typedMember inner stop (first :: tail) := by
  have foreseen : opensMethod.foreseen stop (first :: tail) =
      .ok (headsMethod stop tail, first :: tail) := by
    obtain _ | ⟨second, tail⟩ := tail
    · rfl
    by_cases named : second.kind = .identifier
    · cases tail <;> simp [opensMethod, Reader.foreseen, headsMethod, bind, skip, peek, at?,
        Except.map, named, Terminator.token, Lexeme.endOfInput, Lexeme.op]
    · simp [opensMethod, Reader.foreseen, headsMethod, bind, pure, skip, peek, Except.map, named]
  rw [typedMember_eq, foreseenMember, bind_ok (lift_eq foreseen)]
  split <;> rfl

theorem declaration_of_named (named : (tail.headD stop.token).kind = .identifier) :
    declaration inner stop (first :: tail) =
      if headsMethod stop tail then methodDeclaration inner stop (first :: tail)
      else variableDeclaration stop (first :: tail) := by
  cases tail with
  | nil => cases named
  | cons second tail =>
      have heads : headsMethod stop (second :: tail) = (tail.headD stop.token).is (.op "(") := by
        rw [headsMethod, named]
        rfl
      rw [heads, declaration, bind_ok (lift_eq (sees_two _ stop first second tail))]
      split <;> rfl

theorem declaration_eq_or (inner : Scripted Item) (stop : Terminator) (ahead : List Token) :
    declaration inner stop ahead = methodDeclaration inner stop ahead ∨
      declaration inner stop ahead = variableDeclaration stop ahead := by
  obtain ⟨answer, seen⟩ : ∃ answer, sees 2 (·.is (.op "(")) stop ahead = .ok (answer, ahead) :=
    ⟨_, rfl⟩
  rw [declaration, bind_ok (lift_eq seen)]
  cases answer with
  | true => exact .inl rfl
  | false => exact .inr rfl

end Choices

section Alike

variable {inner innerSecond : Scripted Item} {stop : Terminator} {first : Token}
  {tail : List Token}

/-- Readers that come to the same, the one as a member and the other as a statement. -/
theorem ReadAlike.of_same {reader readerSecond : Scripted Node} {make : Node → Member}
    {ahead : List Token} (mark : List Step) (same : reader stop ahead = readerSecond stop ahead)
    (declares : ∀ script node rest, Reads reader stop ahead script node rest →
      (make node).Declares node) :
    ReadAlike mark
      ⟨((make <$> reader) stop ahead).script,
        ((make <$> reader) stop ahead).result.map fun (found, rest) => (some found, rest)⟩
      ⟨mark ++ (readerSecond stop ahead).script,
        (readerSecond stop ahead).result.map fun (node, rest) => (.node node, rest)⟩ := by
  rw [← same]
  rcases outcome : reader stop ahead with ⟨script, failure | ⟨node, rest⟩⟩
  · have failed : (make <$> reader) stop ahead = ⟨script, .error failure⟩ := bind_error outcome
    rw [failed]
    exact .error failure.cause failure.cause failure.location
  · have made := bind_pure_eq reader make stop ahead
    rw [outcome] at made
    have read : (make <$> reader) stop ahead = ⟨script, .ok (make node, rest)⟩ := made
    rw [read]
    exact .ok (declares script node rest outcome)

theorem Member.declares_of_method {script : List Step} {node : Node} {rest : List Token}
    (reads : Reads (methodDeclaration inner) stop (first :: tail) script node rest) :
    (Member.method node).Declares node := by
  have behind : Reads (methodRest inner (some first)) stop tail script node rest := reads
  obtain ⟨_, _, _, _, _, _, _, _, _, ⟨_, _, rfl⟩, _⟩ := reads_methodRest.mp behind
  exact .method ..

theorem Member.declares_of_variable {script : List Step} {node : Node} {rest : List Token}
    (typed : first.kind = .dataType)
    (reads : Reads variableDeclaration stop (first :: tail) script node rest) :
    (Member.field node).Declares node := by
  obtain ⟨⟨kind, text⟩, place⟩ := first
  obtain rfl : kind = .dataType := typed
  cases reads_variableDeclaration.mp reads <;> exact .field ..

/-- A member that begins with a type has no modifiers, and its class is not at its end. -/
theorem member_of_typed (className : String) (typed : first.kind = .dataType) :
    member inner className stop (first :: tail) =
      ⟨(typedMember inner stop (first :: tail)).script,
        (typedMember inner stop (first :: tail)).result.map fun (found, rest) =>
          (some found, rest)⟩ := by
  obtain ⟨⟨kind, text⟩, place⟩ := first
  obtain rfl : kind = .dataType := typed
  exact bind_pure_eq (typedMember inner) some stop _

/-- A statement that begins with a type is a declaration. -/
theorem statement_of_typed (typed : first.kind = .dataType) :
    statement inner stop (first :: tail) =
      ⟨mark (first :: tail) ++ (declaration inner stop (first :: tail)).script,
        (declaration inner stop (first :: tail)).result.map fun (node, rest) =>
          (.node node, rest)⟩ := by
  have declared : statementFrom inner first = Item.node <$> declaration inner := by
    rw [statementFrom, typed]
  have made : (Item.node <$> declaration inner) stop (first :: tail) = _ :=
    bind_pure_eq (declaration inner) Item.node stop (first :: tail)
  rw [statement_eq, declared, made]

/-- As a member and as a statement a declaration comes to the same. -/
theorem readAlike (className : String) (typed : first.kind = .dataType)
    (readers : DispatchesInStep tail.length inner innerSecond) :
    ReadAlike (mark (first :: tail)) (member inner className stop (first :: tail))
      (statement innerSecond stop (first :: tail)) := by
  rw [member_of_typed className typed, statement_of_typed typed, typedMember_eq]
  by_cases named : (tail.headD stop.token).kind = .identifier
  · rw [declaration_of_named named]
    split
    · have same := (takesInStep_methodDeclaration readers stop (first :: tail) (Nat.le_refl _)).1
      exact .of_same _ same fun _ _ _ => Member.declares_of_method
    · exact .of_same _ rfl fun _ _ _ => Member.declares_of_variable typed
  · have unheaded : headsMethod stop tail = false := by
      rw [headsMethod, decide_eq_false named, Bool.false_and]
    have noField : (Member.field <$> variableDeclaration) stop (first :: tail) = _ :=
      bind_error (variableDeclaration_unnamed named)
    rw [unheaded, if_neg Bool.false_ne_true, noField]
    rcases declaration_eq_or innerSecond stop (first :: tail) with method | variable_
    · rw [method, methodDeclaration_unnamed named]
      exact .error _ _ _
    · rw [variable_, variableDeclaration_unnamed named]
      exact .error _ _ _

end Alike

end Grammar

/-- A declaration that begins with a type, wherever it is read, is the same as a member of a class,
of whatever name, and as a statement. Either both are read, as the same method or the same
variable with the same tokens left, or both fail at the same place. The scopes, the current one,
what is found wrong and the open blocks are the same in either case; and a class that reads the
head of the declaration first, and goes back, comes to just the same member. -/
theorem declarations_read_alike (builtins : List Symbol) (before : List Step) (stop : Terminator)
    {first : Token} {tail : List Token} {tokens others : Nat} (className : String)
    (typed : first.kind = .dataType) (enough : tail.length ≤ tokens)
    (alsoEnough : (first :: tail).length ≤ others) :
    let session := (Session.start builtins).run before
    let asMember := member (statementWithin tokens) className stop (first :: tail)
    let asStatement := statementWithin others stop (first :: tail)
    ((∃ found node rest, asMember.result = .ok (some found, rest) ∧
        asStatement.result = .ok (.node node, rest) ∧ found.Declares node) ∨
      ∃ error otherError, asMember.result = .error error ∧
        asStatement.result = .error otherError ∧ error.location = otherError.location) ∧
      session.run asMember.script = session.run asStatement.script ∧
      session.diagnostics asMember.script = session.diagnostics asStatement.script ∧
      (∀ blocks : OpenBlocks, blocks.run asMember.script = blocks.run asStatement.script) ∧
      typedMember (statementWithin tokens) stop (first :: tail) =
        foreseenMember (statementWithin tokens) stop (first :: tail) := by
  intro session asMember asStatement
  obtain ⟨others, rfl⟩ : ∃ fewer, others = fewer + 1 := ⟨others - 1, by simp at alsoEnough; omega⟩
  have readers := dispatchesInStep_statementWithin enough (Nat.le_of_succ_le_succ alsoEnough)
  have alike : ReadAlike (mark (first :: tail)) asMember asStatement :=
    readAlike className typed readers
  refine ⟨alike.results, ?_, ?_, ?_, foreseenMember_eq_typedMember.symm⟩
  all_goals rw [alike.scripts]
  · rfl
  · rfl
  · exact fun blocks => rfl

/-- A number and a parenthesis behind a type: a method among statements, a field among members,
and neither has a name. -/
theorem declarations_read_alike_unnamed :
    let first := (Lexeme.type "int").token ⟨1, 1⟩
    let tail := [(Lexeme.mk .number "5").token ⟨1, 5⟩, (Lexeme.op "(").token ⟨1, 6⟩]
    let session := (Session.start []).run [.openBlock]
    let asMember := member (statementWithin 2) "A" ⟨⟨1, 7⟩, []⟩ (first :: tail)
    let asStatement := statementWithin 3 ⟨⟨1, 7⟩, []⟩ (first :: tail)
    asMember.result = .error ⟨.missing .identifier .afterType ⟨.number, "5"⟩, ⟨1, 5⟩⟩ ∧
      asStatement.result = .error ⟨.missing .identifier .methodName ⟨.number, "5"⟩, ⟨1, 5⟩⟩ ∧
      session.run asMember.script = session.run asStatement.script ∧
      session.diagnostics asMember.script = session.diagnostics asStatement.script := by
  intro first tail session asMember asStatement
  have typed : first.kind = .dataType := rfl
  have enough : tail.length ≤ 2 := Nat.le_refl 2
  have alsoEnough : (first :: tail).length ≤ 3 := Nat.le_refl 3
  obtain ⟨_, same, found, _⟩ :=
    declarations_read_alike [] [.openBlock] ⟨⟨1, 7⟩, []⟩ "A" typed enough alsoEnough
  exact ⟨rfl, rfl, same, found⟩

end BraceLang
