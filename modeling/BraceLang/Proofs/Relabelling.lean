import Mathlib.Logic.Function.Basic
import BraceLang.Grammar.Statement
import BraceLang.Proofs.Reading

/-!
# Other words at other places

The grammar compares names with nothing but each other, and places with nothing at all. A
`Relabelling` changes both: the words that names and types are written with, one to one, and
the places of all tokens. What is built from tokens is relabelled along with them: trees,
symbols, and the steps of a script.

Two relabellings have no words to change. `Relabelling.moved` only puts everything elsewhere,
and `Relabelling.same` not even that.
-/

namespace BraceLang

/-- A change of words and places. The type of classes is written in the program of no one, so
its word stays. -/
structure Relabelling where
  word : String → String
  place : Location → Location
  injective : Function.Injective word
  fixes_class : word "class" = "class"

namespace Relabelling

/-- The same words at other places. -/
def moved (place : Location → Location) : Relabelling :=
  ⟨id, place, Function.injective_id, rfl⟩

/-- The same words at the same places. -/
def same : Relabelling := moved id

/-- Whether all words stay. -/
def KeepsWords (change : Relabelling) : Prop := change.word = id

theorem keepsWords_moved (place : Location → Location) : (moved place).KeepsWords := rfl

end Relabelling

variable {change : Relabelling}

namespace Lexeme

/-- Whether a lexeme is written with a word that may change. -/
def IsWord (lexeme : Lexeme) : Prop :=
  lexeme.kind = .identifier ∨ lexeme.kind = .dataType

instance (lexeme : Lexeme) : Decidable lexeme.IsWord :=
  inferInstanceAs (Decidable (_ ∨ _))

theorem not_isWord_op (text : String) : ¬ (op text).IsWord := by
  rintro (kind | kind) <;> cases kind

/-- A lexeme in other words. -/
def relabel (change : Relabelling) (lexeme : Lexeme) : Lexeme :=
  if lexeme.IsWord then ⟨lexeme.kind, change.word lexeme.text⟩ else lexeme

@[simp] theorem relabel_kind (lexeme : Lexeme) : (lexeme.relabel change).kind = lexeme.kind := by
  unfold relabel
  split <;> rfl

theorem relabel_of_isWord {lexeme : Lexeme} (isWord : lexeme.IsWord) :
    lexeme.relabel change = ⟨lexeme.kind, change.word lexeme.text⟩ := if_pos isWord

theorem relabel_of_not_isWord {lexeme : Lexeme} (unnamed : ¬ lexeme.IsWord) :
    lexeme.relabel change = lexeme := if_neg unnamed

theorem relabel_of_keepsWords (keeps : change.KeepsWords) (lexeme : Lexeme) :
    lexeme.relabel change = lexeme := by
  rw [relabel, keeps, id, ite_self]

/-- No lexeme turns into one that is not written with a word. -/
theorem relabel_eq_iff {lexeme : Lexeme} (other : Lexeme) (unnamed : ¬ lexeme.IsWord) :
    other.relabel change = lexeme ↔ other = lexeme := by
  by_cases isWord : other.IsWord
  · have differ (third : Lexeme) (kind : third.kind = other.kind) : third ≠ lexeme := by
      rintro rfl
      rw [IsWord, kind] at unnamed
      exact unnamed isWord
    exact iff_of_false (differ _ (relabel_kind other)) (differ other rfl)
  · rw [relabel_of_not_isWord isWord]

end Lexeme

namespace Token

/-- A token in other words at another place. -/
def relabel (change : Relabelling) (token : Token) : Token :=
  ⟨token.toLexeme.relabel change, change.place token.location⟩

@[simp] theorem relabel_toLexeme (token : Token) :
    (token.relabel change).toLexeme = token.toLexeme.relabel change := rfl

@[simp] theorem relabel_location (token : Token) :
    (token.relabel change).location = change.place token.location := rfl

@[simp] theorem relabel_kind (token : Token) : (token.relabel change).kind = token.kind :=
  Lexeme.relabel_kind token.toLexeme

/-- A token with another word for its text, at another place. -/
def reword (change : Relabelling) (token : Token) : Token :=
  ⟨⟨token.kind, change.word token.text⟩, change.place token.location⟩

theorem relabel_eq_reword {token : Token} (isWord : token.IsWord) :
    token.relabel change = token.reword change :=
  congrArg (Token.mk · _) (Lexeme.relabel_of_isWord isWord)

theorem relabel_text_of_not_isWord {token : Token} (unnamed : ¬ token.IsWord) :
    (token.relabel change).text = token.text :=
  congrArg Lexeme.text (Lexeme.relabel_of_not_isWord unnamed)

theorem relabel_is {lexeme : Lexeme} (token : Token) (unnamed : ¬ lexeme.IsWord) :
    (token.relabel change).is lexeme = token.is lexeme :=
  decide_eq_decide.mpr (Lexeme.relabel_eq_iff token.toLexeme unnamed)

theorem relabel_admits (wanted : Wanted) (token : Token) :
    wanted.admits (token.relabel change) = wanted.admits token := by
  cases wanted with
  | identifier | dataType => simp [Wanted.admits]
  | _ => exact relabel_is token (by decide)

/-- A token moves to another place as it is. -/
theorem relabel_moved (place : Location → Location) (token : Token) :
    token.relabel (.moved place) = ⟨token.toLexeme, place token.location⟩ := by
  rw [relabel, Lexeme.relabel_of_keepsWords (Relabelling.keepsWords_moved place)]
  rfl

@[simp] theorem relabel_same (token : Token) : token.relabel .same = token :=
  relabel_moved id token

end Token

/-- A parameter in other words. -/
def Param.relabel (change : Relabelling) (param : Param) : Param :=
  ⟨change.word param.type, change.word param.name⟩

theorem Param.map_relabel_same (params : List Param) : params.map (Param.relabel .same) = params :=
  List.map_id params

/-- A symbol in other words. -/
def Symbol.relabel (change : Relabelling) (symbol : Symbol) : Symbol :=
  ⟨change.word symbol.name, change.word symbol.type, symbol.kind⟩

namespace Node

mutual

/-- A tree in other words at other places. -/
def relabel (change : Relabelling) : Node → Node
  | .variableDecl type name init location =>
    .variableDecl (change.word type) (change.word name) (relabelOption change init)
      (change.place location)
  | .methodDecl returnType name params body location =>
    .methodDecl (returnType.map change.word) (change.word name) (params.map (.relabel change))
      (relabelAll change body) (change.place location)
  | .classDecl name fields methods location =>
    .classDecl (change.word name) (relabelAll change fields) (relabelAll change methods)
      (change.place location)
  | .block statements location => .block (relabelAll change statements) (change.place location)
  | .ifStmt condition thenBranch elseBranch location =>
    .ifStmt (condition.relabel change) (relabelAll change thenBranch)
      (relabelElse change elseBranch) (change.place location)
  | .whileStmt condition body location =>
    .whileStmt (condition.relabel change) (relabelAll change body) (change.place location)
  | .forStmt init condition update body location =>
    .forStmt (relabelOption change init) (relabelOption change condition)
      (relabelOption change update) (relabelAll change body) (change.place location)
  | .returnStmt value location => .returnStmt (relabelOption change value) (change.place location)
  | .breakStmt location => .breakStmt (change.place location)
  | .continueStmt location => .continueStmt (change.place location)
  | .assignment target value location =>
    .assignment (target.relabel change) (value.relabel change) (change.place location)
  | .binary op left right location =>
    .binary op (left.relabel change) (right.relabel change) (change.place location)
  | .unary op operand location => .unary op (operand.relabel change) (change.place location)
  | .step op operand location => .step op (operand.relabel change) (change.place location)
  | .call callee args location =>
    .call (callee.relabel change) (relabelAll change args) (change.place location)
  | .field object name location =>
    .field (object.relabel change) (change.word name) (change.place location)
  | .reference name location => .reference (change.word name) (change.place location)
  | .number digits location => .number digits (change.place location)
  | .string body location => .string body (change.place location)

/-- Trees in other words at other places. -/
def relabelAll (change : Relabelling) : List Node → List Node
  | [] => []
  | node :: nodes => node.relabel change :: relabelAll change nodes

/-- A tree in other words at other places, if there is one. -/
def relabelOption (change : Relabelling) : Option Node → Option Node
  | none => none
  | some node => some (node.relabel change)

/-- An else branch in other words at other places, if there is one. -/
def relabelElse (change : Relabelling) : Option (List Node) → Option (List Node)
  | none => none
  | some nodes => some (relabelAll change nodes)

end

theorem relabelAll_eq_map (nodes : List Node) :
    relabelAll change nodes = nodes.map (relabel change) := by
  induction nodes with
  | nil => rfl
  | cons node nodes inductionHypothesis => rw [relabelAll, inductionHypothesis, List.map_cons]

theorem relabelOption_eq_map (node : Option Node) :
    relabelOption change node = node.map (relabel change) := by
  cases node <;> rfl

theorem relabelElse_eq_map (nodes : Option (List Node)) :
    relabelElse change nodes = nodes.map (List.map (relabel change)) := by
  cases nodes with
  | none => rfl
  | some nodes => exact congrArg some (relabelAll_eq_map nodes)

@[simp] theorem relabel_location (node : Node) :
    (node.relabel change).location = change.place node.location := by
  cases node <;> rfl

@[simp] theorem isTarget_relabel (node : Node) :
    Grammar.isTarget (node.relabel change) = Grammar.isTarget node := by
  cases node <;> rfl

mutual

/-- With the same words at the same places a tree is the same. -/
theorem relabel_same : (node : Node) → node.relabel .same = node
  | .variableDecl type name init location => by
      rw [relabel, relabelOption_same init]
      rfl
  | .methodDecl returnType name params body location => by
      rw [relabel, relabelAll_same body, Param.map_relabel_same]
      cases returnType <;> rfl
  | .classDecl name fields methods location => by
      rw [relabel, relabelAll_same fields, relabelAll_same methods]
      rfl
  | .block statements location => by
      rw [relabel, relabelAll_same statements]
      rfl
  | .ifStmt condition thenBranch elseBranch location => by
      rw [relabel, relabel_same condition, relabelAll_same thenBranch, relabelElse_same elseBranch]
      rfl
  | .whileStmt condition body location => by
      rw [relabel, relabel_same condition, relabelAll_same body]
      rfl
  | .forStmt init condition update body location => by
      rw [relabel, relabelOption_same init, relabelOption_same condition,
        relabelOption_same update, relabelAll_same body]
      rfl
  | .returnStmt value location => by
      rw [relabel, relabelOption_same value]
      rfl
  | .breakStmt _ => rfl
  | .continueStmt _ => rfl
  | .assignment target value location => by
      rw [relabel, relabel_same target, relabel_same value]
      rfl
  | .binary op left right location => by
      rw [relabel, relabel_same left, relabel_same right]
      rfl
  | .unary op operand location => by
      rw [relabel, relabel_same operand]
      rfl
  | .step op operand location => by
      rw [relabel, relabel_same operand]
      rfl
  | .call callee args location => by
      rw [relabel, relabel_same callee, relabelAll_same args]
      rfl
  | .field object name location => by
      rw [relabel, relabel_same object]
      rfl
  | .reference _ _ => rfl
  | .number _ _ => rfl
  | .string _ _ => rfl

theorem relabelAll_same : (nodes : List Node) → relabelAll .same nodes = nodes
  | [] => rfl
  | node :: nodes => by rw [relabelAll, relabel_same node, relabelAll_same nodes]

theorem relabelOption_same : (node : Option Node) → relabelOption .same node = node
  | none => rfl
  | some node => by rw [relabelOption, relabel_same node]

theorem relabelElse_same : (nodes : Option (List Node)) → relabelElse .same nodes = nodes
  | none => rfl
  | some nodes => by rw [relabelElse, relabelAll_same nodes]

end

mutual

/-- Where a tree stands does not show in its text. -/
theorem text_relabel (keeps : change.KeepsWords) :
    (node : Node) → (node.relabel change).text = node.text
  | .variableDecl type name init _ => by
      rw [relabel, text, text, textOfInit_relabel keeps init, keeps]
      rfl
  | .methodDecl _ name _ _ _ => by
      rw [relabel, text, text, keeps]
      rfl
  | .classDecl name _ _ _ => by
      rw [relabel, text, text, keeps]
      rfl
  | .block statements _ => by
      rw [relabel, text, text, relabelAll_eq_map, List.length_map]
  | .ifStmt condition _ _ _ => by
      rw [relabel, text, text, text_relabel keeps condition]
  | .whileStmt condition _ _ => by
      rw [relabel, text, text, text_relabel keeps condition]
  | .forStmt _ _ _ _ _ => rfl
  | .returnStmt value _ => by
      rw [relabel, text, text, textOfValue_relabel keeps value]
  | .breakStmt _ => rfl
  | .continueStmt _ => rfl
  | .assignment target value _ => by
      rw [relabel, text, text, text_relabel keeps target, text_relabel keeps value]
  | .binary _ left right _ => by
      rw [relabel, text, text, text_relabel keeps left, text_relabel keeps right]
  | .unary _ operand _ => by
      rw [relabel, text, text, text_relabel keeps operand]
  | .step _ operand _ => by
      rw [relabel, text, text, text_relabel keeps operand]
  | .call callee args _ => by
      rw [relabel, text, text, text_relabel keeps callee, textOfArgs_relabel keeps args]
  | .field object name _ => by
      rw [relabel, text, text, text_relabel keeps object, keeps]
      rfl
  | .reference name _ => by
      rw [relabel, text, text, keeps]
      rfl
  | .number _ _ => rfl
  | .string _ _ => rfl

theorem textOfArgs_relabel (keeps : change.KeepsWords) :
    (args : List Node) → textOfArgs (relabelAll change args) = textOfArgs args
  | [] => rfl
  | [arg] => by
      rw [relabelAll, relabelAll, textOfArgs, textOfArgs, text_relabel keeps arg]
  | arg :: next :: args => by
      rw [relabelAll, relabelAll, textOfArgs, text_relabel keeps arg, ← relabelAll,
        textOfArgs_relabel keeps (next :: args), textOfArgs]

theorem textOfInit_relabel (keeps : change.KeepsWords) :
    (init : Option Node) → textOfInit (relabelOption change init) = textOfInit init
  | none => rfl
  | some init => by
      rw [relabelOption, textOfInit, textOfInit, text_relabel keeps init]

theorem textOfValue_relabel (keeps : change.KeepsWords) :
    (value : Option Node) → textOfValue (relabelOption change value) = textOfValue value
  | none => rfl
  | some value => by
      rw [relabelOption, textOfValue, textOfValue, text_relabel keeps value]

end

end Node

/-- A step with words and places changed. -/
def Step.relabel (change : Relabelling) : Step → Step
  | .statement lexeme left => .statement (lexeme.relabel change) left
  | .enter kind => .enter kind
  | .leave => .leave
  | .openBlock => .openBlock
  | .closeBlock => .closeBlock
  | .declare symbol location => .declare (symbol.relabel change) (change.place location)
  | .check expression => .check (expression.relabel change)
  | .initial name type value =>
    .initial (change.word name) (change.word type) (value.relabel change)

end BraceLang
