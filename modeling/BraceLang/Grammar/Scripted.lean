import BraceLang.Grammar.Reader
import BraceLang.Script

/-!
# Reading that writes a script

A scripted reader reads like any other and writes down on the way what is to be
done about the meaning of what it reads. The script is kept when the reading
fails, up to the failure; a construct that opened a scope then still leaves it.
-/

namespace BraceLang

/-- What a scripted reader hands over: its script in any case, and a value with
the tokens it left unless it failed. -/
structure Outcome (α : Type) where
  script : List Step
  result : Except SyntaxError (α × List Token)

/-- Reads a value from the front of the tokens ahead and writes a script. -/
def Scripted (α : Type) : Type :=
  Terminator → List Token → Outcome α

namespace Scripted

instance : Monad Scripted where
  pure value := fun _ ahead => ⟨[], .ok (value, ahead)⟩
  bind reader next := fun stop ahead =>
    match reader stop ahead with
    | ⟨script, .ok (value, rest)⟩ =>
      let outcome := next value stop rest
      ⟨script ++ outcome.script, outcome.result⟩
    | ⟨script, .error error⟩ => ⟨script, .error error⟩

/-- A reader is a scripted reader with nothing to write. -/
instance : MonadLift Reader Scripted where
  monadLift reader := fun stop ahead => ⟨[], reader stop ahead⟩

/-- Write one step. -/
def emit (step : Step) : Scripted Unit := fun _ ahead =>
  ⟨[step], .ok ((), ahead)⟩

/-- Write further steps behind a failure of `reader`. -/
def onFailure {α : Type} (reader : Scripted α) (steps : List Step) : Scripted α :=
  fun stop ahead =>
    match reader stop ahead with
    | ⟨script, .error error⟩ => ⟨script ++ steps, .error error⟩
    | outcome => outcome

/-- Read the parts of a construct in a scope of its own, which is left again
whether they can be read or not. -/
def within {α : Type} (kind : ScopeKind) (parts : Scripted α) : Scripted α := do
  emit (.enter kind)
  let value ← parts.onFailure [.leave]
  emit .leave
  return value

/-- The values of an item read until it declines. An item that does not decline
takes a token. -/
def repeated {α : Type} (item : Scripted (Option α)) : Scripted (List α) := do
  collect item (← Reader.remaining)

end Scripted

end BraceLang
