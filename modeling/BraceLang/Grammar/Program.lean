import BraceLang.Grammar.Statement

/-!
# Programs

A program is a sequence of statements up to the end of input. Between them a
closing brace never ends anything but a lone block, and at the root not even
that.
-/

namespace BraceLang.Grammar

open Reader Scripted

/-- A statement, unless the program is at its end. -/
def topLevel (inner : Scripted Item) : Scripted (Option Item) := do
  if ← atEnd then
    return none
  else
    return some (← inner)

/-- A whole program, as a block at the place of its first token. -/
def program : Scripted Node := do
  let first ← peek
  let items ← repeated (topLevel (statementWithin (← remaining)))
  return .block (items.flatMap Item.nodes) first.location

end BraceLang.Grammar

namespace BraceLang

/-- What reading a program yields: its script in any case, and its tree or the
violation of form that stopped the reading. -/
structure Reading where
  script : List Step
  result : Except SyntaxError Node

/-- Read the program that a token sequence writes. -/
def Reading.ofTokens (tokens : List Token) : Reading :=
  let input := Input.ofTokens tokens
  let outcome := Grammar.program input.stop input.ahead
  ⟨outcome.script, outcome.result.map Prod.fst⟩

end BraceLang
