import BraceLang.Grammar.SyntaxError

/-!
# Reading from the tokens ahead

A reader reads from the front of the tokens ahead and either hands over a value
with the tokens it left, or fails. The tokens ahead end in front of the first end
of input; that one is kept apart as the terminator, so that the end is reached
exactly when no tokens are ahead. Tokens may stand behind the terminator. They
are never read, but looking ahead can see them.

Repetition is bounded by the number of tokens ahead. Every round of a repetition
that goes on takes a token, so the bound is never what ends one.
-/

namespace BraceLang

/-- The end of input that stops the reading: its place and the tokens behind it. -/
structure Terminator where
  location : Location
  beyond : List Token

/-- The terminator as a token. -/
def Terminator.token (stop : Terminator) : Token :=
  ⟨.endOfInput, stop.location⟩

/-- The tokens of a program, parted at the first end of input. -/
structure Input where
  ahead : List Token
  stop : Terminator

/-- Part a token sequence at its first end of input. A sequence without one is
closed at the place of its last token, or at the start of the text. -/
def Input.ofTokens (tokens : List Token) : Input :=
  match tokens.span (·.kind ≠ .endOfInput) with
  | (ahead, stop :: beyond) => ⟨ahead, ⟨stop.location, beyond⟩⟩
  | (ahead, []) => ⟨ahead, ⟨(ahead.getLast?.map (·.location)).getD .start, []⟩⟩

/-- Reads a value from the front of the tokens ahead. -/
def Reader (α : Type) : Type :=
  Terminator → List Token → Except SyntaxError (α × List Token)

namespace Reader

instance : Monad Reader where
  pure value := fun _ ahead => .ok (value, ahead)
  bind reader next := fun stop ahead =>
    match reader stop ahead with
    | .ok (value, rest) => next value stop rest
    | .error error => .error error

/-- The next token, which stays where it is; at the end, the terminator. -/
def peek : Reader Token := fun stop ahead =>
  .ok (ahead.headD stop.token, ahead)

/-- Pass over the next token. -/
def skip : Reader Unit := fun _ ahead =>
  .ok ((), ahead.tail)

/-- Take the next token. -/
def next : Reader Token := do
  let token ← peek
  skip
  return token

/-- How many tokens are ahead. -/
def remaining : Reader Nat := fun _ ahead =>
  .ok (ahead.length, ahead)

/-- Whether no tokens are ahead. -/
def atEnd : Reader Bool := fun _ ahead =>
  .ok (ahead.isEmpty, ahead)

/-- Whether the token `distance` behind the next one satisfies `test`. The
terminator and the tokens behind it are seen too. -/
def sees (distance : Nat) (test : Token → Bool) : Reader Bool := fun stop ahead =>
  .ok ((ahead[distance]? <|> (stop.token :: stop.beyond)[distance - ahead.length]?).any test, ahead)

/-- Whether the next token has this lexeme. -/
def at? (lexeme : Lexeme) : Reader Bool := fun _ ahead =>
  .ok (ahead.head?.any (·.is lexeme), ahead)

/-- Take the next token if `classify` accepts it. -/
def take? {α : Type} (classify : Token → Option α) : Reader (Option α) := fun _ ahead =>
  match ahead with
  | [] => .ok (none, [])
  | token :: rest =>
    match classify token with
    | some value => .ok (some value, rest)
    | none => .ok (none, token :: rest)

/-- Take the next token if it has this lexeme, and tell its place. -/
def accept (lexeme : Lexeme) : Reader (Option Location) :=
  take? fun token => if token.is lexeme then some token.location else none

/-- Fail at the next token. -/
def refuse {α : Type} (cause : Lexeme → Cause) : Reader α := fun stop ahead =>
  let found := ahead.headD stop.token
  .error ⟨cause found.toLexeme, found.location⟩

/-- Take the next token, which has to be the one wanted. -/
def expect (wanted : Wanted) (position : Position) : Reader Token := do
  match ← take? fun token => if wanted.admits token then some token else none with
  | some token => return token
  | none => refuse (.missing wanted position)

/-- The longest run of accepted tokens at the front, and the tokens behind it. -/
def splitRun {α : Type} (classify : Token → Option α) : List Token → List α × List Token
  | [] => ([], [])
  | token :: rest =>
    match classify token with
    | none => ([], token :: rest)
    | some value =>
      let (values, after) := splitRun classify rest
      (value :: values, after)

/-- Take tokens as long as `classify` accepts them. -/
def run {α : Type} (classify : Token → Option α) : Reader (List α) := fun _ ahead =>
  .ok (splitRun classify ahead)

end Reader

/-- The values of an item read until it declines, at most `rounds` of them. -/
def collect {m : Type → Type} [Monad m] {α : Type} (item : m (Option α)) :
    (rounds : Nat) → m (List α)
  | 0 => pure []
  | rounds + 1 => do
    match ← item with
    | none => return []
    | some value => return value :: (← collect item rounds)

/-- The values of an item read until it declines. An item that does not decline
takes a token. -/
def Reader.repeated {α : Type} (item : Reader (Option α)) : Reader (List α) := do
  collect item (← remaining)

end BraceLang
