import Mathlib.Data.List.Basic
import BraceLang.Proofs.Lockstep.Loops
import BraceLang.Proofs.Relabelling

/-!
# How far a reading looks

A reading depends on the tokens it takes and on the two tokens behind them; one that fails
depends on the tokens up to the one at which it fails and on the next. `Settled` says so of an
outcome: whatever other tokens are given instead, if that many of them mirror those that were
read, the outcome is the same, in the words and at the places of the other tokens.

At the end of input there is one exception. A type in front of it begins a method or a
variable according to what stands behind the end, and fails either way; only the reason
that is given differs. `Alike` tells when it does not.
-/

namespace BraceLang

/-- Whether an opening parenthesis is seen directly behind an end of input. -/
def Terminator.opens (stop : Terminator) : Bool :=
  stop.beyond.head?.any (·.is (.op "("))

variable {change : Relabelling} {stop other : Terminator} {count fewer taken more : Nat}
  {ahead others rest : List Token}

/-- The first `count` of other tokens mirror those ahead. Where those ahead end before that, the
others end there too, and the ends of input mirror one another. -/
inductive Mirrors (change : Relabelling) (stop other : Terminator) :
    (count : Nat) → List Token → List Token → Prop where
  | unread (ahead others : List Token) : Mirrors change stop other 0 ahead others
  | ended (count : Nat) (placed : other.location = change.place stop.location) :
      Mirrors change stop other count [] []
  | token {count : Nat} {ahead others : List Token} (first : Token)
      (behind : Mirrors change stop other count ahead others) :
      Mirrors change stop other (count + 1) (first :: ahead) (first.relabel change :: others)

namespace Mirrors

theorem mono (mirrors : Mirrors change stop other count ahead others) (less : fewer ≤ count) :
    Mirrors change stop other fewer ahead others := by
  induction mirrors generalizing fewer with
  | unread ahead others =>
      obtain rfl := Nat.le_zero.mp less
      exact .unread ahead others
  | ended count placed => exact .ended fewer placed
  | token first _ inductionHypothesis =>
      cases fewer with
      | zero => exact .unread _ _
      | succ fewer => exact .token first (inductionHypothesis (Nat.le_of_succ_le_succ less))

/-- Behind tokens that were taken, the others still mirror those that are left. -/
theorem drop (mirrors : Mirrors change stop other (taken + count) ahead others) :
    Mirrors change stop other count (ahead.drop taken) (others.drop taken) := by
  induction taken generalizing ahead others with
  | zero => simpa using mirrors
  | succ taken inductionHypothesis =>
      rw [Nat.succ_add] at mirrors
      cases mirrors with
      | ended _ placed => exact .ended count placed
      | token first behind => exact inductionHypothesis behind

/-- All tokens with their end are mirrored by their images with the image of their end. -/
theorem of_map (placed : other.location = change.place stop.location) (count : Nat)
    (ahead : List Token) :
    Mirrors change stop other count ahead (ahead.map (Token.relabel change)) := by
  induction ahead generalizing count with
  | nil => exact .ended count placed
  | cons first ahead inductionHypothesis =>
      cases count with
      | zero => exact .unread _ _
      | succ count => exact .token first (inductionHypothesis count)

/-- The next token is mirrored by the next of the others, be it the end of input. -/
theorem headD (mirrors : Mirrors change stop other (count + 1) ahead others) :
    others.headD other.token = (ahead.headD stop.token).relabel change := by
  cases mirrors with
  | ended _ placed =>
      change (⟨.endOfInput, other.location⟩ : Token) = ⟨.endOfInput, change.place stop.location⟩
      rw [placed]
  | token => rfl

theorem isEmpty (mirrors : Mirrors change stop other (count + 1) ahead others) :
    others.isEmpty = ahead.isEmpty := by
  cases mirrors <;> rfl

end Mirrors

/-- Whether a failure `taken` tokens on is described alike: no words change, and the failure is
not at an end of input in front of which a type stands and behind which different things do. -/
def Alike (change : Relabelling) (stop other : Terminator) (ahead : List Token) (taken : Nat) :
    Prop :=
  change.KeepsWords ∧ (taken < ahead.length ∨ stop.opens = other.opens ∨
    ∀ token ∈ ahead.getLast?, token.kind ≠ .dataType)

theorem Alike.behind (alike : Alike change stop other ahead (taken + more)) :
    Alike change stop other (ahead.drop taken) more := by
  obtain ⟨keeps, inside | same | last⟩ := alike
  · refine ⟨keeps, .inl ?_⟩
    rw [List.length_drop]
    omega
  · exact ⟨keeps, .inr (.inl same)⟩
  · refine ⟨keeps, .inr (.inr fun token found => last token ?_)⟩
    rw [List.getLast?_drop] at found
    split at found
    · cases found
    · exact found

variable {α β : Type} {image : α → α} {make : β → β}

/-- The result of reading the other tokens is that of reading those ahead, in the words and at
the places of the others, and leaves `left` of them. -/
inductive Follows (change : Relabelling) (image : α → α) (alike : Prop) (left : List Token) :
    Except SyntaxError (α × List Token) → Except SyntaxError (α × List Token) → Prop where
  | ok (value : α) (rest : List Token) :
      Follows change image alike left (.ok (value, rest)) (.ok (image value, left))
  | error {cause otherCause : Cause} (location : Location) (keeps : alike → otherCause = cause) :
      Follows change image alike left (.error ⟨cause, location⟩)
        (.error ⟨otherCause, change.place location⟩)

theorem Follows.mono {alike less : Prop} {left : List Token}
    {result mirrored : Except SyntaxError (α × List Token)}
    (follows : Follows change image alike left result mirrored) (implies : less → alike) :
    Follows change image less left result mirrored := by
  cases follows with
  | ok value rest => exact .ok value rest
  | error location keeps => exact .error location fun holds => keeps (implies holds)

/-- A result leaves exactly `left` of the tokens, or is a failure at the next of them. -/
def EndsAt (stop : Terminator) (left : List Token) :
    Except SyntaxError (α × List Token) → Prop
  | .ok (_, rest) => rest = left
  | .error error => error.location = (left.headD stop.token).location

/-- A result that comes about by taking `taken` of the tokens ahead, and that is mirrored by the
result of other tokens whenever two more than those mirror the tokens ahead. -/
structure Settled (change : Relabelling) (image : α → α) (taken : Nat) (stop : Terminator)
    (ahead : List Token) (result : Except SyntaxError (α × List Token))
    (mirrored : Terminator → List Token → Except SyntaxError (α × List Token)) : Prop where
  inside : taken ≤ ahead.length
  ends : EndsAt stop (ahead.drop taken) result
  follows : ∀ other others, Mirrors change stop other (taken + 2) ahead others →
    Follows change image (Alike change stop other ahead taken) (others.drop taken) result
      (mirrored other others)

namespace Settled

variable {mirrored : Terminator → List Token → Except SyntaxError (α × List Token)}
  {continued whole : Terminator → List Token → Except SyntaxError (β × List Token)}

/-- A look that takes nothing. -/
theorem still {value : α}
    (same : ∀ other others, Mirrors change stop other 2 ahead others →
      mirrored other others = .ok (image value, others)) :
    Settled change image 0 stop ahead (.ok (value, ahead)) mirrored where
  inside := Nat.zero_le _
  ends := rfl
  follows other others mirrors := by
    rw [same other others mirrors]
    exact .ok value ahead

/-- What fails in its first part fails in the same way as a whole. -/
theorem failed {failure : SyntaxError}
    (settled : Settled change image taken stop ahead (.error failure) mirrored)
    (fails : ∀ other others error, mirrored other others = .error error →
      whole other others = .error error) :
    Settled change make taken stop ahead (.error failure) whole where
  inside := settled.inside
  ends := settled.ends
  follows other others mirrors := by
    have follows := settled.follows other others mirrors
    rcases outcome : mirrored other others with error | pair
    · rw [outcome] at follows
      rw [fails other others error outcome]
      cases follows with
      | error location keeps => exact .error location keeps
    · rw [outcome] at follows
      cases follows

/-- Only what is made of mirroring tokens matters. -/
theorem congr {result : Except SyntaxError (α × List Token)}
    {same : Terminator → List Token → Except SyntaxError (α × List Token)}
    (settled : Settled change image taken stop ahead result mirrored)
    (equal : ∀ other others, Mirrors change stop other (taken + 2) ahead others →
      same other others = mirrored other others) :
    Settled change image taken stop ahead result same where
  inside := settled.inside
  ends := settled.ends
  follows other others mirrors :=
    equal other others mirrors ▸ settled.follows other others mirrors

/-- What begins by taking a token is settled by what follows it. -/
theorem cons {first : Token} {tail : List Token} {result : Except SyntaxError (α × List Token)}
    (settled : Settled change image taken stop tail result mirrored)
    {whole : Terminator → List Token → Except SyntaxError (α × List Token)}
    (goesOn : ∀ other others, whole other (first.relabel change :: others) =
      mirrored other others) :
    Settled change image (taken + 1) stop (first :: tail) result whole where
  inside := Nat.succ_le_succ settled.inside
  ends := settled.ends
  follows other others mirrors := by
    cases mirrors with
    | token _ behind =>
        rw [goesOn]
        refine (settled.follows other _ behind).mono fun alike => ?_
        rw [Nat.add_comm] at alike
        exact alike.behind

/-- Where the first part succeeds, the other tokens left behind it mirror those left. -/
theorem onward {value : α}
    (settled : Settled change image taken stop ahead (.ok (value, rest)) mirrored)
    (mirrors : Mirrors change stop other (taken + more) ahead others) (enough : 2 ≤ more) :
    mirrored other others = .ok (image value, others.drop taken) ∧
      Mirrors change stop other more rest (others.drop taken) := by
  obtain rfl : rest = ahead.drop taken := settled.ends
  have follows := settled.follows other others (mirrors.mono (by omega))
  refine ⟨?_, mirrors.drop⟩
  rcases outcome : mirrored other others with error | ⟨found, left⟩
  · rw [outcome] at follows
    cases follows
  · rw [outcome] at follows
    cases follows
    rfl

/-- What goes on behind its first part is settled by both parts. -/
theorem andThen {value : α} {result : Except SyntaxError (β × List Token)}
    (settled : Settled change image taken stop ahead (.ok (value, rest)) mirrored)
    (further : Settled change make more stop rest result continued)
    (goesOn : ∀ other others left, mirrored other others = .ok (image value, left) →
      whole other others = continued other left) :
    Settled change make (taken + more) stop ahead result whole := by
  obtain rfl : rest = ahead.drop taken := settled.ends
  have fits := settled.inside
  have furtherFits := further.inside
  rw [List.length_drop] at furtherFits
  refine ⟨by omega, ?_, fun other others mirrors => ?_⟩
  · have ends := further.ends
    rwa [List.drop_drop] at ends
  · obtain ⟨read, behind⟩ := settled.onward mirrors (Nat.le_add_left 2 more)
    rw [goesOn other others _ read]
    have follows := further.follows other (others.drop taken) behind
    rw [List.drop_drop] at follows
    exact follows.mono Alike.behind

end Settled

namespace Reader

/-- On at most `bound` tokens the outcome of a reader is settled, and mirrored by a second one. -/
def Settles (change : Relabelling) (bound : Nat) (image : α → α) (first second : Reader α) :
    Prop :=
  ∀ stop ahead, ahead.length ≤ bound →
    ∃ taken, Settled change image taken stop ahead (first stop ahead) second

section Rules

variable {bound : Nat} {first second : Reader α} {next nextSecond : α → Reader β}

theorem settled_bind
    (settled : Settled change image taken stop ahead (first stop ahead) second)
    (further : ∀ value rest, first.Reads stop ahead value rest →
      ∃ more, Settled change make more stop rest (next value stop rest)
        (nextSecond (image value))) :
    ∃ whole, Settled change make whole stop ahead ((first >>= next) stop ahead)
      (second >>= nextSecond) := by
  simp only [bind]
  rcases outcome : first stop ahead with failure | ⟨value, rest⟩
  · rw [outcome] at settled
    refine ⟨taken, settled.failed fun other others error failed => ?_⟩
    simp only [failed]
  · rw [outcome] at settled
    obtain ⟨more, furthers⟩ := further value rest outcome
    refine ⟨taken + more, settled.andThen furthers fun other others left read => ?_⟩
    simp only [read]

theorem Settles.mono (readers : Settles change bound image first second) (less : fewer ≤ bound) :
    Settles change fewer image first second :=
  fun stop ahead within => readers stop ahead (Nat.le_trans within less)

theorem Settles.bind (readers : Settles change bound image first second)
    (further : ∀ value, Settles change bound make (next value) (nextSecond (image value))) :
    Settles change bound make (first >>= next) (second >>= nextSecond) := by
  intro stop ahead within
  obtain ⟨taken, settled⟩ := readers stop ahead within
  refine settled_bind settled fun value rest read => further value stop rest ?_
  rw [show first stop ahead = .ok (value, rest) from read] at settled
  rw [show rest = ahead.drop taken from settled.ends, List.length_drop]
  omega

/-- Behind a token taken, fewer tokens are ahead. -/
theorem Settles.bind_takes (readers : Settles change (bound + 1) image first second)
    (takes : TakesInStep bound first first)
    (further : ∀ value, Settles change bound make (next value) (nextSecond (image value))) :
    Settles change (bound + 1) make (first >>= next) (second >>= nextSecond) := by
  intro stop ahead within
  obtain ⟨taken, settled⟩ := readers stop ahead within
  refine settled_bind settled fun value rest read => further value stop rest ?_
  have ranged := (takes stop ahead within).2
  rw [show first stop ahead = .ok (value, rest) from read] at ranged
  have shorter := List.IsSuffix.length_le ranged
  rw [List.length_tail] at shorter
  omega

end Rules

section Primitives

variable {bound : Nat}

theorem settles_pure (value : α) :
    Settles change bound image (pure value) (pure (image value)) :=
  fun _ _ _ => ⟨0, .still fun _ _ _ => rfl⟩

theorem settles_pure_of (value : α) {imaged : α} (same : image value = imaged) :
    Settles change bound image (pure value) (pure imaged) :=
  same ▸ settles_pure value

theorem settles_peek : Settles change bound (Token.relabel change) peek peek :=
  fun _ _ _ => ⟨0, .still fun _ others mirrors =>
    congrArg (fun token => Except.ok (token, others)) mirrors.headD⟩

theorem settles_atEnd : Settles change bound id atEnd atEnd :=
  fun _ _ _ => ⟨0, .still fun _ others mirrors =>
    congrArg (fun answer => Except.ok (answer, others)) mirrors.isEmpty⟩

theorem settles_at {lexeme : Lexeme} (unnamed : ¬ lexeme.IsWord) :
    Settles change bound id (at? lexeme) (at? lexeme) := by
  refine fun stop ahead _ => ⟨0, .still fun other others mirrors => ?_⟩
  refine congrArg (fun answer => Except.ok (answer, others)) ?_
  cases mirrors with
  | ended => rfl
  | token first _ => exact Token.relabel_is first unnamed

theorem settles_skip : Settles change bound id skip skip := by
  intro stop ahead _
  cases ahead with
  | nil =>
      refine ⟨0, .still fun other others mirrors => ?_⟩
      cases mirrors
      rfl
  | cons first ahead =>
      refine ⟨1, Nat.le_add_left 1 _, rfl, fun other others mirrors => ?_⟩
      cases mirrors
      exact .ok () ahead

theorem settles_next : Settles change bound (Token.relabel change) next next :=
  settles_peek.bind fun token => settles_skip.bind fun _ => settles_pure token

theorem settles_take {classify classifySecond : Token → Option α}
    (same : ∀ token, classifySecond (token.relabel change) = (classify token).map image) :
    Settles change bound (Option.map image) (take? classify) (take? classifySecond) := by
  intro stop ahead _
  cases ahead with
  | nil =>
      refine ⟨0, .still fun other others mirrors => ?_⟩
      cases mirrors
      rfl
  | cons first ahead =>
      have sameFirst := same first
      rw [take?]
      cases classified : classify first with
      | none =>
          rw [classified] at sameFirst
          refine ⟨0, .still fun other others mirrors => ?_⟩
          cases mirrors
          rw [take?, sameFirst]
          rfl
      | some value =>
          rw [classified] at sameFirst
          refine ⟨1, Nat.le_add_left 1 _, rfl, fun other others mirrors => ?_⟩
          cases mirrors
          rw [take?, sameFirst]
          exact .ok (some value) ahead

theorem settles_accept {lexeme : Lexeme} (unnamed : ¬ lexeme.IsWord) :
    Settles change bound (Option.map change.place) (accept lexeme) (accept lexeme) := by
  refine settles_take fun token => ?_
  rw [Token.relabel_is token unnamed]
  split <;> rfl

/-- A refusal gives the same reason, unless the reason is about words that change. -/
theorem settles_refuse {cause causeSecond : Lexeme → Cause}
    (same : change.KeepsWords → ∀ lexeme, causeSecond lexeme = cause lexeme) :
    Settles change bound image (refuse cause) (refuse causeSecond) := by
  refine fun stop ahead _ => ⟨0, Nat.zero_le _, rfl, fun other others mirrors => ?_⟩
  have refused : refuse (α := α) causeSecond other others =
      .error ⟨causeSecond ((ahead.headD stop.token).relabel change).toLexeme,
        change.place (ahead.headD stop.token).location⟩ := by
    rw [← Token.relabel_location, ← mirrors.headD]
    rfl
  rw [refused]
  refine .error _ fun alike => ?_
  rw [Token.relabel_toLexeme, Lexeme.relabel_of_keepsWords alike.1, same alike.1]

/-- How a wanted token is mirrored has to be told only of those that are admitted. -/
theorem settles_expect_of {wanted : Wanted} {make : Token → Token} (position : Position)
    (same : ∀ token, wanted.admits token = true → token.relabel change = make token) :
    Settles change bound make (expect wanted position) (expect wanted position) := by
  have takes : Settles change bound (Option.map make)
      (take? fun token => if wanted.admits token then some token else none)
      (take? fun token => if wanted.admits token then some token else none) := by
    refine settles_take fun token => ?_
    rw [Token.relabel_admits wanted token]
    split
    · next admitted => exact congrArg some (same token admitted)
    · rfl
  refine takes.bind fun found => ?_
  cases found with
  | none => exact settles_refuse fun _ _ => rfl
  | some token => exact settles_pure token

theorem settles_expect (wanted : Wanted) (position : Position) :
    Settles change bound (Token.relabel change) (expect wanted position)
      (expect wanted position) :=
  settles_expect_of position fun _ _ => rfl

theorem settles_expect_name (position : Position) :
    Settles change bound (Token.reword change) (expect .identifier position)
      (expect .identifier position) :=
  settles_expect_of position fun _ admitted =>
    Token.relabel_eq_reword (.inl (of_decide_eq_true admitted))

theorem settles_expect_type (position : Position) :
    Settles change bound (Token.reword change) (expect .dataType position)
      (expect .dataType position) :=
  settles_expect_of position fun _ admitted =>
    Token.relabel_eq_reword (.inr (of_decide_eq_true admitted))

/-- A run ends at the first token that is not accepted, and looks no further. -/
theorem splitRun_mirrors {classify classifySecond : Token → Option α}
    (same : ∀ token, classifySecond (token.relabel change) = (classify token).map image)
    (stop : Terminator) (ahead : List Token) :
    ∃ taken ≤ ahead.length, (splitRun classify ahead).2 = ahead.drop taken ∧
      ∀ other others, Mirrors change stop other (taken + 1) ahead others →
        splitRun classifySecond others =
          ((splitRun classify ahead).1.map image, others.drop taken) := by
  induction ahead with
  | nil =>
      refine ⟨0, Nat.le_refl _, rfl, fun other others mirrors => ?_⟩
      cases mirrors
      rfl
  | cons first ahead inductionHypothesis =>
      have sameFirst := same first
      rw [splitRun]
      cases classified : classify first with
      | none =>
          rw [classified] at sameFirst
          refine ⟨0, Nat.zero_le _, rfl, fun other others mirrors => ?_⟩
          cases mirrors
          rw [splitRun, sameFirst]
          rfl
      | some value =>
          rw [classified] at sameFirst
          obtain ⟨taken, inside, left, run⟩ := inductionHypothesis
          refine ⟨taken + 1, Nat.succ_le_succ inside, left, fun other others mirrors => ?_⟩
          cases mirrors with
          | token _ behind =>
              rw [splitRun, sameFirst, run other _ behind]
              rfl

theorem settles_run {classify classifySecond : Token → Option α}
    (same : ∀ token, classifySecond (token.relabel change) = (classify token).map image) :
    Settles change bound (List.map image) (run classify) (run classifySecond) := by
  intro stop ahead _
  obtain ⟨taken, inside, left, run⟩ := splitRun_mirrors same stop ahead
  refine ⟨taken, inside, left, fun other others mirrors => ?_⟩
  have ran := run other others (mirrors.mono (by omega))
  simp only [Reader.run, ran]
  exact .ok _ _

end Primitives

section Loops

variable {bound : Nat} {item itemSecond : Reader (Option α)}

/-- One round of a repetition, with `others` for the further rounds. -/
def round (item : Reader (Option α)) (others : Reader (List α)) : Reader (List α) := do
  match ← item with
  | none => return []
  | some value => return value :: (← others)

/-- A repetition is a round of itself. -/
theorem LoopsWithin.repeated_eq_round (loops : LoopsWithin bound item)
    (within : ahead.length ≤ bound) :
    repeated item stop ahead = round item (repeated item) stop ahead := by
  have unrolled : repeated item stop ahead =
      round item (collect item ahead.length) stop ahead :=
    loops.collect_eq within (Nat.le_refl _) (Nat.le_succ ahead.length)
  rw [unrolled]
  simp only [round, bind]
  rcases outcome : item stop ahead with failure | ⟨_ | value, rest⟩
  · rfl
  · rfl
  · have shorter := loops.takes within outcome
    have further : collect item ahead.length stop rest = repeated item stop rest :=
      loops.collect_eq (by omega) (Nat.le_of_lt shorter) (Nat.le_refl _)
    simp only [further]

theorem Settles.repeated (items : Settles change bound (Option.map image) item itemSecond)
    (loops : LoopsWithin bound item) (loopsSecond : ∀ bound, LoopsWithin bound itemSecond) :
    Settles change bound (List.map image) (repeated item) (repeated itemSecond) := by
  intro stop ahead within
  induction size : ahead.length using Nat.strongRecOn generalizing ahead with
  | ind _ inductionHypothesis =>
      subst size
      have again : Reader.repeated itemSecond = round itemSecond (Reader.repeated itemSecond) :=
        funext fun other => funext fun others =>
          (loopsSecond others.length).repeated_eq_round (Nat.le_refl _)
      rw [loops.repeated_eq_round within, again]
      obtain ⟨taken, settled⟩ := items stop ahead within
      refine settled_bind settled fun found rest read => ?_
      cases found with
      | none => exact settles_pure [] stop rest (Nat.le_refl _)
      | some value =>
          have shorter := loops.takes within read
          obtain ⟨more, further⟩ :=
            inductionHypothesis rest.length shorter rest (by omega) rfl
          exact settled_bind further fun values left _ =>
            settles_pure (value :: values) stop left (Nat.le_refl _)

end Loops

end Reader
end BraceLang
