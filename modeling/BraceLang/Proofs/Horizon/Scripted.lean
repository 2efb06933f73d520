import BraceLang.Proofs.Horizon.Expression

/-!
# How far a scripted reading looks

What `BraceLang.Settled` is for readers without a script, with the script added: the other tokens
write the same script, in their words and with their places, whether the reading succeeds or
fails. The marks at the beginnings of statements are left out of it. They count the tokens that
are still ahead, which is as far as anyone can look.
-/

namespace BraceLang

/-- A script without the marks at the beginnings of statements. -/
def unmarked (script : List Step) : List Step :=
  script.filter fun
    | .statement _ _ => false
    | _ => true

@[simp] theorem unmarked_append (front back : List Step) :
    unmarked (front ++ back) = unmarked front ++ unmarked back := List.filter_append ..

theorem unmarked_relabel (change : Relabelling) (step : Step) :
    unmarked [step.relabel change] = (unmarked [step]).map (Step.relabel change) := by
  cases step <;> rfl

namespace Scripted

variable {α β : Type} {change : Relabelling} {image : α → α} {make : β → β} {stop : Terminator}
  {bound taken : Nat} {ahead rest : List Token} {first second : Scripted α}
  {next nextSecond : α → Scripted β}

/-- An outcome whose result and script come about by taking `taken` of the tokens ahead, and are
mirrored by those of other tokens whenever two more than those mirror the tokens ahead. -/
structure Settled (change : Relabelling) (image : α → α) (taken : Nat) (stop : Terminator)
    (ahead : List Token) (outcome : Outcome α) (mirrored : Scripted α) : Prop where
  result : BraceLang.Settled change image taken stop ahead outcome.result
    fun other others => (mirrored other others).result
  script : ∀ other others, Mirrors change stop other (taken + 2) ahead others →
    unmarked (mirrored other others).script =
      (unmarked outcome.script).map (Step.relabel change)

/-- On at most `bound` tokens the outcome of a reader is settled, and mirrored by a second one. -/
def Settles (change : Relabelling) (bound : Nat) (image : α → α) (first second : Scripted α) :
    Prop :=
  ∀ stop ahead, ahead.length ≤ bound →
    ∃ taken, Settled change image taken stop ahead (first stop ahead) second

namespace Settled

/-- Only what is made of mirroring tokens matters. -/
theorem congr {outcome : Outcome α} {same mirrored : Scripted α}
    (settled : Settled change image taken stop ahead outcome mirrored)
    (equal : ∀ other others, Mirrors change stop other (taken + 2) ahead others →
      same other others = mirrored other others) :
    Settled change image taken stop ahead outcome same where
  result := settled.result.congr fun other others mirrors => by rw [equal other others mirrors]
  script other others mirrors := by
    rw [equal other others mirrors, settled.script other others mirrors]

/-- What begins by taking a token is settled by what follows it. -/
theorem cons {first : Token} {tail : List Token} {outcome : Outcome α}
    {mirrored whole : Scripted α}
    (settled : Settled change image taken stop tail outcome mirrored)
    (goesOn : ∀ other others, whole other (first.relabel change :: others) =
      mirrored other others) :
    Settled change image (taken + 1) stop (first :: tail) outcome whole where
  result := settled.result.cons fun other others => by rw [goesOn]
  script other others mirrors := by
    cases mirrors with
    | token _ behind => rw [goesOn, settled.script other _ behind]

/-- What is written in front of an outcome may differ in its marks. -/
theorem written {outcome : Outcome α} {mirrored whole : Scripted α} {front : List Step}
    (settled : Settled change image taken stop ahead outcome mirrored)
    (goesOn : ∀ other others, Mirrors change stop other (taken + 2) ahead others →
      ∃ frontSecond, unmarked frontSecond = (unmarked front).map (Step.relabel change) ∧
        whole other others =
          ⟨frontSecond ++ (mirrored other others).script, (mirrored other others).result⟩) :
    Settled change image taken stop ahead ⟨front ++ outcome.script, outcome.result⟩ whole where
  result := settled.result.congr fun other others mirrors => by
    obtain ⟨_, _, equal⟩ := goesOn other others mirrors
    rw [equal]
  script other others mirrors := by
    obtain ⟨frontSecond, same, equal⟩ := goesOn other others mirrors
    rw [equal, unmarked_append, unmarked_append, List.map_append, same,
      settled.script other others mirrors]

/-- What is written behind a failure is the same in all words. -/
theorem onFailure {steps : List Step}
    (settled : Settled change image taken stop ahead (first stop ahead) second)
    (stays : (unmarked steps).map (Step.relabel change) = unmarked steps) :
    Settled change image taken stop ahead (first.onFailure steps stop ahead)
      (second.onFailure steps) := by
  have result (reader : Scripted α) (other : Terminator) (others : List Token) :
      (reader.onFailure steps other others).result = (reader other others).result := by
    rcases outcome : reader other others with ⟨script, failure | ⟨value, rest⟩⟩
    · rw [onFailure_error _ outcome]
    · rw [onFailure_ok _ outcome]
  refine ⟨?_, fun other others mirrors => ?_⟩
  · rw [result]
    exact settled.result.congr fun other others _ => result second other others
  · have script := settled.script other others mirrors
    have follows := settled.result.follows other others mirrors
    rcases outcome : first stop ahead with ⟨front, failure | ⟨value, rest⟩⟩ <;>
    rcases mirrored : second other others with ⟨frontSecond, failureSecond | ⟨found, left⟩⟩ <;>
    simp only [outcome, mirrored] at script follows
    · rw [onFailure_error _ outcome, onFailure_error _ mirrored, unmarked_append, unmarked_append,
        List.map_append, script, stays]
    · cases follows
    · cases follows
    · rw [onFailure_ok _ outcome, onFailure_ok _ mirrored, script]

end Settled

/-- Sequencing adds up the tokens that are taken. -/
theorem Settled.bind
    (settled : Settled change image taken stop ahead (first stop ahead) second)
    (further : ∀ script value rest, first.Reads stop ahead script value rest →
      ∃ more, Settled change make more stop rest (next value stop rest)
        (nextSecond (image value))) :
    ∃ more, Settled change make (taken + more) stop ahead ((first >>= next) stop ahead)
      (second >>= nextSecond) := by
  rcases outcome : first stop ahead with ⟨script, failure | ⟨value, rest⟩⟩
  · rw [outcome] at settled
    rw [bind_error outcome]
    refine ⟨0, settled.result.failed fun other others error failed => ?_,
      fun other others mirrors => ?_⟩
    · have mirrored : second other others = ⟨(second other others).script, .error error⟩ := by
        rw [← failed]
      rw [bind_error mirrored]
    · have follows := settled.result.follows other others mirrors
      have script := settled.script other others mirrors
      rcases mirrored : second other others with ⟨frontSecond, failureSecond | ⟨found, left⟩⟩
      · rw [bind_error mirrored]
        rwa [mirrored] at script
      · rw [mirrored] at follows
        cases follows
  · rw [outcome] at settled
    obtain ⟨more, furthers⟩ := further script value rest outcome
    have mirrored {other : Terminator} {others left : List Token}
        (read : (second other others).result = .ok (image value, left)) :
        second other others = ⟨(second other others).script, .ok (image value, left)⟩ := by
      rw [← read]
    rw [bind_ok outcome]
    refine ⟨more, settled.result.andThen furthers.result
      fun other others left read => ?_, fun other others mirrors => ?_⟩
    · rw [bind_ok (mirrored read)]
    · obtain ⟨read, behind⟩ := settled.result.onward mirrors (Nat.le_add_left 2 more)
      rw [bind_ok (mirrored read), unmarked_append, unmarked_append, List.map_append,
        furthers.script other _ behind, settled.script other others (mirrors.mono (by omega))]

theorem settled_bind
    (settled : Settled change image taken stop ahead (first stop ahead) second)
    (further : ∀ script value rest, first.Reads stop ahead script value rest →
      ∃ more, Settled change make more stop rest (next value stop rest)
        (nextSecond (image value))) :
    ∃ whole, Settled change make whole stop ahead ((first >>= next) stop ahead)
      (second >>= nextSecond) :=
  (settled.bind further).imp' (taken + ·) fun _ whole => whole

section Rules

theorem Settles.mono {fewer : Nat} (readers : Settles change bound image first second)
    (less : fewer ≤ bound) : Settles change fewer image first second :=
  fun stop ahead within => readers stop ahead (Nat.le_trans within less)

theorem Settles.bind (readers : Settles change bound image first second)
    (further : ∀ value, Settles change bound make (next value) (nextSecond (image value))) :
    Settles change bound make (first >>= next) (second >>= nextSecond) := by
  intro stop ahead within
  obtain ⟨taken, settled⟩ := readers stop ahead within
  refine settled_bind settled fun script value rest read => further value stop rest ?_
  rw [show first stop ahead = ⟨script, .ok (value, rest)⟩ from read] at settled
  rw [show rest = ahead.drop taken from settled.result.ends, List.length_drop]
  omega

/-- Behind a token taken, fewer tokens are ahead. -/
theorem Settles.bind_takes (readers : Settles change (bound + 1) image first second)
    (takes : TakesInStep bound first first)
    (further : ∀ value, Settles change bound make (next value) (nextSecond (image value))) :
    Settles change (bound + 1) make (first >>= next) (second >>= nextSecond) := by
  intro stop ahead within
  obtain ⟨taken, settled⟩ := readers stop ahead within
  refine settled_bind settled fun script value rest read => further value stop rest ?_
  have shorter := (takes.suffix_of_reads within read).length_le
  rw [List.length_tail] at shorter
  omega

theorem settles_pure (value : α) :
    Settles change bound image (pure value) (pure (image value)) :=
  fun _ _ _ => ⟨0, .still fun _ _ _ => rfl, fun _ _ _ => rfl⟩

theorem settles_pure_of (value : α) {imaged : α} (same : image value = imaged) :
    Settles change bound image (pure value) (pure imaged) :=
  same ▸ settles_pure value

/-- Making something of a value settles with the reading of it. -/
theorem Settled.map (make : α → β) (imageMade : β → β)
    (settled : Settled change image taken stop ahead (first stop ahead) second)
    (same : ∀ value, imageMade (make value) = make (image value)) :
    ∃ more, Settled change imageMade (taken + more) stop ahead ((make <$> first) stop ahead)
      (make <$> second) :=
  settled.bind fun _ value left _ => settles_pure_of _ (same value) stop left (Nat.le_refl _)

theorem Settles.map (make : α → β) (imageMade : β → β)
    (readers : Settles change bound image first second)
    (same : ∀ value, imageMade (make value) = make (image value)) :
    Settles change bound imageMade (make <$> first) (make <$> second) :=
  readers.bind fun value => settles_pure_of _ (same value)

theorem Settles.lift {reader readerSecond : Reader α}
    (readers : Reader.Settles change bound image reader readerSecond) :
    Settles change bound image (liftM reader) (liftM readerSecond) := by
  intro stop ahead within
  obtain ⟨taken, settled⟩ := readers stop ahead within
  exact ⟨taken, settled, fun _ _ _ => rfl⟩

theorem settles_emit (step : Step) :
    Settles change bound id (emit step) (emit (step.relabel change)) :=
  fun _ _ _ => ⟨0, .still fun _ _ _ => rfl, fun _ _ _ => unmarked_relabel change step⟩

theorem Settles.within (kind : ScopeKind) (readers : Settles change bound image first second) :
    Settles change bound image (within kind first) (within kind second) := by
  have left :
      Settles change bound image (first.onFailure [.leave]) (second.onFailure [.leave]) := by
    intro stop ahead within
    obtain ⟨taken, settled⟩ := readers stop ahead within
    exact ⟨taken, settled.onFailure rfl⟩
  refine (settles_emit (.enter kind)).bind fun _ => left.bind fun value => ?_
  exact (settles_emit .leave).bind fun _ => settles_pure value

end Rules

section Loops

variable {item itemSecond : Scripted (Option α)}

/-- One round of a repetition, with `others` for the further rounds. -/
def round (item : Scripted (Option α)) (others : Scripted (List α)) : Scripted (List α) := do
  match ← item with
  | none => return []
  | some value => return value :: (← others)

/-- A repetition is a round of itself. -/
theorem LoopsWithin.repeated_eq_round (loops : LoopsWithin bound item)
    (within : ahead.length ≤ bound) :
    repeated item stop ahead = round item (repeated item) stop ahead := by
  have unrolled : repeated item stop ahead =
      round item (collect item ahead.length) stop ahead :=
    loops.collect_eq (fun _ _ _ => rfl) within (Nat.le_refl _) (Nat.le_succ ahead.length)
  rw [unrolled, round, round]
  rcases outcome : item stop ahead with ⟨script, failure | ⟨_ | value, rest⟩⟩
  · rw [bind_error outcome, bind_error outcome]
  · rw [bind_ok outcome, bind_ok outcome]
  · have shorter := loops.takes within outcome
    have further : collect item ahead.length stop rest = repeated item stop rest :=
      loops.collect_eq (fun _ _ _ => rfl) (by omega) (Nat.le_of_lt shorter) (Nat.le_refl _)
    rw [bind_ok outcome, bind_ok outcome]
    exact congrArg (fun outcome : Outcome (List α) =>
      Outcome.mk (script ++ outcome.script) outcome.result) (bind_congr_left further)

theorem Settles.repeated (items : Settles change bound (Option.map image) item itemSecond)
    (loops : LoopsWithin bound item) (loopsSecond : ∀ bound, LoopsWithin bound itemSecond) :
    Settles change bound (List.map image) (repeated item) (repeated itemSecond) := by
  intro stop ahead within
  induction size : ahead.length using Nat.strongRecOn generalizing ahead with
  | ind _ inductionHypothesis =>
      subst size
      have again : Scripted.repeated itemSecond =
          round itemSecond (Scripted.repeated itemSecond) :=
        funext fun other => funext fun others =>
          (loopsSecond others.length).repeated_eq_round (Nat.le_refl _)
      rw [loops.repeated_eq_round within, again]
      obtain ⟨taken, settled⟩ := items stop ahead within
      refine settled_bind settled fun script found rest read => ?_
      cases found with
      | none => exact settles_pure [] stop rest (Nat.le_refl _)
      | some value =>
          have shorter := loops.takes within read
          obtain ⟨more, further⟩ :=
            inductionHypothesis rest.length shorter rest (by omega) rfl
          exact settled_bind further fun _ values left _ =>
            settles_pure (value :: values) stop left (Nat.le_refl _)

end Loops

end Scripted
end BraceLang
