import BraceLang.Proofs.Resolution.Frames

/-!
# When two resolvers agree

Resolvers are compared on frames in which names mean the same, not on equal frames: the
bottom frame of a table has each builtin once, and an `if` behind an `else` is resolved
in one frame more than it has scopes. The top frames are compared on their own, since
that is where names are bound. A resolver that binds nothing in the frames it is given
only asks what names mean, so for two of those it does not matter in which frame a name
has its meaning.
-/

namespace BraceLang

/-- Names mean the same in the top frames, and the same in the frames around them. -/
structure Frames.Alike (frames others : Frames) : Prop where
  top : ∀ name, meaning frames.top name = meaning others.top name
  outer : ∀ name,
    frames.outer.findSome? (meaning · name) = others.outer.findSome? (meaning · name)

namespace Frames

variable {frames others : Frames}

theorem lookup_eq (frames : Frames) (name : String) :
    frames.lookup name =
      (meaning frames.top name).or (frames.outer.findSome? (meaning · name)) := by
  rw [lookup, List.findSome?_cons]
  cases meaning frames.top name <;> rfl

theorem Alike.lookup (alike : frames.Alike others) : frames.lookup = others.lookup := by
  ext name : 1
  rw [lookup_eq, lookup_eq, alike.top, alike.outer]

theorem declaredType_congr (same : frames.lookup = others.lookup) :
    frames.declaredType = others.declaredType := by
  ext name : 1
  rw [declaredType, declaredType, same]

/-- With a fresh frame on top nothing matters but what names mean. -/
theorem alike_push (same : frames.lookup = others.lookup) : frames.push.Alike others.push where
  top _ := rfl
  outer := congrFun same

theorem Alike.bound (alike : frames.Alike others) (symbol : Symbol) :
    Alike ⟨frames.top ++ [symbol], frames.outer⟩ ⟨others.top ++ [symbol], others.outer⟩ where
  top name := by rw [meaning_append, meaning_append, alike.top]
  outer := alike.outer

theorem pop_eq_of_outer {inner : Frames} (kept : inner.outer = frames.push.outer) :
    inner.pop = frames := by
  rw [pop, kept]
  rfl

end Frames

namespace Resolver

variable {first second third other further : Resolver}

section Composition

@[simp] theorem idle_andThen (resolver : Resolver) : idle.andThen resolver = resolver :=
  rfl

@[simp] theorem andThen_idle (resolver : Resolver) : resolver.andThen idle = resolver := by
  ext frames : 1
  simp [andThen, idle]

@[simp] theorem andThen_assoc (first second third : Resolver) :
    (first.andThen second).andThen third = first.andThen (second.andThen third) := by
  ext frames : 1
  simp [andThen]

theorem script_singleton (step : Step) : script [step] = step.resolve :=
  andThen_idle _

theorem script_append (front back : List Step) :
    script (front ++ back) = (script front).andThen (script back) := by
  induction front with
  | nil => rfl
  | cons step front inductionHypothesis =>
      rw [List.cons_append, script, script, inductionHypothesis, andThen_assoc]

/-- A scope of its own is a frame of its own. -/
theorem script_framed (kind : ScopeKind) (steps back : List Step) :
    script (.enter kind :: (steps ++ .leave :: back)) =
      (framed (script steps)).andThen (script back) := by
  rw [script, script_append]
  ext frames : 1
  simp [script, andThen, framed, Step.resolve]

theorem script_framed_end (kind : ScopeKind) (steps : List Step) :
    script (.enter kind :: (steps ++ [.leave])) = framed (script steps) :=
  (script_framed kind steps []).trans (andThen_idle _)

end Composition

/-- Both find the same on alike frames but for the places of names bound twice, and leave
alike frames, of which only the top ones have changed. -/
def Agrees (first second : Resolver) : Prop :=
  ∀ ⦃frames others : Frames⦄, frames.Alike others →
    (first frames).1.Alike (second others).1 ∧
      (first frames).1.outer = frames.outer ∧ (second others).1.outer = others.outer ∧
      (first frames).2.map Diagnostic.unplaced = (second others).2.map Diagnostic.unplaced

/-- Both leave the frames as they are and find the same wherever names mean the same. -/
def AgreesAsking (first second : Resolver) : Prop :=
  ∀ ⦃frames others : Frames⦄, frames.lookup = others.lookup →
    (first frames).1 = frames ∧ (second others).1 = others ∧
      (first frames).2.map Diagnostic.unplaced = (second others).2.map Diagnostic.unplaced

namespace AgreesAsking

theorem agrees (agrees : AgreesAsking first second) : Agrees first second := by
  intro frames others alike
  obtain ⟨kept, otherKept, found⟩ := agrees alike.lookup
  rw [kept, otherKept]
  exact ⟨alike, rfl, rfl, found⟩

theorem idle : AgreesAsking idle idle :=
  fun _ _ _ => ⟨rfl, rfl, rfl⟩

theorem check (expression : Node) : AgreesAsking (check expression) (check expression) := by
  intro frames others same
  refine ⟨rfl, rfl, ?_⟩
  simp only [Resolver.check, Frames.declaredType_congr same]

theorem initial (name type : String) (value : Node) :
    AgreesAsking (initial name type value) (initial name type value) := by
  intro frames others same
  refine ⟨rfl, rfl, ?_⟩
  simp only [Resolver.initial, Frames.declaredType_congr same]

theorem andThen (front : AgreesAsking first second) (back : AgreesAsking other further) :
    AgreesAsking (first.andThen other) (second.andThen further) := by
  intro frames others same
  obtain ⟨kept, otherKept, found⟩ := front same
  obtain ⟨keptToo, otherKeptToo, foundToo⟩ := back same
  simp only [Resolver.andThen, kept, otherKept, List.map_append]
  exact ⟨keptToo, otherKeptToo, by rw [found, foundToo]⟩

/-- A frame around a resolver that only asks makes no difference. -/
theorem framed_right (agrees : AgreesAsking first second) :
    AgreesAsking first (framed second) := by
  intro frames others same
  have pushed : frames.lookup = others.push.lookup := same
  obtain ⟨kept, otherKept, found⟩ := agrees pushed
  refine ⟨kept, ?_, found⟩
  simp only [framed, otherKept]
  rfl

end AgreesAsking

namespace Agrees

theorem andThen (front : Agrees first second) (back : Agrees other further) :
    Agrees (first.andThen other) (second.andThen further) := by
  intro frames others alike
  obtain ⟨middle, kept, otherKept, found⟩ := front alike
  obtain ⟨after, keptToo, otherKeptToo, foundToo⟩ := back middle
  refine ⟨after, keptToo.trans kept, otherKeptToo.trans otherKept, ?_⟩
  simp only [Resolver.andThen, List.map_append, found, foundToo]

/-- A name is bound in the one top frame exactly when it is in the other. -/
theorem declare (symbol : Symbol) (location place : Location) :
    Agrees (declare symbol location) (declare symbol place) := by
  intro frames others alike
  rw [Resolver.declare, Resolver.declare, alike.top]
  split
  · exact ⟨alike, rfl, rfl, rfl⟩
  · exact ⟨alike.bound symbol, rfl, rfl, rfl⟩

/-- With a frame of its own, what binds names only asks from the outside. -/
theorem framed (inside : Agrees first second) : AgreesAsking (framed first) (framed second) := by
  intro frames others same
  obtain ⟨_, kept, otherKept, found⟩ := inside (Frames.alike_push same)
  exact ⟨Frames.pop_eq_of_outer kept, Frames.pop_eq_of_outer otherKept, found⟩

end Agrees

end Resolver

end BraceLang
