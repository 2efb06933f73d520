import BraceLang.Proofs.Lockstep.Statement
import BraceLang.Proofs.Statement.Soundness

/-!
# Every loop of the grammar takes tokens

A loop is bounded by the number of tokens ahead. `LoopsWithin` says what makes the bound
invisible: at the end of the tokens an item declines, and an item that does not decline
takes a token. More rounds than tokens then make no difference, to failures as little
as to what is collected.
-/

namespace BraceLang

section Loops

variable {α : Type} {bound rounds others : Nat} {stop : Terminator} {ahead rest : List Token}

/-- On at most `bound` tokens an item takes a token in each round of a loop until it declines,
which it does at the end of the tokens. -/
structure Reader.LoopsWithin (bound : Nat) (item : Reader (Option α)) : Prop where
  ends : ∀ stop, item stop [] = .ok (none, [])
  takes : ∀ {stop ahead value rest}, ahead.length ≤ bound →
    item.Reads stop ahead (some value) rest → rest.length < ahead.length

/-- More rounds than tokens make no difference. -/
theorem Reader.LoopsWithin.collect_eq {item : Reader (Option α)} (loops : LoopsWithin bound item)
    (within : ahead.length ≤ bound) (enough : ahead.length ≤ rounds)
    (alsoEnough : ahead.length ≤ others) :
    collect item rounds stop ahead = collect item others stop ahead := by
  induction rounds generalizing others ahead with
  | zero =>
      obtain rfl : ahead = [] := List.eq_nil_of_length_eq_zero (Nat.le_zero.mp enough)
      cases others with
      | zero => rfl
      | succ others => simp only [collect, bind, loops.ends]
  | succ rounds inductionHypothesis =>
      cases others with
      | zero =>
          obtain rfl : ahead = [] := List.eq_nil_of_length_eq_zero (Nat.le_zero.mp alsoEnough)
          simp only [collect, bind, loops.ends]
      | succ others =>
          simp only [collect, bind]
          rcases outcome : item stop ahead with failure | ⟨_ | value, rest⟩
          · rfl
          · rfl
          · have shorter := loops.takes within outcome
            have further : collect item rounds stop rest = collect item others stop rest :=
              inductionHypothesis (by omega) (by omega) (by omega)
            simp only [further]

/-- On at most `bound` tokens an item takes a token in each round of a loop until it declines,
which it does at the end of the tokens, without a step. -/
structure Scripted.LoopsWithin (bound : Nat) (item : Scripted (Option α)) : Prop where
  ends : ∀ stop, item stop [] = ⟨[], .ok (none, [])⟩
  takes : ∀ {stop ahead script value rest}, ahead.length ≤ bound →
    item.Reads stop ahead script (some value) rest → rest.length < ahead.length

theorem Scripted.collect_none {item : Scripted (Option α)} {script : List Step} (rounds : Nat)
    (declined : item stop ahead = ⟨script, .ok (none, rest)⟩) :
    collect item (rounds + 1) stop ahead = ⟨script ++ [], .ok ([], rest)⟩ :=
  bind_ok declined

theorem Scripted.collect_some {item : Scripted (Option α)} {script : List Step} {value : α}
    (rounds : Nat) (first : item stop ahead = ⟨script, .ok (some value, rest)⟩) :
    collect item (rounds + 1) stop ahead =
      ⟨script ++ ((collect item rounds >>= fun values => pure (value :: values)) stop rest).script,
        ((collect item rounds >>= fun values => pure (value :: values)) stop rest).result⟩ :=
  bind_ok first

/-- Nor do they if an item that does the same is read in its place. -/
theorem Scripted.LoopsWithin.collect_eq {item itemSecond : Scripted (Option α)}
    (loops : LoopsWithin bound item)
    (same : ∀ stop ahead, ahead.length ≤ bound → item stop ahead = itemSecond stop ahead)
    (within : ahead.length ≤ bound) (enough : ahead.length ≤ rounds)
    (alsoEnough : ahead.length ≤ others) :
    collect item rounds stop ahead = collect itemSecond others stop ahead := by
  induction rounds generalizing others ahead with
  | zero =>
      obtain rfl : ahead = [] := List.eq_nil_of_length_eq_zero (Nat.le_zero.mp enough)
      cases others with
      | zero => rfl
      | succ others =>
          have ends := (same stop [] within).symm.trans (loops.ends stop)
          exact (collect_none others ends).symm
  | succ rounds inductionHypothesis =>
      cases others with
      | zero =>
          obtain rfl : ahead = [] := List.eq_nil_of_length_eq_zero (Nat.le_zero.mp alsoEnough)
          exact collect_none rounds (loops.ends stop)
      | succ others =>
          have sameHere := (same stop ahead within).symm
          rcases outcome : item stop ahead with ⟨script, failure | ⟨_ | value, rest⟩⟩
          · rw [collect, collect, bind_error outcome, bind_error (sameHere.trans outcome)]
          · rw [collect_none rounds outcome, collect_none others (sameHere.trans outcome)]
          · have shorter := loops.takes within outcome
            have further : collect item rounds stop rest = collect itemSecond others stop rest :=
              inductionHypothesis (by omega) (by omega) (by omega)
            rw [collect_some rounds outcome, collect_some others (sameHere.trans outcome),
              bind_congr_left further]

/-- A loop in which the bound on the rounds makes no difference. -/
structure Reader.Unbounded (bound : Nat) (item : Reader (Option α)) : Prop
    extends LoopsWithin bound item where
  collect_eq : ∀ {rounds stop ahead}, ahead.length ≤ bound → ahead.length ≤ rounds →
    collect item rounds stop ahead = repeated item stop ahead

theorem Reader.LoopsWithin.unbounded {item : Reader (Option α)} (loops : LoopsWithin bound item) :
    Unbounded bound item where
  toLoopsWithin := loops
  collect_eq within enough := loops.collect_eq within enough (Nat.le_refl _)

/-- A loop in which the bound on the rounds makes no difference. -/
structure Scripted.Unbounded (bound : Nat) (item : Scripted (Option α)) : Prop
    extends LoopsWithin bound item where
  collect_eq : ∀ {rounds stop ahead}, ahead.length ≤ bound → ahead.length ≤ rounds →
    collect item rounds stop ahead = repeated item stop ahead

theorem Scripted.LoopsWithin.unbounded {item : Scripted (Option α)}
    (loops : LoopsWithin bound item) : Unbounded bound item where
  toLoopsWithin := loops
  collect_eq within enough := loops.collect_eq (fun _ _ _ => rfl) within enough (Nat.le_refl _)

end Loops

section Suffixes

variable {α : Type} {bound : Nat} {stop : Terminator} {ahead rest : List Token} {value : α}

theorem Reader.InStep.suffix_of_reads {first second : Reader α}
    (readers : InStep bound first second) (within : ahead.length ≤ bound)
    (reads : first.Reads stop ahead value rest) : rest <:+ ahead := by
  have ranged := (readers stop ahead within).2
  rwa [reads] at ranged

theorem Scripted.TakesInStep.suffix_of_reads {first second : Scripted α} {script : List Step}
    (readers : TakesInStep bound first second) (within : ahead.length ≤ bound + 1)
    (reads : first.Reads stop ahead script value rest) : rest <:+ ahead.tail := by
  have ran := (readers stop ahead within).2
  rw [reads] at ran
  exact ran.suffix

end Suffixes

namespace Grammar

open Reader Scripted

variable {bound : Nat}

section Expressions

variable {inner : Reader Node} (inRange : Reader.InStep bound inner inner)
include inRange

theorem loopsWithin_furtherArgument : Reader.LoopsWithin bound (furtherArgument inner) where
  ends _ := rfl
  takes within reads := by
    obtain ⟨comma, middle, rfl, arg⟩ := reads_furtherArgument_some.mp reads
    have shorter := (inRange.suffix_of_reads (Nat.le_of_succ_le within) arg).length_le
    exact Nat.lt_succ_of_le shorter

theorem loopsWithin_selector : Reader.LoopsWithin bound (selector inner) where
  ends _ := rfl
  takes {_ _ value _} within reads := by
    cases value with
    | field name location =>
        obtain ⟨place, rfl⟩ := reads_selector_field.mp reads
        simp only [List.length_cons]
        omega
    | call args location =>
        obtain ⟨middle, closing, rfl, argsRead⟩ := reads_selector_call.mp reads
        have shorter := ((inStep_arguments inRange).suffix_of_reads (Nat.le_of_succ_le within)
          argsRead).length_le
        simp only [List.length_cons] at *
        omega

theorem loopsWithin_operation (level : Level) :
    Reader.LoopsWithin bound (operation level inner) where
  ends _ := rfl
  takes within reads := by
    obtain ⟨lexeme, middle, rfl, _, right⟩ := reads_operation_some.mp reads
    have shorter := (inRange.suffix_of_reads (Nat.le_of_succ_le within) right).length_le
    exact Nat.lt_succ_of_le shorter

end Expressions

theorem loopsWithin_furtherParameter : Scripted.LoopsWithin bound furtherParameter where
  ends _ := rfl
  takes _ reads := by
    obtain ⟨comma, place, namePlace, rfl, _⟩ := reads_furtherParameter_some.mp reads
    simp only [List.length_cons]
    omega

theorem topLevel_cons (inner : Scripted Item) (stop : Terminator) (first : Token)
    (tail : List Token) :
    topLevel inner stop (first :: tail) =
      (inner >>= fun item => pure (some item)) stop (first :: tail) := rfl

theorem topLevel_congr {inner innerSecond : Scripted Item}
    (readers : DispatchesInStep bound inner innerSecond) (stop : Terminator) (ahead : List Token)
    (within : ahead.length ≤ bound) :
    topLevel inner stop ahead = topLevel innerSecond stop ahead := by
  obtain _ | ⟨first, tail⟩ := ahead
  · rfl
  · rw [topLevel_cons, topLevel_cons]
    exact bind_congr_left (readers stop (first :: tail) (List.cons_ne_nil _ _) within).1

section Statements

variable {inner : Scripted Item} (dispatches : DispatchesInStep bound inner inner)
include dispatches

theorem loopsWithin_furtherArm : Scripted.LoopsWithin bound (furtherArm inner) where
  ends _ := rfl
  takes within reads := by
    obtain ⟨⟨word, middle, rfl⟩, _, armRead⟩ := reads_furtherArm_some.mp reads
    have suffix := (takesInStep_arm dispatches).suffix_of_reads
      (Nat.le_trans (Nat.le_succ _) (Nat.le_succ_of_le within)) armRead
    exact Nat.lt_succ_of_le (suffix.trans (List.tail_suffix _)).length_le

theorem loopsWithin_member (className : String) :
    Scripted.LoopsWithin bound (member inner className) where
  ends _ := rfl
  takes within reads := by
    obtain ⟨words, after, rfl, _, choice⟩ := reads_member_some.mp reads
    rw [List.length_append] at within ⊢
    rcases choice with ⟨type, place, tail, rfl, typed⟩ | ⟨place, tail, rfl, node, method, _⟩
    · have shorter := ((takesInStep_typedMember dispatches).suffix_of_reads (by omega)
        typed).length_le
      simp only [List.tail_cons, List.length_cons] at *
      omega
    · have shorter := ((takesInStep_methodRest dispatches none).suffix_of_reads (by omega)
        method).length_le
      simp only [List.tail_cons, List.length_cons] at *
      omega

theorem loopsWithin_topLevel : Scripted.LoopsWithin bound (topLevel inner) where
  ends _ := rfl
  takes {stop ahead _ _ _} within reads := by
    obtain ⟨nonempty, first⟩ := reads_topLevel_some.mp reads
    have dispatched := (dispatches stop ahead nonempty within).2
    rw [first] at dispatched
    exact ItemCourse.length_lt dispatched

end Statements
end Grammar
end BraceLang
