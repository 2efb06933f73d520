import Mathlib.Data.List.Induction
import Mathlib.Data.List.Nodup
import Mathlib.Tactic.SplitIfs
import BraceLang.Scope.Register

/-!
# The index of a register agrees with its symbols

What a register answers from its index is what a search through its symbols would
answer. So proofs about scopes only speak of symbols.
-/

namespace BraceLang.Register

variable {register : Register} {name : String}

/-- No two symbols of a register have the same name: a name leads to one slot. -/
theorem nodup_names (register : Register) : (register.symbols.map (·.name)).Nodup := by
  rw [List.nodup_iff_getElem?_ne_getElem?]
  intro first second before inside same
  have named := List.getElem?_eq_getElem inside
  have found := slot?_eq_some_iff.mpr named
  rw [← same] at named
  rw [slot?_eq_some_iff.mpr named] at found
  exact Nat.ne_of_lt before (Option.some.inj found)

theorem binds_iff :
    register.binds name = true ↔ ∃ symbol ∈ register.symbols, symbol.name = name := by
  rw [binds, Option.isSome_iff_exists, ← List.mem_map, List.mem_iff_getElem?]
  exact exists_congr fun slot => slot?_eq_some_iff

theorem find?_eq_some_iff {symbol : Symbol} :
    register.find? name = some symbol ↔ symbol ∈ register.symbols ∧ symbol.name = name := by
  simp only [find?, Option.bind_eq_some_iff, slot?_eq_some_iff, List.getElem?_map,
    Option.map_eq_some_iff, List.mem_iff_getElem?]
  constructor
  · rintro ⟨slot, ⟨other, held, named⟩, found⟩
    obtain rfl := Option.some.inj (held.symm.trans found)
    exact ⟨⟨slot, held⟩, named⟩
  · rintro ⟨⟨slot, held⟩, named⟩
    exact ⟨slot, ⟨symbol, held, named⟩, held⟩

/-- A name looked up in the index is found exactly when a search finds it. -/
theorem binds_eq_any (register : Register) (name : String) :
    register.binds name = register.symbols.any (·.name = name) := by
  rw [Bool.eq_iff_iff, binds_iff]
  simp

/-- The symbol that the index leads to is the one that a search finds, in whatever order it goes
through the symbols. -/
theorem find?_eq_of_mem_iff {symbols : List Symbol}
    (same : ∀ symbol, symbol ∈ symbols ↔ symbol ∈ register.symbols) :
    register.find? name = symbols.find? (·.name = name) := by
  cases found : symbols.find? (·.name = name) with
  | none =>
      rw [Option.eq_none_iff_forall_ne_some]
      intro symbol held
      obtain ⟨member, named⟩ := find?_eq_some_iff.mp held
      exact List.find?_eq_none.mp found symbol ((same symbol).mpr member) (decide_eq_true named)
  | some symbol =>
      have named : symbol.name = name := by simpa using List.find?_some found
      exact find?_eq_some_iff.mpr ⟨(same symbol).mp (List.mem_of_find?_eq_some found), named⟩

theorem find?_eq (register : Register) (name : String) :
    register.find? name = register.symbols.find? (·.name = name) :=
  find?_eq_of_mem_iff fun _ => Iff.rfl

/-- A name is bound exactly when it has a symbol. -/
theorem isSome_find? (register : Register) (name : String) :
    (register.find? name).isSome = register.binds name := by
  rw [Bool.eq_iff_iff, Option.isSome_iff_exists, binds_iff]
  exact exists_congr fun symbol => find?_eq_some_iff

section Put

variable {symbol : Symbol}

theorem put_of_slot? {slot : Nat} (known : register.slot? symbol.name = some slot) :
    register.put symbol = register.replace symbol slot known := by
  rw [put]
  split
  next other found =>
    obtain rfl := Option.some.inj (known.symm.trans found)
    rfl
  next absent => exact absurd (known.symm.trans absent) (Option.some_ne_none slot)

theorem put_of_fresh (fresh : register.slot? symbol.name = none) :
    register.put symbol = register.add symbol fresh := by
  rw [put]
  split
  next found => exact absurd (found.symm.trans fresh) (Option.some_ne_none _)
  next => rfl

/-- A symbol of a known name leaves the names as they are; a new name comes behind the others. -/
theorem names_put (register : Register) (symbol : Symbol) :
    (register.put symbol).symbols.map (·.name) =
      if register.binds symbol.name then register.symbols.map (·.name)
      else register.symbols.map (·.name) ++ [symbol.name] := by
  cases known : register.slot? symbol.name with
  | none => simp [put_of_fresh known, binds, known, add]
  | some slot =>
      obtain ⟨inside, named⟩ := List.getElem?_eq_some_iff.mp (slot?_eq_some_iff.mp known)
      rw [put_of_slot? known, binds, known, Option.isSome_some, if_pos rfl, replace, List.map_set,
        ← named, List.set_getElem_self]

/-- A symbol that is put takes over its name and no other. -/
theorem find?_put (register : Register) (symbol : Symbol) (name : String) :
    (register.put symbol).find? name =
      if symbol.name = name then some symbol else register.find? name := by
  cases known : register.slot? symbol.name with
  | none =>
      have absent : register.find? symbol.name = none := by rw [find?, known, Option.bind_none]
      rw [put_of_fresh known, find?_eq, add, List.find?_append, ← find?_eq]
      split_ifs with same
      · simp [← same, absent]
      · simp [same]
  | some slot =>
      have apart {other : Nat} (found : register.slot? name = some other)
          (different : symbol.name ≠ name) : slot ≠ other := by
        rintro rfl
        have named := (slot?_eq_some_iff.mp known).symm.trans (slot?_eq_some_iff.mp found)
        exact different (Option.some.inj named)
      have kept (other : String) :
          (register.replace symbol slot known).slot? other = register.slot? other := rfl
      obtain ⟨inside, _⟩ := List.getElem?_eq_some_iff.mp (slot?_eq_some_iff.mp known)
      rw [List.length_map] at inside
      rw [put_of_slot? known, find?, find?, kept, replace]
      split_ifs with same
      · rw [← same, known, Option.bind_some, List.getElem?_set_self inside]
      · exact Option.bind_congr fun other found => List.getElem?_set_ne (apart found same)

end Put

/-- Of repeated names the first ones stand, so a name put behind others stands if it is not one of
them. -/
theorem eraseDups_concat (names : List String) (name : String) :
    (names ++ [name]).eraseDups =
      if name ∈ names then names.eraseDups else names.eraseDups ++ [name] := by
  rw [List.eraseDups_append]
  split_ifs with known <;> simp [List.removeAll, List.eraseDups_cons, known]

/-- Of symbols put into a register one after the other, each name stands where it first came. -/
theorem names_foldl_put (symbols : List Symbol) :
    (symbols.foldl put empty).symbols.map (·.name) = (symbols.map (·.name)).eraseDups := by
  induction symbols using List.reverseRecOn with
  | nil => rfl
  | append_singleton symbols symbol inductionHypothesis =>
      have known : (symbols.foldl put empty).binds symbol.name = true ↔
          symbol.name ∈ symbols.map (·.name) := by
        rw [binds_iff, ← List.mem_map, inductionHypothesis, List.mem_eraseDups]
      rw [List.foldl_append, List.foldl_cons, List.foldl_nil, names_put, inductionHypothesis,
        List.map_append, List.map_singleton, eraseDups_concat]
      exact if_congr known rfl rfl

/-- Each name has the symbol that came last. -/
theorem find?_foldl_put (symbols : List Symbol) (name : String) :
    (symbols.foldl put empty).find? name = symbols.reverse.find? (·.name = name) := by
  induction symbols using List.reverseRecOn with
  | nil => rfl
  | append_singleton symbols symbol inductionHypothesis =>
      rw [List.foldl_append, List.foldl_cons, List.foldl_nil, find?_put, inductionHypothesis,
        List.reverse_concat, List.find?_cons]
      split_ifs with same <;> simp [same]

end BraceLang.Register
