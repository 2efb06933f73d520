import BraceLang.Symbol

/-!
# Registers of symbols

A register holds symbols of different names in the order of their arrival. Beside them
it keeps an index, which leads from a name to the slot of its symbol. A name is looked
up in the index alone; the symbols are never searched. A register whose index disagrees
with its symbols cannot be made, so every operation that changes the one keeps up the
other.
-/

namespace BraceLang

/-- Symbols in the order of their arrival, and for each of their names the slot of its symbol. -/
structure Register where
  symbols : List Symbol
  index : List (String × Nat)
  indexed : ∀ name slot,
    index.lookup name = some slot ↔ (symbols.map (·.name))[slot]? = some name
deriving DecidableEq, Repr

namespace Register

/-- The slot of the symbol of a name. -/
def slot? (register : Register) (name : String) : Option Nat :=
  register.index.lookup name

/-- The symbol of a name. -/
def find? (register : Register) (name : String) : Option Symbol :=
  (register.slot? name).bind fun slot => register.symbols[slot]?

/-- Whether there is a symbol of a name. -/
def binds (register : Register) (name : String) : Bool :=
  (register.slot? name).isSome

theorem slot?_eq_some_iff {register : Register} {name : String} {slot : Nat} :
    register.slot? name = some slot ↔ (register.symbols.map (·.name))[slot]? = some name :=
  register.indexed name slot

/-- No symbols. -/
def empty : Register where
  symbols := []
  index := []
  indexed _ _ := by simp

instance : Inhabited Register := ⟨empty⟩

/-- A name put behind others has the slot behind theirs, and they keep theirs. -/
theorem getElem?_concat_eq_some_iff {names : List String} {added name : String} {slot : Nat} :
    (names ++ [added])[slot]? = some name ↔
      names[slot]? = some name ∨ slot = names.length ∧ added = name := by
  grind

/-- The register with a symbol of a new name behind the others. -/
def add (register : Register) (symbol : Symbol) (fresh : register.slot? symbol.name = none) :
    Register where
  symbols := register.symbols ++ [symbol]
  index := (symbol.name, register.symbols.length) :: register.index
  indexed name slot := by
    rw [List.map_append, List.map_singleton, getElem?_concat_eq_some_iff, List.length_map,
      List.lookup_cons, ← slot?_eq_some_iff]
    by_cases same : name = symbol.name
    · subst same
      simp [fresh, eq_comm]
    · simp [beq_false_of_ne same, Ne.symm same, slot?]

/-- The register with a symbol in the slot of the one that has its name. -/
def replace (register : Register) (symbol : Symbol) (slot : Nat)
    (known : register.slot? symbol.name = some slot) : Register where
  symbols := register.symbols.set slot symbol
  index := register.index
  indexed name other := by
    -- The slot holds the same name before and after, so the index needs no change.
    obtain ⟨inside, named⟩ := List.getElem?_eq_some_iff.mp (slot?_eq_some_iff.mp known)
    rw [List.map_set, ← named, List.set_getElem_self]
    exact register.indexed name other

/-- The register with a symbol in the slot of the one that has its name, or else behind all. -/
def put (register : Register) (symbol : Symbol) : Register :=
  match known : register.slot? symbol.name with
  | some slot => register.replace symbol slot known
  | none => register.add symbol known

end Register
end BraceLang
