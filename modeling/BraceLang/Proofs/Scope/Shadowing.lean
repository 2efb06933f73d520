import BraceLang.Proofs.Scope.Consistency

/-!
# The nearest binding wins

Looking up a name goes outward through scopes that do not bind it and ends at the first one
that does. `Reaches` says how far it gets. A symbol that is bound changes what its name means
in the scopes from which the name reaches the one of the binding, and nothing else; opening a
scope changes no meaning at all.
-/

namespace BraceLang.ScopeTable

variable {table : ScopeTable} {name : String} {id scope parent : ScopeId} {symbol : Symbol}

/-- Looked up from a scope, a name comes to the scope `id`: neither the scope in which it starts
nor any other before `id` binds it. -/
inductive Reaches (table : ScopeTable) (name : String) (id : ScopeId) : ScopeId → Prop where
  | here : Reaches table name id id
  | outward {scope parent : ScopeId} (unbound : table.binds scope name = false)
      (found : table.parent? scope = some parent) (further : Reaches table name id parent) :
      Reaches table name id scope

/-- A name comes outward only to the scope itself and to the scopes around it. -/
theorem Reaches.mem_path (descending : table.Descending) (reaches : table.Reaches name id scope) :
    id ∈ table.path scope := by
  induction reaches with
  | here => exact mem_path_self id
  | outward _ found _ inductionHypothesis =>
      rw [descending.path_of_parent found]
      exact List.mem_cons_of_mem _ inductionHypothesis

/-- A name comes to a scope that is on the way outward and has no scope before it that binds the
name. -/
theorem Descending.reaches_iff (descending : table.Descending) :
    table.Reaches name id scope ↔ id ∈ table.path scope ∧
      ∀ other ∈ (table.path scope).takeWhile (· ≠ id), table.binds other name = false := by
  constructor
  · intro reaches
    refine ⟨reaches.mem_path descending, ?_⟩
    induction reaches with
    | here =>
        rw [path_eq_cons_around, List.takeWhile_cons_of_neg (by simp)]
        exact fun _ member => absurd member List.not_mem_nil
    | @outward scope parent unbound found _ inductionHypothesis =>
        rw [descending.path_of_parent found, List.takeWhile_cons]
        split_ifs
        · exact List.forall_mem_cons.mpr ⟨unbound, inductionHypothesis⟩
        · exact fun _ member => absurd member List.not_mem_nil
  · rintro ⟨member, unbound⟩
    induction scope using Nat.strongRecOn with
    | ind scope inductionHypothesis =>
        by_cases own : scope = id
        · exact own ▸ .here
        rw [path_eq_cons_around, List.takeWhile_cons_of_pos (by simpa using own),
          List.forall_mem_cons] at unbound
        rw [path_eq_cons_around, List.mem_cons] at member
        have further := member.resolve_left (Ne.symm own)
        cases found : table.parent? scope with
        | none =>
            rw [around_of_parent_eq_none found] at further
            exact absurd further List.not_mem_nil
        | some parent =>
            rw [descending.around_of_parent found, ← path_eq_cons_around] at further unbound
            exact .outward unbound.1 found
              (inductionHypothesis parent (descending found) further unbound.2)

/-- A name means what the first scope that it comes to binds it to. -/
theorem Descending.lookup_eq_some_iff (descending : table.Descending) :
    table.lookup scope name = some symbol ↔
      ∃ id, table.Reaches name id scope ∧ symbol ∈ table.symbols id ∧ symbol.name = name := by
  constructor
  · intro means
    induction scope using Nat.strongRecOn with
    | ind scope inductionHypothesis =>
        rw [descending.lookup_eq] at means
        cases own : (table.scope scope).find? name with
        | some found =>
            rw [own, Option.some_or] at means
            obtain rfl := Option.some.inj means
            exact ⟨scope, .here, Register.find?_eq_some_iff.mp own⟩
        | none =>
            rw [own, Option.none_or, Option.bind_eq_some_iff] at means
            obtain ⟨parent, found, means⟩ := means
            obtain ⟨id, reaches, bound⟩ := inductionHypothesis parent (descending found) means
            exact ⟨id, .outward (find?_eq_none_iff.mp own) found reaches, bound⟩
  · rintro ⟨id, reaches, bound⟩
    induction reaches with
    | here =>
        have own : (table.scope id).find? name = some symbol := Register.find?_eq_some_iff.mpr bound
        rw [descending.lookup_eq, own, Option.some_or]
    | outward unbound found _ inductionHypothesis =>
        rw [descending.lookup_eq, find?_eq_none_iff.mpr unbound, Option.none_or, found,
          Option.bind_some, inductionHypothesis]

section Bound

variable (inside : id < table.size) (unbound : table.binds id symbol.name = false)

include inside unbound

/-- Of what scopes bind themselves, a symbol that is bound changes the meaning of one name in one
scope. -/
theorem find?_bound (other : ScopeId) (name : String) :
    ((table.bound id symbol).scope other).find? name =
      if other = id ∧ symbol.name = name then some symbol else (table.scope other).find? name := by
  by_cases own : other = id
  · subst own
    rw [find?_eq, symbols_bound inside, if_pos ⟨rfl, unbound⟩, List.find?_append, ← find?_eq]
    by_cases same : symbol.name = name
    · subst same
      rw [find?_eq_none_iff.mpr unbound, if_pos ⟨rfl, rfl⟩]
      simp
    · rw [if_neg fun both => same both.2]
      simp [same]
  · rw [if_neg fun both => own both.1, scope_bound inside, if_neg own]

/-- Wherever its name comes to the scope in which it is bound, a symbol takes effect. -/
theorem Descending.lookup_bound_of_reaches (descending : table.Descending)
    (reaches : table.Reaches symbol.name id scope) :
    (table.bound id symbol).lookup scope symbol.name = some symbol := by
  have later := descending.bound inside symbol
  induction reaches with
  | here => rw [later.lookup_eq, find?_bound inside unbound, if_pos ⟨rfl, rfl⟩, Option.some_or]
  | @outward scope parent silent found _ inductionHypothesis =>
      rw [later.lookup_eq, find?_bound inside unbound, parent?_bound inside, found,
        Option.bind_some, inductionHypothesis, find?_eq_none_iff.mpr silent]
      split_ifs <;> rfl

/-- Everywhere else, and for every other name, nothing changes. -/
theorem Descending.lookup_bound_of_not_reaches (descending : table.Descending)
    (apart : ¬ (symbol.name = name ∧ table.Reaches name id scope)) :
    (table.bound id symbol).lookup scope name = table.lookup scope name := by
  induction scope using Nat.strongRecOn with
  | ind scope inductionHypothesis =>
      have own : ¬ (scope = id ∧ symbol.name = name) := by
        rintro ⟨rfl, same⟩
        exact apart ⟨same, .here⟩
      rw [(descending.bound inside symbol).lookup_eq, descending.lookup_eq,
        find?_bound inside unbound, if_neg own, parent?_bound inside]
      cases held : (table.scope scope).find? name with
      | some found => rw [Option.some_or, Option.some_or]
      | none =>
          cases found : table.parent? scope with
          | none => rfl
          | some parent =>
              have further : ¬ (symbol.name = name ∧ table.Reaches name id parent) :=
                fun both => apart ⟨both.1, .outward (find?_eq_none_iff.mp held) found both.2⟩
              rw [Option.bind_some, Option.bind_some,
                inductionHypothesis parent (descending found) further]

end Bound

/-- A new scope changes no meaning in the scopes that there are. -/
theorem Descending.lookup_enter (descending : table.Descending) (inside : parent < table.size)
    (kind : ScopeKind) (known : scope < table.size) (name : String) :
    (table.enter parent kind).lookup scope name = table.lookup scope name := by
  have grows : GrowsAt parent table (table.enter parent kind) :=
    .enter (.refl parent table) descending inside (.inl rfl) kind
  exact grows.lookup_eq descending (descending.enter inside kind) (symbols_enter inside kind parent)
    known name

/-- In a new scope names mean what they mean in its parent. -/
theorem Descending.lookup_entered (descending : table.Descending) (inside : parent < table.size)
    (kind : ScopeKind) (name : String) :
    (table.enter parent kind).lookup table.size name = table.lookup parent name := by
  rw [(descending.enter inside kind).lookup_eq, scope_enter inside, if_pos rfl,
    parent?_enter inside, if_pos rfl, Option.bind_some, descending.lookup_enter inside kind inside]
  rfl

/-- In every table that is built from the root alone, a name means what the nearest scope outward
binds it to. A symbol that is accepted takes effect exactly where its name comes to the scope in
which it is bound; every other meaning stays what it was, in particular all meanings in scopes that
do not lie inside that one. A new scope has the meanings of its parent and changes no others. -/
theorem nearest_binding_wins {table : ScopeTable} (built : table.Built) :
    (∀ scope < table.size, ∀ name symbol, table.lookup scope name = some symbol ↔
      ∃ id, table.Reaches name id scope ∧ symbol ∈ table.symbols id ∧ symbol.name = name) ∧
      (∀ id < table.size, ∀ symbol extended, table.bind id symbol = .ok extended →
        ∀ scope < table.size, ∀ name,
          (symbol.name = name ∧ table.Reaches name id scope →
            extended.lookup scope name = some symbol) ∧
          (¬ (symbol.name = name ∧ table.Reaches name id scope) →
            extended.lookup scope name = table.lookup scope name) ∧
          (id ∉ table.path scope → extended.lookup scope name = table.lookup scope name)) ∧
      ∀ parent < table.size, ∀ kind name,
        (table.enter parent kind).lookup table.size name = table.lookup parent name ∧
          ∀ scope < table.size,
            (table.enter parent kind).lookup scope name = table.lookup scope name := by
  have descending := built.consistent.descending
  refine ⟨fun _ _ _ _ => descending.lookup_eq_some_iff, ?_, fun parent inside kind name =>
    ⟨descending.lookup_entered inside kind name,
      fun _ known => descending.lookup_enter inside kind known name⟩⟩
  intro id inside symbol extended accepted scope _ name
  obtain ⟨_, refused, _⟩ | ⟨unbound, bound, _⟩ := bind_refuses_or_appends inside symbol
  · rw [refused] at accepted
    cases accepted
  · obtain rfl := Except.ok.inj (bound.symm.trans accepted)
    refine ⟨?_, descending.lookup_bound_of_not_reaches inside unbound, fun outside => ?_⟩
    · rintro ⟨rfl, reaches⟩
      exact descending.lookup_bound_of_reaches inside unbound reaches
    · exact descending.lookup_bound_of_not_reaches inside unbound fun both =>
        outside (both.2.mem_path descending)

/-- A name bound at the root and two levels below, then bound between the two: its meaning changes
in the scope between, not inside the inner one, not at the root and not beside. -/
theorem nearest_binding_wins_between :
    let outer : Symbol := ⟨"x", "int", .variable⟩
    let between : Symbol := ⟨"x", "double", .variable⟩
    let inner : Symbol := ⟨"x", "String", .parameter⟩
    let nested := ((empty.bound 0 outer).enter 0 .classBody).enter 1 .methodBody
    let table := ((nested.bound 2 inner).enter 2 .block).enter 0 .block
    table.Built ∧ table.bind 1 between = .ok (table.bound 1 between) ∧
      table.lookup 1 "x" = some outer ∧
      (table.bound 1 between).lookup 1 "x" = some between ∧
      (table.bound 1 between).lookup 3 "x" = some inner ∧
      (table.bound 1 between).lookup 0 "x" = some outer ∧
      (table.bound 1 between).lookup 4 "x" = some outer ∧
      (table.enter 3 .block).lookup table.size "x" = some inner := by
  intro outer between inner nested table
  have built : table.Built := by
    refine .enter (.enter (.bound (.enter (.enter (.bound .start ?_ _) ?_ _) ?_ _) ?_ _) ?_ _) ?_ _
      <;> decide
  have accepted : table.bind 1 between = .ok (table.bound 1 between) := by decide
  have blocked : ¬ table.Reaches "x" 1 3 := by
    rw [built.consistent.descending.reaches_iff]
    decide
  obtain ⟨nearest, updates, opened⟩ := nearest_binding_wins built
  have update := updates 1 (by decide) between _ accepted
  refine ⟨built, accepted, ?_, (update 1 (by decide) "x").1 ⟨rfl, .here⟩, ?_, ?_, ?_, ?_⟩
  · exact (nearest 1 (by decide) "x" outer).mpr
      ⟨0, .outward (by decide) (by decide) .here, by decide, rfl⟩
  · rw [(update 3 (by decide) "x").2.1 fun both => blocked both.2]
    decide
  · rw [(update 0 (by decide) "x").2.2 (by decide)]
    decide
  · rw [(update 4 (by decide) "x").2.2 (by decide)]
    decide
  · rw [(opened 3 (by decide) .block "x").1]
    decide

end BraceLang.ScopeTable
