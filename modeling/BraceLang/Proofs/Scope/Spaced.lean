import BraceLang.Proofs.Scope.Locality

/-!
# A block in which nothing is declared

Two sessions carry out the same steps, but one of them has opened a block more. As long as
nothing is declared in that block, a name means in both sessions the same, and the same is found
wrong. The scopes opened later have the next numbers, and there is one more scope on the way
outward from those inside the block.
-/

namespace BraceLang

/-- The number of a scope if one more scope comes in, as the one with the number `extra`. -/
def past (extra id : Nat) : Nat := if id < extra then id else id + 1

section Past

variable {extra id other : Nat}

theorem past_of_lt (below : id < extra) : past extra id = id := if_pos below

theorem past_of_le (above : extra ≤ id) : past extra id = id + 1 := if_neg (Nat.not_lt.mpr above)

theorem past_ne (extra id : Nat) : past extra id ≠ extra := by
  rw [past]
  split_ifs <;> omega

theorem past_inj : past extra id = past extra other ↔ id = other := by
  rw [past, past]
  split_ifs <;> omega

theorem past_le_succ (extra id : Nat) : past extra id ≤ id + 1 := by
  rw [past]
  split_ifs <;> omega

theorem filter_map_past (extra : Nat) (ids : List Nat) :
    (ids.map (past extra)).filter (· ≠ extra) = ids.map (past extra) := by
  refine List.filter_eq_self.mpr fun id member => ?_
  obtain ⟨other, _, rfl⟩ := List.mem_map.mp member
  exact decide_eq_true (past_ne extra other)

end Past

/-- A table with one scope more than another one, a block in which nothing is bound. The other
scopes are the same, and so is the way outward from them, but for that block. -/
structure ScopeTable.Spaced (extra : ScopeId) (table spaced : ScopeTable) : Prop where
  inside : extra ≤ table.size
  size : spaced.size = table.size + 1
  kind : ∀ id, spaced.kind (past extra id) = table.kind id
  symbols : ∀ id, spaced.symbols (past extra id) = table.symbols id
  extraKind : spaced.kind extra = .block
  extraSymbols : spaced.symbols extra = []
  path : ∀ id < table.size,
    (spaced.path (past extra id)).filter (· ≠ extra) = (table.path id).map (past extra)

/-- The scopes on a way outward stay in front of a scope that is added. -/
theorem ScopeTable.map_past_path {table : ScopeTable} (descending : table.Descending) {id : ScopeId}
    (known : id < table.size) : (table.path id).map (past table.size) = table.path id := by
  have kept : (table.path id).map (past table.size) = (table.path id).map fun other => other :=
    List.map_congr_left fun other member =>
      past_of_lt (Nat.lt_of_le_of_lt (descending.le_of_mem_path member) known)
  rw [kept, List.map_id']

/-- Behind a table nothing is found, nor is it if one more scope comes in there. -/
theorem ScopeTable.scope_past (table : ScopeTable) (id : ScopeId) :
    table.scope (past table.size id) = table.scope id := by
  by_cases known : id < table.size
  · rw [past_of_lt known]
  · have outside : table.size ≤ id := Nat.not_lt.mp known
    rw [past_of_le outside, scope_of_size_le (Nat.le_succ_of_le outside),
      scope_of_size_le outside]

namespace ScopeTable.Spaced

variable {extra here there : ScopeId} {table spaced : ScopeTable}

theorem past_size (tables : table.Spaced extra spaced) : past extra table.size = spaced.size := by
  rw [past_of_le tables.inside, tables.size]

theorem past_lt (tables : table.Spaced extra spaced) {id : ScopeId} (known : id < table.size) :
    past extra id < spaced.size := by
  rw [tables.size]
  exact Nat.lt_of_le_of_lt (past_le_succ extra id) (Nat.succ_lt_succ known)

/-- Right after the block was opened. -/
theorem start (descending : table.Descending) (inside : here < table.size) :
    table.Spaced table.size (table.enter here .block) where
  inside := Nat.le_refl _
  size := size_enter ..
  kind id := by
    rw [kind_enter inside, if_neg (past_ne _ _), ScopeTable.kind, scope_past, ScopeTable.kind]
  symbols id := by
    rw [symbols_enter inside, ScopeTable.symbols, scope_past, ScopeTable.symbols]
  extraKind := by rw [kind_enter inside, if_pos rfl]
  extraSymbols := by
    rw [symbols_enter inside, ScopeTable.symbols, scope_of_size_le (Nat.le_refl _)]
    rfl
  path id known := by
    have kept := map_past_path descending known
    rw [past_of_lt known, descending.path_enter inside .block known, kept]
    exact kept ▸ filter_map_past ..

/-- A name means the same where the ways outward are the same but for the block. -/
theorem lookup_eq (tables : table.Spaced extra spaced)
    (outward : (spaced.path there).filter (· ≠ extra) = (table.path here).map (past extra))
    (name : String) : spaced.lookup there name = table.lookup here name := by
  have skips (ids : List ScopeId) :
      ((ids.filter (· ≠ extra)).map spaced.symbols).findSome? (meaning · name) =
        (ids.map spaced.symbols).findSome? (meaning · name) := by
    induction ids with
    | nil => rfl
    | cons id ids inductionHypothesis =>
        by_cases same : id = extra
        · subst same
          rw [List.filter_cons_of_neg (by simp), inductionHypothesis, List.map_cons,
            tables.extraSymbols, List.findSome?_cons]
          rfl
        · rw [List.filter_cons_of_pos (by simpa using same), List.map_cons, List.map_cons,
            List.findSome?_cons, List.findSome?_cons, inductionHypothesis]
  rw [lookup_eq_findSome, lookup_eq_findSome, ← skips, outward, List.map_map]
  exact congrArg (List.findSome? _) (List.map_congr_left fun id _ => tables.symbols id)

theorem enter (tables : table.Spaced extra spaced) (descending : table.Descending)
    (spacedDescending : spaced.Descending) (inside : here < table.size)
    (spacedInside : there < spaced.size)
    (outward : (spaced.path there).filter (· ≠ extra) = (table.path here).map (past extra))
    (kind : ScopeKind) : (table.enter here kind).Spaced extra (spaced.enter there kind) where
  inside := by
    rw [size_enter]
    exact Nat.le_succ_of_le tables.inside
  size := by rw [size_enter, size_enter, tables.size]
  kind id := by
    rw [kind_enter inside, kind_enter spacedInside, ← tables.past_size]
    simp only [past_inj, tables.kind]
  symbols id := by rw [symbols_enter inside, symbols_enter spacedInside, tables.symbols]
  extraKind := by
    have other : extra ≠ spaced.size := by
      rw [tables.size]
      exact Nat.ne_of_lt (Nat.lt_succ_of_le tables.inside)
    rw [kind_enter spacedInside, if_neg other, tables.extraKind]
  extraSymbols := by rw [symbols_enter spacedInside, tables.extraSymbols]
  path id known := by
    rw [size_enter] at known
    obtain old | rfl := Nat.lt_succ_iff_lt_or_eq.mp known
    · rw [descending.path_enter inside kind old,
        spacedDescending.path_enter spacedInside kind (tables.past_lt old), tables.path id old]
    · rw [tables.past_size, path_eq_cons_around, path_eq_cons_around,
        descending.around_entered inside, spacedDescending.around_entered spacedInside,
        ← path_eq_cons_around, ← path_eq_cons_around, List.map_cons, ← outward,
        tables.past_size, List.filter_cons_of_pos]
      exact decide_eq_true (tables.past_size ▸ past_ne extra table.size)

theorem bound (tables : table.Spaced extra spaced) (inside : here < table.size) (symbol : Symbol) :
    (table.bound here symbol).Spaced extra (spaced.bound (past extra here) symbol) where
  inside := by
    rw [size_bound]
    exact tables.inside
  size := by rw [size_bound, size_bound, tables.size]
  kind id := by rw [kind_bound inside, kind_bound (tables.past_lt inside), tables.kind]
  symbols id := by
    rw [symbols_bound inside, symbols_bound (tables.past_lt inside),
      binds_eq_any, binds_eq_any]
    simp only [past_inj, tables.symbols]
  extraKind := by rw [kind_bound (tables.past_lt inside), tables.extraKind]
  extraSymbols := by
    rw [symbols_bound_of_ne (tables.past_lt inside) _ _ (past_ne extra here).symm,
      tables.extraSymbols]
  path id known := by
    rw [size_bound] at known
    rw [path_bound inside, path_bound (tables.past_lt inside), tables.path id known]

end ScopeTable.Spaced

namespace Session

/-- Around a scope that is left lies the rest of the way outward. -/
theorem path_leave {session : Session} (rooted : session.Rooted) {id : ScopeId}
    {ids : List ScopeId} (path : session.scopes.path session.current = id :: ids)
    (nonempty : ids ≠ []) : session.leave.scopes.path session.leave.current = ids := by
  rw [ScopeTable.path_eq_cons_around] at path
  have around := (List.cons.inj path).2
  rw [leave, ScopeTable.outer]
  cases found : session.scopes.parent? session.current with
  | none =>
      rw [ScopeTable.around_of_parent_eq_none found] at around
      exact absurd around.symm nonempty
  | some parent =>
      rw [rooted.descending.around_of_parent found] at around
      rw [Option.getD_some, ScopeTable.path_eq_cons_around, around]

/-- Where there is no way outward, nothing is left. -/
theorem leave_of_path {session : Session} (rooted : session.Rooted) {id : ScopeId}
    (path : session.scopes.path session.current = [id]) : session.leave = session := by
  rw [ScopeTable.path_eq_cons_around] at path
  have around := (List.cons.inj path).2
  rw [leave, ScopeTable.outer]
  cases found : session.scopes.parent? session.current with
  | none => rfl
  | some parent =>
      rw [rooted.descending.around_of_parent found] at around
      cases around

/-- Two sessions of which one has opened a block more. On its way outward that block comes behind
the scopes `opened` as long as it is open, and nowhere once it is left. -/
structure Spaced (extra : ScopeId) (between opened outer : List ScopeId)
    (session spaced : Session) : Prop where
  tables : session.scopes.Spaced extra spaced.scopes
  path : session.scopes.path session.current = opened ++ outer
  spacedPath : spaced.scopes.path spaced.current =
    opened.map (past extra) ++ (between ++ outer.map (past extra))
  between : ∀ id ∈ between, id = extra

namespace Spaced

variable {extra scope : ScopeId} {between opened outer : List ScopeId} {session spaced : Session}

theorem outward (sessions : session.Spaced extra between opened outer spaced) :
    (spaced.scopes.path spaced.current).filter (· ≠ extra) =
      (session.scopes.path session.current).map (past extra) := by
  have gone : between.filter (· ≠ extra) = [] :=
    List.filter_eq_nil_iff.mpr fun id member =>
      by simpa using sessions.between id member
  rw [sessions.spacedPath, sessions.path, List.filter_append, List.filter_append, filter_map_past,
    filter_map_past, gone, List.nil_append, List.map_append]

/-- Inside a scope that both have opened the current scopes correspond. -/
theorem current (sessions : session.Spaced extra between (scope :: opened) outer spaced) :
    spaced.current = past extra session.current := by
  have path := sessions.path
  have spacedPath := sessions.spacedPath
  rw [ScopeTable.path_eq_cons_around] at path spacedPath
  rw [(List.cons.inj path).1, (List.cons.inj spacedPath).1]

theorem enter (sessions : session.Spaced extra between opened outer spaced)
    (rooted : session.Rooted) (spacedRooted : spaced.Rooted) (kind : ScopeKind) :
    (session.enter kind).Spaced extra between (session.scopes.size :: opened) outer
      (spaced.enter kind) where
  tables := sessions.tables.enter rooted.descending spacedRooted.descending rooted.inside
    spacedRooted.inside sessions.outward kind
  path := by
    rw [Session.enter, ScopeTable.path_eq_cons_around,
      rooted.descending.around_entered rooted.inside, ← ScopeTable.path_eq_cons_around,
      sessions.path]
    rfl
  spacedPath := by
    rw [Session.enter, ScopeTable.path_eq_cons_around,
      spacedRooted.descending.around_entered spacedRooted.inside,
      ← ScopeTable.path_eq_cons_around, sessions.spacedPath, List.map_cons,
      sessions.tables.past_size]
    rfl
  between := sessions.between

theorem declare (sessions : session.Spaced extra between (scope :: opened) outer spaced)
    (rooted : session.Rooted) (symbol : Symbol) (location : Location) :
    (session.after (.declare symbol location)).Spaced extra between (scope :: opened) outer
      (spaced.after (.declare symbol location)) where
  tables := by
    rw [after, after, sessions.current]
    exact sessions.tables.bound rooted.inside symbol
  path := by
    rw [after, ScopeTable.path_bound rooted.inside, sessions.path]
  spacedPath := by
    have inside : spaced.current < spaced.scopes.size :=
      sessions.current ▸ sessions.tables.past_lt rooted.inside
    rw [after, ScopeTable.path_bound inside, sessions.spacedPath]
  between := sessions.between

theorem leave (sessions : session.Spaced extra between (scope :: opened) outer spaced)
    (rooted : session.Rooted) (spacedRooted : spaced.Rooted) (further : opened ++ outer ≠ []) :
    session.leave.Spaced extra between opened outer spaced.leave where
  tables := sessions.tables
  path := path_leave rooted sessions.path further
  spacedPath := path_leave spacedRooted sessions.spacedPath fun none =>
    further (by simp_all)
  between := sessions.between

/-- Right after one of two sessions has opened the block. -/
theorem of_enter (rooted : session.Rooted) :
    session.Spaced session.scopes.size [session.scopes.size] []
      (session.scopes.path session.current) (session.enter .block) where
  tables := .start rooted.descending rooted.inside
  path := rfl
  spacedPath := by
    have kept := ScopeTable.map_past_path rooted.descending rooted.inside
    rw [Session.enter, ScopeTable.path_eq_cons_around,
      rooted.descending.around_entered rooted.inside, ← ScopeTable.path_eq_cons_around, kept]
    rfl
  between _ member := List.mem_singleton.mp member

/-- The block alone is left. -/
theorem closed (sessions : session.Spaced extra [extra] [] outer spaced)
    (spacedRooted : spaced.Rooted) (around : outer ≠ []) :
    session.Spaced extra [] outer [] spaced.leave where
  tables := sessions.tables
  path := by rw [sessions.path, List.append_nil, List.nil_append]
  spacedPath := by
    have behind := path_leave spacedRooted sessions.spacedPath (by simpa using around)
    simpa using behind
  between := List.forall_mem_nil _

/-- Behind the block the way outward begins with a scope that is open in both. -/
theorem exists_opened (sessions : session.Spaced extra [] opened [] spaced) :
    ∃ scope others, opened = scope :: others := by
  have path := sessions.path
  rw [ScopeTable.path_eq_cons_around, List.append_nil] at path
  exact ⟨_, _, path.symm⟩

/-- So the current scopes correspond. -/
theorem current_behind (sessions : session.Spaced extra [] opened [] spaced) :
    spaced.current = past extra session.current := by
  obtain ⟨scope, others, rfl⟩ := sessions.exists_opened
  exact sessions.current

/-- What is found wrong is the same, if nothing is declared in the block itself. -/
theorem diagnose_eq (sessions : session.Spaced extra between opened outer spaced) {step : Step}
    (apart : step.symbol? ≠ none → spaced.current = past extra session.current) :
    spaced.diagnose step = session.diagnose step := by
  have declaredType : spaced.declaredType = session.declaredType := funext fun name => by
    rw [Session.declaredType, Session.declaredType, ScopeTable.declaredType,
      ScopeTable.declaredType, sessions.tables.lookup_eq sessions.outward]
  cases step with
  | declare symbol location =>
      have here := apart (Option.some_ne_none _)
      have same : spaced.scopes.binds spaced.current symbol.name =
          session.scopes.binds session.current symbol.name := by
        rw [ScopeTable.binds_eq_any, ScopeTable.binds_eq_any, here, sessions.tables.symbols]
      rw [diagnose, diagnose, same]
  | check expression => rw [diagnose, diagnose, declaredType]
  | initial name type value => rw [diagnose, diagnose, declaredType]
  | statement | enter | leave | openBlock | closeBlock => rfl

/-- A step inside a scope that both sessions have opened, or behind the block, keeps them alike. -/
theorem after_behind (sessions : session.Spaced extra [] opened [] spaced)
    (rooted : session.Rooted) (spacedRooted : spaced.Rooted) (step : Step) :
    (∃ further, (session.after step).Spaced extra [] further [] (spaced.after step)) ∧
      spaced.diagnose step = session.diagnose step := by
  refine ⟨?_, sessions.diagnose_eq fun _ => sessions.current_behind⟩
  obtain ⟨scope, opened, rfl⟩ := sessions.exists_opened
  cases step with
  | enter kind => exact ⟨_, sessions.enter rooted spacedRooted kind⟩
  | openBlock => exact ⟨_, sessions.enter rooted spacedRooted .block⟩
  | declare symbol location => exact ⟨_, sessions.declare rooted symbol location⟩
  | statement | check | initial => exact ⟨_, sessions⟩
  | leave | closeBlock =>
      obtain _ | ⟨outer, opened⟩ := opened
      · refine ⟨[scope], ?_⟩
        rw [Session.after, Session.after, leave_of_path rooted sessions.path,
          leave_of_path spacedRooted sessions.spacedPath]
        exact sessions
      · exact ⟨_, sessions.leave rooted spacedRooted (List.cons_ne_nil _ _)⟩

/-- Once the block is left the sessions stay alike, whatever they carry out. -/
theorem run_behind (sessions : session.Spaced extra [] opened [] spaced) (rooted : session.Rooted)
    (spacedRooted : spaced.Rooted) (script : List Step) :
    (∃ further, (session.run script).Spaced extra [] further [] (spaced.run script)) ∧
      spaced.diagnostics script = session.diagnostics script := by
  induction script generalizing session spaced opened with
  | nil => exact ⟨⟨_, sessions⟩, rfl⟩
  | cons step script inductionHypothesis =>
      obtain ⟨⟨_, next⟩, found⟩ := sessions.after_behind rooted spacedRooted step
      obtain ⟨ran, foundLater⟩ :=
        inductionHypothesis next (rooted.after step) (spacedRooted.after step)
      exact ⟨ran, by rw [diagnostics, diagnostics, found, foundLater]⟩

end Spaced
end Session

/-- A course inside the block that declares nothing in the block itself comes back to it. -/
theorem Course.spaced {openers : List Opener} {ahead rest : List Token} {script : List Step}
    (course : Course openers ahead script rest) {extra : ScopeId}
    {between opened outer : List ScopeId} {session spaced : Session}
    (sessions : session.Spaced extra between opened outer spaced) (rooted : session.Rooted)
    (spacedRooted : spaced.Rooted) (around : outer ≠ []) (matched : opened.length = openers.length)
    (silent : declaredAround openers.length script = []) :
    (session.run script).Spaced extra between [] outer (spaced.run script) ∧
      spaced.diagnostics script = session.diagnostics script := by
  -- `opened` are the scopes entered and not yet left, one for each of `openers`, so what is
  -- declared while there are openers left is declared in a scope of both sessions.
  induction course generalizing session spaced opened with
  | done =>
      obtain rfl := List.eq_nil_of_length_eq_zero matched
      exact ⟨sessions, rfl⟩
  | taken _ _ inductionHypothesis =>
      exact inductionHypothesis sessions rooted spacedRooted matched silent
  | @remark openers _ _ _ step remarks _ inductionHypothesis =>
      cases step with
      | declare symbol location =>
          obtain _ | ⟨scope, opened⟩ := opened
          · obtain rfl : openers = [] := List.eq_nil_of_length_eq_zero matched.symm
            cases silent
          obtain _ | ⟨opener, openers⟩ := openers
          · cases matched
          have found : spaced.diagnose (.declare symbol location) = _ :=
            sessions.diagnose_eq fun _ => sessions.current
          obtain ⟨ran, foundLater⟩ := inductionHypothesis (sessions.declare rooted symbol location)
            (rooted.after _) (spacedRooted.after _) matched silent
          exact ⟨ran, congrArg₂ (· ++ ·) found foundLater⟩
      | check | initial =>
          rw [declaredAround_cons_of_none rfl] at silent
          obtain ⟨ran, foundLater⟩ :=
            inductionHypothesis sessions rooted spacedRooted matched silent
          exact ⟨ran, congrArg₂ (· ++ ·) (sessions.diagnose_eq (absurd rfl)) foundLater⟩
      | statement | enter | leave | openBlock | closeBlock => exact remarks.elim
  | statement _ _ inductionHypothesis =>
      rw [declaredAround_cons_of_none rfl] at silent
      exact inductionHypothesis sessions rooted spacedRooted matched silent
  | enter kind _ inductionHypothesis =>
      rw [declaredAround_cons_of_none rfl] at silent
      exact inductionHypothesis (sessions.enter rooted spacedRooted kind) (rooted.enter kind)
        (spacedRooted.enter kind) (congrArg Nat.succ matched) silent
  | openBlock _ inductionHypothesis =>
      rw [declaredAround_cons_of_none rfl] at silent
      exact inductionHypothesis (sessions.enter rooted spacedRooted .block) (rooted.enter .block)
        (spacedRooted.enter .block) (congrArg Nat.succ matched) silent
  | leave _ inductionHypothesis | closeBlock _ inductionHypothesis =>
      obtain _ | ⟨scope, opened⟩ := opened
      · cases matched
      exact inductionHypothesis
        (sessions.leave rooted spacedRooted (List.append_ne_nil_of_right_ne_nil _ around))
        rooted.leave spacedRooted.leave (Nat.succ.inj matched) silent

end BraceLang
