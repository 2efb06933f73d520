import BraceLang.Proofs.Progress
import BraceLang.Proofs.Resumption
import BraceLang.Proofs.Scope.Pairing

/-!
# A log can be replayed

The scope events of a log are told apart from what they are about: each carries its
numbers along. A replay is shown the events and nothing else, keeps its own count of the
scopes with the one each is left for, and stops at the first event that does not fit. The
log of no analysis makes it stop. It comes to the scopes and the current scope of the
analysis, and, behind a failure, to the scope in which the failing statement was begun.
-/

namespace BraceLang

open Grammar Scripted

/-- What the events seen so far have told: for each scope the one it is left for, by number,
and the scope that is current. -/
structure Replay where
  outer : List ScopeId
  current : ScopeId
deriving DecidableEq, Repr

namespace Replay

/-- The root alone, which is left for itself. -/
def start : Replay := ⟨[0], 0⟩

/-- How many scopes there are. -/
def count (replay : Replay) : Nat := replay.outer.length

/-- The replay behind an event, if the event fits: a scope that is entered has the next number
and lies in the current one, and the one that is left is the current one. -/
def after? (replay : Replay) : Event → Option Replay
  | .entered scope parent _ =>
    if scope = replay.count ∧ parent = replay.current then
      some ⟨replay.outer ++ [parent], scope⟩
    else
      none
  | .exited scope parent =>
    if scope = replay.current ∧ replay.outer[scope]? = some parent then
      some ⟨replay.outer, parent⟩
    else
      none
  | _ => some replay

/-- The replay behind events, if all of them fit. -/
def run? (replay : Replay) (events : List Event) : Option Replay :=
  events.foldlM after? replay

/-- What is told by events whose scopes are those of a machine. -/
def ofMachine (machine : BraceMachine) : Replay := ⟨0 :: machine.parents, machine.top⟩

variable {replay : Replay} {events : List Event}

theorem run?_singleton (replay : Replay) (event : Event) :
    replay.run? [event] = replay.after? event :=
  bind_pure (replay.after? event)

theorem run?_append {others : List Event} :
    replay.run? (events ++ others) = (replay.run? events).bind (·.run? others) :=
  List.foldlM_append

/-- Events that concern no scope pass by. -/
theorem run?_aside (unentered : events.filterMap Event.entered? = [])
    (unexited : events.filterMap Event.exited? = []) : replay.run? events = some replay := by
  induction events with
  | nil => rfl
  | cons event events inductionHypothesis =>
      cases event with
      | entered | exited => simp [Event.entered?, Event.exited?] at unentered unexited
      | _ => exact inductionHypothesis unentered unexited

end Replay

namespace Session

variable {session : Session} {machine : BraceMachine}

theorem events_append (total : Nat) (session : Session) (front back : List Step) :
    session.events total (front ++ back) =
      session.events total front ++ (session.run front).events total back := by
  induction front generalizing session with
  | nil => rfl
  | cons step front inductionHypothesis =>
      rw [List.cons_append, events, events, inductionHypothesis, List.append_assoc]
      rfl

/-- A scope that is entered has the next number and lies in the current one. -/
theorem Follows.replays_entered (follows : session.Follows machine) (kind : ScopeKind) :
    (Replay.ofMachine machine).after? (.entered session.scopes.size session.current kind) =
      some (.ofMachine (machine.after .opened)) := by
  have fits : session.scopes.size = (Replay.ofMachine machine).count ∧
      session.current = (Replay.ofMachine machine).current := ⟨follows.size, follows.current⟩
  rw [Replay.after?, if_pos fits, fits.1, fits.2]
  rfl

/-- The scope on top of the stack is left for the one that the replay has kept for it. -/
theorem Follows.replays_exited (follows : session.Follows machine) :
    (Replay.ofMachine machine).after? (.exited session.current session.leave.current) =
      some (.ofMachine (machine.after .closed)) := by
  have kept : (Replay.ofMachine machine).outer[machine.top]? =
        some (machine.after .closed).top ∧
      (machine.after .closed).parents = machine.parents := by
    have chain := follows.chain
    obtain ⟨parents, top, below⟩ := machine
    cases chain with
    | root => exact ⟨rfl, rfl⟩
    | inner parent _ => exact ⟨parent, rfl⟩
  rw [Replay.after?, follows.current, follows.closed.current, if_pos ⟨rfl, kept.1⟩,
    Replay.ofMachine, Replay.ofMachine, kept.2]

/-- The events of a step fit, and tell what the step does to the scopes. -/
theorem Follows.replays_observe (follows : session.Follows machine) (total : Nat) (step : Step) :
    (Replay.ofMachine machine).run? (session.observe total step) =
      some (.ofMachine (step.brace?.elim machine machine.after)) := by
  cases step with
  | enter kind => exact (Replay.run?_singleton ..).trans (follows.replays_entered kind)
  | openBlock => exact (Replay.run?_singleton ..).trans (follows.replays_entered .block)
  | leave | closeBlock => exact (Replay.run?_singleton ..).trans follows.replays_exited
  | _ =>
      refine Replay.run?_aside ?_ ?_ <;> simp [observe, Event.entered?, Event.exited?]

/-- The events of a script fit, and tell what the script does to the scopes. -/
theorem Follows.replays_events (follows : session.Follows machine) (total : Nat)
    (script : List Step) :
    (Replay.ofMachine machine).run? (session.events total script) =
      some (.ofMachine ((moves script).foldl BraceMachine.after machine)) := by
  induction script generalizing session machine with
  | nil => rfl
  | cons step script inductionHypothesis =>
      rw [events, Replay.run?_append, follows.replays_observe, Option.bind_some,
        inductionHypothesis (follows.after step), moves_cons, List.foldl_append]
      cases step.brace? <;> rfl

/-- A replay of the events of a script comes to the scopes of the session behind it. -/
theorem replays (builtins : List Symbol) (total : Nat) (script : List Step) :
    ∃ replay, Replay.start.run? ((start builtins).events total script) = some replay ∧
      replay.count = ((start builtins).run script).scopes.size ∧
      replay.current = ((start builtins).run script).current := by
  have follows := Follows.start builtins
  have followed := follows.run script
  exact ⟨_, follows.replays_events total script, followed.size.symm, followed.current.symm⟩

end Session

section Diagnosed

/-- The diagnostic that an event reports. -/
def Event.diagnosed? : Event → Option Diagnostic
  | .diagnosed diagnostic => some diagnostic
  | _ => none

theorem diagnosed_events (total : Nat) (session : Session) (script : List Step) :
    (session.events total script).filterMap Event.diagnosed? = session.diagnostics script := by
  induction script generalizing session with
  | nil => rfl
  | cons step script inductionHypothesis =>
      rw [Session.events, List.filterMap_append, inductionHypothesis, Session.diagnostics]
      congr 1
      cases step with
      | declare | check | initial =>
          simp [Session.observe, List.filterMap_map, Event.diagnosed?, Function.comp_def]
      | _ => rfl

end Diagnosed

section Failing

variable {stop : Terminator} {ahead left : List Token} {front : List Step} {error : SyntaxError}

/-- The statement at which the reading of a program fails begins at the first of the tokens
`left`; `front` is the script of the statements before it. -/
structure FailsAt (stop : Terminator) (ahead : List Token) (front : List Step)
    (left : List Token) (error : SyntaxError) : Prop where
  taken : ∃ items, TakesItems ahead front items left
  suffix : left <:+ ahead
  failed : (statementWithin left.length stop left).result = .error error

/-- A program that cannot be read fails at one of its statements, and its script ends with
the script of that one. -/
theorem exists_failsAt (failed : (programItems stop ahead).result = .error error) :
    ∃ front left, FailsAt stop ahead front left error ∧
      (programItems stop ahead).script =
        front ++ (statementWithin left.length stop left).script := by
  obtain ⟨count, length⟩ : ∃ count, ahead.length = count := ⟨_, rfl⟩
  induction count using Nat.strong_induction_on generalizing ahead with
  | _ count inductionHypothesis =>
      obtain _ | ⟨first, tail⟩ := ahead
      · cases failed
      rcases outcome : statementWithin (tail.length + 1) stop (first :: tail) with
        ⟨script, failure | ⟨item, rest⟩⟩
      · have stopped : programItems stop (first :: tail) = ⟨script, .error failure⟩ := by
          have unrolled : programItems stop (first :: tail) =
              collect (topLevel (statementWithin (tail.length + 1))) (tail.length + 1) stop
                (first :: tail) := rfl
          have declined := topLevel_cons (statementWithin (tail.length + 1)) stop first tail
          rw [bind_error outcome] at declined
          rw [unrolled, collect, bind_error declined]
        rw [stopped] at failed
        refine ⟨[], first :: tail, ⟨⟨[], .nil _⟩, List.suffix_refl _, ?_⟩, ?_⟩
        · cases failed
          rw [List.length_cons, outcome]
        · rw [stopped, List.length_cons, outcome]
          rfl
      · have taken : Takes .statement (first :: tail) script item rest :=
          soundWithin_statementWithin _ outcome (List.cons_ne_nil _ _) (Nat.le_refl _)
        have shorter := taken.statement_length_lt
        have went := programItems_of_takes stop taken
        have further : (programItems stop rest).result = .error error := by
          rw [went] at failed
          cases found : (programItems stop rest).result with
          | error failure => simpa [Outcome.prepend, found, Except.map] using failed
          | ok => simp [Outcome.prepend, found, Except.map] at failed
        obtain ⟨front, left, ⟨⟨items, others⟩, suffix, failing⟩, scripts⟩ :=
          inductionHypothesis rest.length (length ▸ shorter) further rfl
        have advanced : Advances stop (first :: tail)
            (statementWithin (first :: tail).length stop (first :: tail)).result :=
          statement_advances (List.cons_ne_nil first tail) (Nat.le_refl _)
        rw [List.length_cons, outcome] at advanced
        refine ⟨script ++ front, left, ⟨⟨item :: items, .cons taken others⟩,
          suffix.trans advanced.1, failing⟩, ?_⟩
        rw [went, List.append_assoc, ← scripts]
        rfl

/-- Behind a statement that cannot be read, the scope is current in which it was begun. -/
theorem FailsAt.current_run (fails : FailsAt stop ahead front left error)
    (builtins : List Symbol) :
    ((Session.start builtins).run
        (front ++ (statementWithin left.length stop left).script)).current =
      ((Session.start builtins).run front).current := by
  rw [Session.run_append]
  have nonempty : left ≠ [] := by
    rintro rfl
    cases fails.failed
  have dispatched := (dispatchesInStep_statementWithin (Nat.le_refl _) (Nat.le_refl _) stop left
    nonempty (Nat.le_refl _)).2
  have failed := fails.failed
  rcases outcome : statementWithin left.length stop left with ⟨script, failure | ⟨item, rest⟩⟩
  · rw [outcome] at dispatched
    obtain ⟨⟨rest, course⟩, _⟩ := dispatched
    have follows := (Session.Follows.start builtins).run front
    have unwinds : ((Session.start builtins).run front).UnwindsTo 0 [] _ script :=
      course.unwindsTo follows rfl rfl 0
    exact unwinds.2.trans follows.current.symm
  · rw [outcome] at failed
    cases failed

/-- The script of a statement begins with the mark of its first token. -/
theorem FailsAt.exists_script (fails : FailsAt stop ahead front left error) :
    ∃ first tail script, left = first :: tail ∧
      (statementWithin left.length stop left).script =
        .statement first.toLexeme left.length :: script := by
  obtain _ | ⟨first, tail⟩ := left
  · cases fails.failed
  · exact ⟨first, tail, _, rfl, rfl⟩

end Failing

/-- The log of a finished analysis, as a replay of it has told: it reports the diagnostics in
their order, and its last event the figures of the result. -/
structure Replay.TellsOf (replay : Replay) (events : List Event) (analysis : Analysis) :
    Prop where
  scopes : replay.count = analysis.scopes.size
  current : replay.current = analysis.current
  diagnosed : (events.filter (·.message = "semantic error")).map Event.fields =
    analysis.diagnostics.map fun diagnostic =>
      [("error", diagnostic.message), ("location", diagnostic.location.text)]
  finished : events.getLast? = some (.finished analysis.program.statements.length
    analysis.scopes.size analysis.diagnostics.length)

/-- The log of an analysis that fails, as a replay of it has told: it reports no result, and
behind it the scope is current that was so where the statement that failed was begun. -/
structure Replay.TellsOfFailure (replay : Replay) (events : List Event) (builtins : List Symbol)
    (input : Input) (error : SyntaxError) : Prop where
  unfinished : ∀ event ∈ events, event.message ≠ "parse finished"
  begun : ∃ front before first tail opening closing,
    FailsAt input.stop input.ahead front (first :: tail) error ∧
      input.ahead = before ++ first :: tail ∧
      events = opening ++ .statement first.toLexeme before.length :: closing ∧
      (Replay.start.run? opening).map Replay.current = some replay.current ∧
      replay.current = ((Session.start builtins).run front).current

section Log

/-- What happens in the course of the script that the reading of a source text writes. -/
def scriptEvents (builtins : List Symbol) (source : String) : List Event :=
  (Session.start builtins).events (Input.ofTokens (tokenize source)).ahead.length
    (Reading.ofTokens (tokenize source)).script

variable {builtins : List Symbol} {source : String} {analysis : Analysis} {error : SyntaxError}

theorem log_of_ok (analyzed : analyze builtins source = .ok analysis) :
    log builtins source = .tokenized (tokenize source).length ::
      (scriptEvents builtins source ++ [analysis.finished]) := by
  change (Reading.ofTokens (tokenize source)).analysis builtins = _ at analyzed
  rw [log, analyzed]
  rfl

theorem log_of_error (failed : analyze builtins source = .error error) :
    log builtins source =
      .tokenized (tokenize source).length :: (scriptEvents builtins source ++ []) := by
  change (Reading.ofTokens (tokenize source)).analysis builtins = _ at failed
  rw [log, failed]
  rfl

/-- A log begins with the number of tokens, and behind what happens there is at most the
result. -/
theorem exists_log (builtins : List Symbol) (source : String) :
    ∃ close, log builtins source =
        .tokenized (tokenize source).length :: (scriptEvents builtins source ++ close) ∧
      (close = [] ∨ ∃ analysis : Analysis, close = [analysis.finished]) := by
  cases outcome : analyze builtins source with
  | ok analysis => exact ⟨_, log_of_ok outcome, .inr ⟨analysis, rfl⟩⟩
  | error error => exact ⟨_, log_of_error outcome, .inl rfl⟩

theorem replays_log (builtins : List Symbol) (source : String) :
    let final := (Session.start builtins).run (Reading.ofTokens (tokenize source)).script
    ∃ replay, Replay.start.run? (log builtins source) = some replay ∧
      replay.count = final.scopes.size ∧ replay.current = final.current := by
  intro final
  obtain ⟨close, logged, closes⟩ := exists_log builtins source
  obtain ⟨replay, replayed, told⟩ := Session.replays builtins
    (Input.ofTokens (tokenize source)).ahead.length (Reading.ofTokens (tokenize source)).script
  have passes : replay.run? close = some replay := by
    obtain rfl | ⟨analysis, rfl⟩ := closes <;> exact Replay.run?_aside rfl rfl
  refine ⟨replay, ?_, told⟩
  rw [logged, ← List.singleton_append, Replay.run?_append, Replay.run?_aside rfl rfl,
    Option.bind_some, Replay.run?_append, scriptEvents, replayed, Option.bind_some, passes]

/-- The statements of a log begin at ever later positions. -/
theorem dispatched_log (builtins : List Symbol) (source : String) :
    ((log builtins source).filterMap Event.dispatched?).Pairwise (·.2 < ·.2) := by
  obtain ⟨close, logged, closes⟩ := exists_log builtins source
  let input := Input.ofTokens (tokenize source)
  obtain ⟨rest, marks⟩ := (ranThrough_program input.stop input.ahead).marks
  have placed : ((scriptEvents builtins source).filterMap Event.dispatched?).Sublist
      (input.ahead.map (·.toLexeme)).zipIdx := marks.dispatched (Session.start builtins)
  have silent : close.filterMap Event.dispatched? = [] := by
    obtain rfl | ⟨analysis, rfl⟩ := closes <;> rfl
  rw [logged, List.filterMap_cons_none rfl, List.filterMap_append, silent, List.append_nil]
  refine List.Pairwise.sublist placed (List.pairwise_map.mp ?_)
  rw [List.zipIdx_map_snd]
  exact List.pairwise_lt_range'

/-- The events that report a diagnostic give its message and its place. -/
theorem fields_of_semantic_error (events : List Event) :
    (events.filter (·.message = "semantic error")).map Event.fields =
      (events.filterMap Event.diagnosed?).map fun diagnostic =>
        [("error", diagnostic.message), ("location", diagnostic.location.text)] := by
  induction events with
  | nil => rfl
  | cons event events inductionHypothesis =>
      cases event with
      | diagnosed diagnostic =>
          rw [List.filter_cons_of_pos (by rfl), List.map_cons, inductionHypothesis]
          rfl
      | _ => exact inductionHypothesis

theorem tellsOf_log {replay : Replay} (analyzed : analyze builtins source = .ok analysis)
    (scopes : replay.count = analysis.scopes.size) (current : replay.current = analysis.current)
    (diagnostics : analysis.diagnostics = (Session.start builtins).diagnostics
      (Reading.ofTokens (tokenize source)).script) :
    replay.TellsOf (log builtins source) analysis where
  scopes := scopes
  current := current
  diagnosed := by
    rw [fields_of_semantic_error, log_of_ok analyzed, List.filterMap_cons_none rfl,
      List.filterMap_append, scriptEvents, diagnosed_events, diagnostics]
    exact congrArg _ (List.append_nil _)
  finished := by
    rw [log_of_ok analyzed, ← List.cons_append, List.getLast?_concat]
    rfl

/-- An analysis fails where one of the statements of its program does. -/
theorem exists_failsAt_of_analyze (failed : analyze builtins source = .error error) :
    let input := Input.ofTokens (tokenize source)
    ∃ front left, FailsAt input.stop input.ahead front left error ∧
      (Reading.ofTokens (tokenize source)).script =
        front ++ (statementWithin left.length input.stop left).script := by
  intro input
  have stopped : (program input.stop input.ahead).result = .error error :=
    eq_error_of_map_eq_error (eq_error_of_map_eq_error failed)
  rw [program_eq] at stopped
  obtain ⟨front, left, fails, script⟩ := exists_failsAt (eq_error_of_map_eq_error stopped)
  refine ⟨front, left, fails, ?_⟩
  rw [← script]
  exact congrArg Outcome.script (program_eq input.stop input.ahead)

/-- No event in the course of a script reports a result. -/
theorem unfinished_events (total : Nat) (session : Session) (script : List Step) :
    ∀ event ∈ session.events total script, event.message ≠ "parse finished" := by
  induction script generalizing session with
  | nil => exact nofun
  | cons step script inductionHypothesis =>
      intro event member
      obtain observed | further := List.mem_append.mp member
      · cases step with
        | declare | check | initial =>
            obtain ⟨diagnostic, _, rfl⟩ := List.mem_map.mp observed
            simp [Event.message]
        | _ =>
            obtain rfl := List.mem_singleton.mp observed
            simp [Event.message]
      · exact inductionHypothesis _ event further

theorem tellsOfFailure_log {replay : Replay} (failed : analyze builtins source = .error error)
    (current : replay.current =
      ((Session.start builtins).run (Reading.ofTokens (tokenize source)).script).current) :
    replay.TellsOfFailure (log builtins source) builtins (Input.ofTokens (tokenize source))
      error where
  unfinished event member := by
    rw [log_of_error failed, List.append_nil] at member
    obtain rfl | further := List.mem_cons.mp member
    · simp [Event.message]
    · exact unfinished_events _ _ _ event further
  begun := by
    obtain ⟨front, left, fails, script⟩ := exists_failsAt_of_analyze failed
    obtain ⟨first, tail, back, rfl, marked⟩ := fails.exists_script
    obtain ⟨before, parted⟩ := fails.suffix
    have returned := fails.current_run builtins
    rw [← script, ← current] at returned
    obtain ⟨begun, replayed, _, same⟩ := Session.replays builtins
      (Input.ofTokens (tokenize source)).ahead.length front
    refine ⟨front, before, first, tail, .tokenized (tokenize source).length ::
      (Session.start builtins).events (Input.ofTokens (tokenize source)).ahead.length front,
      ((Session.start builtins).run front).events (Input.ofTokens (tokenize source)).ahead.length
        back, fails, parted.symm, ?_, ?_, returned⟩
    · have position : (Input.ofTokens (tokenize source)).ahead.length - (first :: tail).length =
          before.length := by
        rw [← parted, List.length_append, Nat.add_sub_cancel]
      rw [log_of_error failed, scriptEvents, script, Session.events_append, marked,
        List.append_nil, Session.events, Session.observe, position]
      rfl
    · rw [← List.singleton_append, Replay.run?_append, Replay.run?_aside rfl rfl,
        Option.bind_some, replayed, Option.map_some, same, returned]

end Log

/-- A replay of the log of an analysis does not stop at any event, whether the analysis fails
or not. It comes to the scopes and the current scope of a finished analysis, whose diagnostics
the log reports in order, and its figures at the end. Behind a failure it is in the scope in
which the statement that failed was begun, and no figures are reported. -/
theorem log_replays (builtins : List Symbol) (source : String) :
    let events := log builtins source
    ∃ replay, Replay.start.run? events = some replay ∧
      events.head? = some (.tokenized (tokenize source).length) ∧
      (events.filterMap Event.dispatched?).Pairwise (·.2 < ·.2) ∧
      match analyze builtins source with
      | .ok analysis => replay.TellsOf events analysis
      | .error error =>
        replay.TellsOfFailure events builtins (Input.ofTokens (tokenize source)) error := by
  intro events
  obtain ⟨replay, replayed, scopes, current⟩ := replays_log builtins source
  obtain ⟨close, logged, _⟩ := exists_log builtins source
  refine ⟨replay, replayed, congrArg List.head? logged, dispatched_log builtins source, ?_⟩
  split
  next analysis analyzed =>
    obtain ⟨script, node, rest, reads, rfl⟩ := analyzeTokens_eq_ok_iff_reads.mp analyzed
    have same : (Reading.ofTokens (tokenize source)).script = script :=
      congrArg Outcome.script reads
    rw [same] at scopes current
    exact tellsOf_log analyzed scopes current (by rw [same]; rfl)
  next error failed => exact tellsOfFailure_log failed current

/-- A loop that stands in a block fails inside a block of its body; the log leaves that one and
the loop, and ends in the block around them. -/
theorem log_replays_failing :
    let source := "\x7b while (x) \x7b \x7b 1"
    let events := log [] source
    ∃ replay error, Replay.start.run? events = some replay ∧ analyze [] source = .error error ∧
      replay = ⟨[0, 0, 1, 2], 1⟩ ∧ events.filterMap Event.exited? = [3, 2] ∧
      events.filterMap Event.dispatched? = [(.op "\x7b", 0), (.keyword "while", 1),
        (.op "\x7b", 6), (⟨.number, "1"⟩, 7)] ∧
      replay.TellsOfFailure events [] (Input.ofTokens (tokenize source)) error := by
  intro source events
  have scanned : tokenize source =
      [(Lexeme.op "\x7b").token ⟨1, 1⟩, (Lexeme.keyword "while").token ⟨1, 3⟩,
        (Lexeme.op "(").token ⟨1, 9⟩, (Lexeme.name "x").token ⟨1, 10⟩,
        (Lexeme.op ")").token ⟨1, 11⟩, (Lexeme.op "\x7b").token ⟨1, 13⟩,
        (Lexeme.op "\x7b").token ⟨1, 15⟩, ⟨⟨.number, "1"⟩, ⟨1, 17⟩⟩,
        ⟨.endOfInput, ⟨1, 18⟩⟩] := by decide
  have failed : analyze [] source =
      .error ⟨.missing .closeBrace (.after .whileLoop) .endOfInput, ⟨1, 18⟩⟩ := by
    rw [analyze, scanned]
    rfl
  have logged : log [] source = [.tokenized 9, .statement (.op "\x7b") 0, .entered 1 0 .block,
      .statement (.keyword "while") 1, .diagnosed (.undeclared "x" ⟨1, 10⟩), .entered 2 1 .block,
      .statement (.op "\x7b") 6, .entered 3 2 .block, .statement ⟨.number, "1"⟩ 7, .exited 3 2,
      .exited 2 1] := by
    rw [log_of_error failed, scriptEvents, scanned]
    decide
  obtain ⟨replay, replayed, _, _, tells⟩ := log_replays [] source
  rw [failed] at tells
  have ended : Replay.start.run? (log [] source) = some ⟨[0, 0, 1, 2], 1⟩ :=
    congrArg Replay.start.run? logged
  exact ⟨replay, _, replayed, failed, Option.some.inj (replayed.symm.trans ended),
    congrArg (List.filterMap Event.exited?) logged,
    congrArg (List.filterMap Event.dispatched?) logged, tells⟩

end BraceLang
