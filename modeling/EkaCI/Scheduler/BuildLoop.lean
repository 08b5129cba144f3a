import EkaCI.Scheduler.FailureReports

/-! The loop that supervises one build: it takes lines from two pipes, resets a deadline with every
line, and looks whether the process has ended. -/

namespace EkaCI

open Lib

inductive BuildPipe where
  | stdout
  | stderr
  deriving DecidableEq

/-- A byte of a build's output, with the time at which it came in. -/
structure Arrival where
  time : Nat
  byte : UInt8
  deriving DecidableEq

def newline : UInt8 := 10

/-- The line that `read_until` takes, which ends with its newline or with the output, and what is left. -/
def takeLine : List Arrival → List Arrival × List Arrival
  | [] => ([], [])
  | arrival :: rest =>
    if arrival.byte = newline then ([arrival], rest) else (arrival :: (takeLine rest).1, (takeLine rest).2)

theorem takeLine_append (arrivals : List Arrival) : (takeLine arrivals).1 ++ (takeLine arrivals).2 = arrivals := by
  induction arrivals with
  | nil => rfl
  | cons arrival rest ih =>
    rw [takeLine]
    split
    · rfl
    · rw [List.cons_append, ih]

def hasLine (arrivals : List Arrival) : Bool := arrivals.any fun arrival => arrival.byte = newline

/-- One pipe, and the read that goes on. A read that is dropped leaves what it has taken in `buf`,
and the next one does not count it. -/
structure PipeReader where
  unread : List Arrival
  buf : List Arrival
  polled : Nat
  closed : Bool

inductive BuildOutcome where
  | success
  | failure (exitCode : Option Int) (stderrTail : List Char)
  | timeout
  | absoluteTimeout
  deriving DecidableEq

inductive SupervisionPhase where
  | selecting
  | checking
  | draining (pipe : BuildPipe)
  | waiting
  | ended (outcome : BuildOutcome)
  deriving DecidableEq

def SupervisionPhase.outcome : SupervisionPhase → Option BuildOutcome
  | .ended outcome => some outcome
  | _ => none

def SupervisionPhase.Looping : SupervisionPhase → Prop
  | .selecting | .checking => True
  | _ => False

/-- The pipe has been read to its end. -/
def SupervisionPhase.Drained : SupervisionPhase → BuildPipe → Prop
  | .draining .stderr, .stdout | .waiting, _ => True
  | _, _ => False

structure BuildLimits where
  noOutputTimeoutSeconds : Nat
  maxDurationSeconds : Nat

/-- Instants count nanoseconds. -/
def seconds (count : Nat) : Nat := 1000000000 * count

/-- What has arrived is kept beside what the loop knows, to compare its log with. -/
structure BuildLoop where
  now : Nat
  readers : BuildPipe → PipeReader
  arrived : BuildPipe → List Arrival
  log : List (BuildPipe × Arrival)
  exit : Option (Option Int)
  timeout : Nat
  phase : SupervisionPhase

/-- Output comes in, the process ends, and the loop goes on. -/
inductive BuildEvent where
  | advance (time : Nat)
  | arrive (pipe : BuildPipe) (bytes : List UInt8)
  | close (pipe : BuildPipe)
  | exit (code : Option Int)
  /-- A read is polled, and its line is not there yet. -/
  | poll (pipe : BuildPipe) (count : Nat)
  | read (pipe : BuildPipe)
  | timeout
  | absoluteTimeout
  | tryWait
  | drain (pipe : BuildPipe)
  | wait

namespace BuildLoop

def start (limits : BuildLimits) : BuildLoop where
  now := 0
  readers _ := ⟨[], [], 0, false⟩
  arrived _ := []
  log := []
  exit := none
  timeout := seconds limits.noOutputTimeoutSeconds
  phase := .selecting

/-- What the log has of one pipe. -/
def written (loop : BuildLoop) (pipe : BuildPipe) : List Arrival :=
  loop.log.filterMap fun entry => if entry.1 = pipe then some entry.2 else none

def setReader (loop : BuildLoop) (pipe : BuildPipe) (reader : PipeReader) : BuildLoop :=
  { loop with readers := Function.update loop.readers pipe reader }

def receive (loop : BuildLoop) (pipe : BuildPipe) (chunk : List Arrival) : BuildLoop :=
  { loop.setReader pipe { loop.readers pipe with unread := (loop.readers pipe).unread ++ chunk } with
    arrived := Function.update loop.arrived pipe (loop.arrived pipe ++ chunk) }

def pollRead (loop : BuildLoop) (pipe : BuildPipe) (count : Nat) : BuildLoop :=
  let reader := loop.readers pipe
  loop.setReader pipe
    { reader with
      buf := reader.buf ++ reader.unread.take count
      unread := reader.unread.drop count
      polled := reader.polled + (reader.unread.take count).length }

/-- Everything read so far goes to the log. -/
def writeLine (loop : BuildLoop) (pipe : BuildPipe) (line rest : List Arrival) : BuildLoop :=
  { loop.setReader pipe { loop.readers pipe with buf := [], unread := rest } with
    log := loop.log ++ ((loop.readers pipe).buf ++ line).map (Prod.mk pipe) }

/-- At the end of the output a read that has taken nothing itself says so, whatever is in `buf`. -/
def readLine (limits : BuildLimits) (loop : BuildLoop) (pipe : BuildPipe) : BuildLoop :=
  let reader := loop.readers pipe
  let taken := takeLine reader.unread
  if reader.polled + taken.1.length = 0 then { loop with phase := .checking }
  else
    { loop.writeLine pipe taken.1 taken.2 with
      timeout := loop.now + seconds limits.noOutputTimeoutSeconds, phase := .checking }

/-- The next round begins two new reads. -/
def select (loop : BuildLoop) : BuildLoop :=
  { loop with readers := fun pipe => { loop.readers pipe with polled := 0 }, phase := .selecting }

def afterDrain : BuildPipe → SupervisionPhase
  | .stdout => .draining .stderr
  | .stderr => .waiting

def result (loop : BuildLoop) (code : Option Int) : BuildOutcome :=
  if code = some 0 then .success else .failure code (readFileTail (loop.log.map fun entry => entry.2.byte) tailBytes)

def step (limits : BuildLimits) (loop : BuildLoop) : BuildEvent → Option BuildLoop
  | .advance time => if loop.phase.outcome = none ∧ loop.now ≤ time then some { loop with now := time } else none
  | .arrive pipe bytes =>
    if loop.phase.outcome = none ∧ (loop.readers pipe).closed = false then
      some (loop.receive pipe (bytes.map (Arrival.mk loop.now)))
    else none
  | .close pipe =>
    if loop.phase.outcome = none then some (loop.setReader pipe { loop.readers pipe with closed := true }) else none
  | .exit code => if loop.phase.outcome = none ∧ loop.exit = none then some { loop with exit := some code } else none
  | .poll pipe count =>
    if loop.phase = .selecting ∧ hasLine ((loop.readers pipe).unread.take count) = false then
      some (loop.pollRead pipe count)
    else none
  | .read pipe =>
    if loop.phase = .selecting ∧ (hasLine (loop.readers pipe).unread ∨ (loop.readers pipe).closed) then
      some (loop.readLine limits pipe)
    else none
  | .timeout =>
    if loop.phase = .selecting ∧ loop.timeout ≤ loop.now then some { loop with phase := .ended .timeout } else none
  | .absoluteTimeout =>
    if loop.phase = .selecting ∧ seconds limits.maxDurationSeconds ≤ loop.now then
      some { loop with phase := .ended .absoluteTimeout }
    else none
  | .tryWait =>
    if loop.phase = .checking then
      some (if loop.exit.isSome then { loop with phase := .draining .stdout } else loop.select)
    else none
  | .drain pipe =>
    if loop.phase = .draining pipe ∧ (loop.readers pipe).closed = true then
      some { loop.writeLine pipe (loop.readers pipe).unread [] with phase := afterDrain pipe }
    else none
  | .wait =>
    if loop.phase = .waiting then loop.exit.map fun code => { loop with phase := .ended (loop.result code) } else none

/-- The log has what has arrived, the first deadline ends the loop after silence only and the second
one after the whole time, and the other outcomes are those of the process. -/
structure Faithful (limits : BuildLimits) (loop : BuildLoop) : Prop where
  complete : ∀ outcome, loop.phase = .ended outcome → ∀ pipe, loop.written pipe = loop.arrived pipe
  silent : loop.phase = .ended .timeout → ∀ pipe arrival, arrival ∈ loop.arrived pipe →
    arrival.time + seconds limits.noOutputTimeoutSeconds ≤ loop.now
  capped : loop.phase = .ended .absoluteTimeout → seconds limits.maxDurationSeconds ≤ loop.now
  succeeded : loop.phase = .ended .success → loop.exit = some (some 0)
  failed : ∀ code tail, loop.phase = .ended (.failure code tail) → loop.exit = some code ∧ code ≠ some 0

/-- No deadline ends the loop while a byte is unread or its line is unfinished. -/
def Calm (loop : BuildLoop) : BuildEvent → Prop
  | .timeout | .absoluteTimeout => ∀ pipe, (loop.readers pipe).buf ++ (loop.readers pipe).unread = []
  | _ => True

theorem written_writeLine_self (loop : BuildLoop) (pipe : BuildPipe) (line rest : List Arrival) :
    (loop.writeLine pipe line rest).written pipe = loop.written pipe ++ ((loop.readers pipe).buf ++ line) := by
  rw [written, writeLine, List.filterMap_append, List.filterMap_map]
  congr 1
  simp

theorem written_writeLine_of_ne (loop : BuildLoop) {pipe other : BuildPipe} (line rest : List Arrival)
    (different : other ≠ pipe) : (loop.writeLine pipe line rest).written other = loop.written other := by
  rw [written, writeLine, List.filterMap_append, List.filterMap_map]
  simp [different.symm, written]

theorem readers_setReader_self (loop : BuildLoop) (pipe : BuildPipe) (reader : PipeReader) :
    (loop.setReader pipe reader).readers pipe = reader :=
  Function.update_self ..

theorem readers_setReader_of_ne (loop : BuildLoop) {pipe other : BuildPipe} (reader : PipeReader) (different : other ≠ pipe) :
    (loop.setReader pipe reader).readers other = loop.readers other :=
  Function.update_of_ne different ..

theorem arrived_receive_self (loop : BuildLoop) (pipe : BuildPipe) (chunk : List Arrival) :
    (loop.receive pipe chunk).arrived pipe = loop.arrived pipe ++ chunk :=
  Function.update_self ..

theorem arrived_receive_of_ne (loop : BuildLoop) {pipe other : BuildPipe} (chunk : List Arrival) (different : other ≠ pipe) :
    (loop.receive pipe chunk).arrived other = loop.arrived other :=
  Function.update_of_ne different ..

theorem readers_receive_of_ne (loop : BuildLoop) {pipe other : BuildPipe} (chunk : List Arrival) (different : other ≠ pipe) :
    (loop.receive pipe chunk).readers other = loop.readers other :=
  Function.update_of_ne different ..

/-- Every byte of a pipe is in the log, in the buffer or unread, in the order of arrival. -/
def Kept (loop : BuildLoop) (pipe : BuildPipe) : Prop :=
  loop.written pipe ++ (loop.readers pipe).buf ++ (loop.readers pipe).unread = loop.arrived pipe

variable {limits : BuildLimits} {loop next : BuildLoop} {pipe other : BuildPipe}

theorem Kept.receive (kept : loop.Kept other) (pipe : BuildPipe) (chunk : List Arrival) :
    (loop.receive pipe chunk).Kept other := by
  by_cases same : other = pipe
  · subst same
    have reader : (loop.receive other chunk).readers other =
        { loop.readers other with unread := (loop.readers other).unread ++ chunk } := Function.update_self ..
    rw [Kept, arrived_receive_self, reader, ← kept, ← List.append_assoc]
    rfl
  · rw [Kept, arrived_receive_of_ne _ _ same, readers_receive_of_ne _ _ same]
    exact kept

theorem Kept.pollRead (kept : loop.Kept other) (pipe : BuildPipe) (count : Nat) : (loop.pollRead pipe count).Kept other := by
  by_cases same : other = pipe
  · subst same
    rw [Kept, BuildLoop.pollRead, readers_setReader_self]
    change loop.written other ++ ((loop.readers other).buf ++ (loop.readers other).unread.take count) ++
      (loop.readers other).unread.drop count = loop.arrived other
    rw [← List.append_assoc, List.append_assoc, List.take_append_drop]
    exact kept
  · rw [Kept, BuildLoop.pollRead, readers_setReader_of_ne _ _ same]
    exact kept

theorem Kept.writeLine (kept : loop.Kept other) {line rest : List Arrival}
    (whole : line ++ rest = (loop.readers pipe).unread) : (loop.writeLine pipe line rest).Kept other := by
  by_cases same : other = pipe
  · subst same
    have reader : (loop.writeLine other line rest).readers other = { loop.readers other with buf := [], unread := rest } :=
      Function.update_self ..
    rw [Kept, written_writeLine_self, reader, List.append_nil, List.append_assoc, List.append_assoc, whole, ← List.append_assoc]
    exact kept
  · have reader : (loop.writeLine pipe line rest).readers other = loop.readers other := Function.update_of_ne same ..
    rw [Kept, written_writeLine_of_ne _ _ _ same, reader]
    exact kept

theorem Kept.congr (kept : loop.Kept pipe) (log : next.log = loop.log) (readers : next.readers = loop.readers)
    (arrived : next.arrived = loop.arrived) : next.Kept pipe := by
  rw [Kept, written, log, readers, arrived]
  exact kept

/-- No byte has come in later than now, and none that is in the log later than the last reset. -/
structure Consistent (limits : BuildLimits) (loop : BuildLoop) : Prop where
  kept : ∀ pipe, loop.Kept pipe
  past : ∀ pipe arrival, arrival ∈ loop.arrived pipe → arrival.time ≤ loop.now
  reset : loop.phase.Looping → ∀ pipe arrival, arrival ∈ loop.written pipe →
    arrival.time + seconds limits.noOutputTimeoutSeconds ≤ loop.timeout
  drained : ∀ pipe, loop.phase.Drained pipe →
    (loop.readers pipe).closed = true ∧ (loop.readers pipe).buf ++ (loop.readers pipe).unread = []

theorem consistent_start (limits : BuildLimits) : (start limits).Consistent limits where
  kept _ := rfl
  past _ _ member := (List.not_mem_nil member).elim
  reset _ _ _ member := (List.not_mem_nil member).elim
  drained _ drained := drained.elim

theorem Kept.mem_arrived (kept : loop.Kept pipe) {arrival : Arrival} (member : arrival ∈ loop.written pipe) :
    arrival ∈ loop.arrived pipe := by
  rw [← kept, List.append_assoc]
  exact List.mem_append_left _ member

theorem Kept.written_eq_iff (kept : loop.Kept pipe) :
    loop.written pipe = loop.arrived pipe ↔ (loop.readers pipe).buf ++ (loop.readers pipe).unread = [] := by
  rw [← kept, List.append_assoc]
  constructor
  · intro all
    exact List.append_right_eq_self.mp all.symm
  · intro nothing
    rw [nothing, List.append_nil]

theorem Consistent.go (consistent : loop.Consistent limits) (log : next.log = loop.log) (readers : next.readers = loop.readers)
    (arrived : next.arrived = loop.arrived) (timeout : next.timeout = loop.timeout) (later : loop.now ≤ next.now)
    (looping : next.phase.Looping → loop.phase.Looping)
    (drained : ∀ pipe, next.phase.Drained pipe → loop.phase.Drained pipe) : next.Consistent limits where
  kept pipe := (consistent.kept pipe).congr log readers arrived
  past pipe arrival member := by
    rw [arrived] at member
    exact (consistent.past pipe arrival member).trans later
  reset loops pipe arrival member := by
    rw [written, log] at member
    rw [timeout]
    exact consistent.reset (looping loops) pipe arrival member
  drained pipe isDrained := by
    rw [readers]
    exact consistent.drained pipe (drained pipe isDrained)

theorem Consistent.receive (consistent : loop.Consistent limits) (openPipe : (loop.readers pipe).closed = false)
    (bytes : List UInt8) : (loop.receive pipe (bytes.map (Arrival.mk loop.now))).Consistent limits where
  kept other := (consistent.kept other).receive pipe _
  past other arrival member := by
    by_cases same : other = pipe
    · subst same
      rw [arrived_receive_self] at member
      rcases List.mem_append.mp member with before | new
      · exact consistent.past other arrival before
      · obtain ⟨byte, -, rfl⟩ := List.mem_map.mp new
        exact Nat.le_refl _
    · rw [arrived_receive_of_ne _ _ same] at member
      exact consistent.past other arrival member
  reset := consistent.reset
  drained other drained := by
    have known := consistent.drained other drained
    have different : other ≠ pipe := by
      rintro rfl
      rw [openPipe] at known
      cases known.1
    rw [readers_receive_of_ne _ _ different]
    exact known

theorem Kept.mem_writeLine (kept : loop.Kept pipe) {line rest : List Arrival} (whole : line ++ rest = (loop.readers pipe).unread)
    {arrival : Arrival} (member : arrival ∈ (loop.writeLine pipe line rest).written other) :
    arrival ∈ loop.written other ∨ other = pipe ∧ arrival ∈ loop.arrived pipe := by
  by_cases same : other = pipe
  · subst same
    rw [written_writeLine_self] at member
    refine (List.mem_append.mp member).imp_right fun new => ⟨rfl, ?_⟩
    rw [← kept, ← whole, List.append_assoc, ← List.append_assoc _ line]
    exact List.mem_append_right _ (List.mem_append_left _ new)
  · rw [written_writeLine_of_ne _ _ _ same] at member
    exact .inl member

theorem Consistent.readLine (consistent : loop.Consistent limits) (selects : loop.phase = .selecting) :
    (loop.readLine limits pipe).Consistent limits := by
  rw [BuildLoop.readLine]
  dsimp only
  split
  · exact consistent.go rfl rfl rfl rfl (Nat.le_refl _) (fun _ => by rw [selects]; trivial) fun _ drained => drained.elim
  · refine ⟨fun other => ?_, consistent.past, fun _ other arrival member => ?_, fun _ drained => drained.elim⟩
    · exact ((consistent.kept other).writeLine (takeLine_append _)).congr rfl rfl rfl
    · have came : arrival.time ≤ loop.now := by
        rcases (consistent.kept pipe).mem_writeLine (takeLine_append _) member with before | ⟨-, arrived⟩
        · exact consistent.past other arrival ((consistent.kept other).mem_arrived before)
        · exact consistent.past pipe arrival arrived
      exact Nat.add_le_add_right came _

theorem Consistent.pollRead (consistent : loop.Consistent limits) (selects : loop.phase = .selecting) (count : Nat) :
    (loop.pollRead pipe count).Consistent limits where
  kept other := (consistent.kept other).pollRead pipe count
  past := consistent.past
  reset := consistent.reset
  drained other drained := by
    change loop.phase.Drained other at drained
    rw [selects] at drained
    exact drained.elim

theorem Consistent.close (consistent : loop.Consistent limits) :
    (loop.setReader pipe { loop.readers pipe with closed := true }).Consistent limits := by
  have alike (other : BuildPipe) :
      ((loop.setReader pipe { loop.readers pipe with closed := true }).readers other).buf = (loop.readers other).buf ∧
      ((loop.setReader pipe { loop.readers pipe with closed := true }).readers other).unread = (loop.readers other).unread ∧
      ((loop.readers other).closed = true →
        ((loop.setReader pipe { loop.readers pipe with closed := true }).readers other).closed = true) := by
    by_cases same : other = pipe
    · subst same
      rw [readers_setReader_self]
      exact ⟨rfl, rfl, fun _ => rfl⟩
    · rw [readers_setReader_of_ne _ _ same]
      exact ⟨rfl, rfl, id⟩
  refine ⟨fun other => ?_, consistent.past, consistent.reset, fun other drained => ?_⟩
  · rw [Kept, (alike other).1, (alike other).2.1]
    exact consistent.kept other
  · have known := consistent.drained other drained
    rw [(alike other).1, (alike other).2.1]
    exact ⟨(alike other).2.2 known.1, known.2⟩

theorem Consistent.drain (consistent : loop.Consistent limits) (drains : loop.phase = .draining pipe)
    (closed : (loop.readers pipe).closed = true) :
    Consistent limits { loop.writeLine pipe (loop.readers pipe).unread [] with phase := afterDrain pipe } := by
  refine ⟨fun other => ?_, consistent.past, fun loops => ?_, fun other drained => ?_⟩
  · exact ((consistent.kept other).writeLine (List.append_nil _)).congr rfl rfl rfl
  · cases pipe <;> exact loops.elim
  · by_cases same : other = pipe
    · subst same
      have reader : (loop.writeLine other (loop.readers other).unread []).readers other =
        { loop.readers other with buf := [], unread := [] } := Function.update_self ..
      dsimp only
      rw [reader]
      exact ⟨closed, rfl⟩
    · have reader : (loop.writeLine pipe (loop.readers pipe).unread []).readers other = loop.readers other :=
        Function.update_of_ne same ..
      dsimp only
      rw [reader]
      refine consistent.drained other ?_
      rw [drains]
      cases pipe with
      | stdout =>
        cases other with
        | stdout => exact absurd rfl same
        | stderr => exact drained.elim
      | stderr =>
        cases other with
        | stdout => trivial
        | stderr => exact absurd rfl same

theorem Consistent.select (consistent : loop.Consistent limits) (checks : loop.phase = .checking) :
    loop.select.Consistent limits where
  kept pipe := consistent.kept pipe
  past := consistent.past
  reset _ := consistent.reset (by rw [checks]; trivial)
  drained _ drained := drained.elim

variable {event : BuildEvent}

theorem consistent_step (consistent : loop.Consistent limits) (taken : loop.step limits event = some next) :
    next.Consistent limits := by
  cases event with
  | advance time =>
    obtain ⟨⟨-, later⟩, same⟩ := Option.ite_none_right_eq_some.mp taken
    cases same
    exact consistent.go rfl rfl rfl rfl later id fun _ => id
  | arrive pipe bytes =>
    obtain ⟨⟨-, openPipe⟩, same⟩ := Option.ite_none_right_eq_some.mp taken
    cases same
    exact consistent.receive openPipe bytes
  | close pipe =>
    obtain ⟨-, same⟩ := Option.ite_none_right_eq_some.mp taken
    cases same
    exact consistent.close
  | exit code =>
    obtain ⟨-, same⟩ := Option.ite_none_right_eq_some.mp taken
    cases same
    exact consistent.go rfl rfl rfl rfl (Nat.le_refl _) id fun _ => id
  | poll pipe count =>
    obtain ⟨⟨selects, -⟩, same⟩ := Option.ite_none_right_eq_some.mp taken
    cases same
    exact consistent.pollRead selects count
  | read pipe =>
    obtain ⟨⟨selects, -⟩, same⟩ := Option.ite_none_right_eq_some.mp taken
    cases same
    exact consistent.readLine selects
  | timeout | absoluteTimeout =>
    obtain ⟨-, same⟩ := Option.ite_none_right_eq_some.mp taken
    cases same
    exact consistent.go rfl rfl rfl rfl (Nat.le_refl _) (fun loops => loops.elim) fun _ drained => drained.elim
  | tryWait =>
    obtain ⟨checks, same⟩ := Option.ite_none_right_eq_some.mp taken
    cases same
    split
    · exact consistent.go rfl rfl rfl rfl (Nat.le_refl _) (fun loops => loops.elim) fun _ drained => drained.elim
    · exact consistent.select checks
  | drain pipe =>
    obtain ⟨⟨drains, closed⟩, same⟩ := Option.ite_none_right_eq_some.mp taken
    cases same
    exact consistent.drain drains closed
  | wait =>
    obtain ⟨-, exited⟩ := Option.ite_none_right_eq_some.mp taken
    obtain ⟨code, -, same⟩ := Option.map_eq_some_iff.mp exited
    cases same
    exact consistent.go rfl rfl rfl rfl (Nat.le_refl _) (fun loops => loops.elim) fun _ drained => drained.elim

theorem faithful_of_outcome (goesOn : loop.phase.outcome = none) : loop.Faithful limits := by
  have not_ended {outcome : BuildOutcome} (ended : loop.phase = .ended outcome) : False := by
    rw [ended] at goesOn
    cases goesOn
  exact ⟨fun _ ended => (not_ended ended).elim, fun ended => (not_ended ended).elim, fun ended => (not_ended ended).elim,
    fun ended => (not_ended ended).elim, fun _ _ ended => (not_ended ended).elim⟩

theorem outcome_of_step (taken : loop.step limits event = some next) : loop.phase.outcome = none := by
  cases event <;> obtain ⟨condition, -⟩ := Option.ite_none_right_eq_some.mp taken
  case advance | arrive | exit => exact condition.1
  case close => exact condition
  case poll | read | timeout | absoluteTimeout | drain =>
    rw [condition.1]
    rfl
  case tryWait | wait =>
    rw [condition]
    rfl

theorem afterDrain_outcome (pipe : BuildPipe) : (afterDrain pipe).outcome = none := by cases pipe <;> rfl

theorem readLine_outcome (limits : BuildLimits) (loop : BuildLoop) (pipe : BuildPipe) :
    (loop.readLine limits pipe).phase.outcome = none := by
  rw [readLine]
  dsimp only
  split <;> rfl

theorem ended_cases (taken : loop.step limits event = some next) {outcome : BuildOutcome}
    (ended : next.phase = .ended outcome) :
    (event = .timeout ∧ loop.phase = .selecting ∧ loop.timeout ≤ loop.now ∧ next = { loop with phase := .ended .timeout }) ∨
    (event = .absoluteTimeout ∧ loop.phase = .selecting ∧ seconds limits.maxDurationSeconds ≤ loop.now ∧
      next = { loop with phase := .ended .absoluteTimeout }) ∨
    event = .wait ∧ loop.phase = .waiting ∧
      ∃ code, loop.exit = some code ∧ next = { loop with phase := .ended (loop.result code) } := by
  have goesOn := outcome_of_step taken
  have absurdly {phase : SupervisionPhase} (same : next.phase = phase) (none : phase.outcome = none) : False := by
    rw [← same, ended] at none
    cases none
  cases event with
  | advance | arrive | close | exit | poll =>
    obtain ⟨-, same⟩ := Option.ite_none_right_eq_some.mp taken
    cases same
    exact (absurdly rfl goesOn).elim
  | read pipe =>
    obtain ⟨-, same⟩ := Option.ite_none_right_eq_some.mp taken
    cases same
    exact (absurdly rfl (readLine_outcome limits loop pipe)).elim
  | tryWait =>
    obtain ⟨-, same⟩ := Option.ite_none_right_eq_some.mp taken
    cases same
    split at ended <;> cases ended
  | drain pipe =>
    obtain ⟨-, same⟩ := Option.ite_none_right_eq_some.mp taken
    cases same
    exact (absurdly rfl (afterDrain_outcome pipe)).elim
  | timeout =>
    obtain ⟨condition, same⟩ := Option.ite_none_right_eq_some.mp taken
    exact .inl ⟨rfl, condition.1, condition.2, (Option.some.inj same).symm⟩
  | absoluteTimeout =>
    obtain ⟨condition, same⟩ := Option.ite_none_right_eq_some.mp taken
    exact .inr (.inl ⟨rfl, condition.1, condition.2, (Option.some.inj same).symm⟩)
  | wait =>
    obtain ⟨waits, exited⟩ := Option.ite_none_right_eq_some.mp taken
    obtain ⟨code, exit, same⟩ := Option.map_eq_some_iff.mp exited
    exact .inr (.inr ⟨rfl, waits, code, exit, same.symm⟩)

theorem faithful_step (consistent : loop.Consistent limits) (calm : loop.Calm event)
    (taken : loop.step limits event = some next) : next.Faithful limits := by
  cases outcome : next.phase.outcome with
  | none => exact faithful_of_outcome outcome
  | some given =>
    have ended : next.phase = .ended given := by
      cases phase : next.phase with
      | ended => rw [phase] at outcome; rw [Option.some.inj outcome]
      | _ => rw [phase] at outcome; cases outcome
    rcases ended_cases taken ended with
      ⟨rfl, selects, due, rfl⟩ | ⟨rfl, selects, due, rfl⟩ | ⟨rfl, waits, code, exit, rfl⟩
    · have whole (pipe : BuildPipe) : loop.written pipe = loop.arrived pipe :=
        (consistent.kept pipe).written_eq_iff.mpr (calm pipe)
      refine ⟨fun _ _ pipe => whole pipe, fun _ pipe arrival arrived => ?_, nofun, nofun, nofun⟩
      have member : arrival ∈ loop.written pipe := by
        rw [whole pipe]
        exact arrived
      exact (consistent.reset (by rw [selects]; trivial) pipe arrival member).trans due
    · have whole (pipe : BuildPipe) : loop.written pipe = loop.arrived pipe :=
        (consistent.kept pipe).written_eq_iff.mpr (calm pipe)
      exact ⟨fun _ _ pipe => whole pipe, nofun, fun _ => due, nofun, nofun⟩
    · have whole (pipe : BuildPipe) : loop.written pipe = loop.arrived pipe :=
        (consistent.kept pipe).written_eq_iff.mpr (consistent.drained pipe (by rw [waits]; trivial)).2
      have apart : loop.result code ≠ .timeout ∧ loop.result code ≠ .absoluteTimeout := by
        rw [result]
        split <;> exact ⟨nofun, nofun⟩
      refine ⟨fun _ _ pipe => whole pipe, fun same => ?_, fun same => ?_, fun same => ?_, fun given tail same => ?_⟩
      · exact (apart.1 (SupervisionPhase.ended.inj same)).elim
      · exact (apart.2 (SupervisionPhase.ended.inj same)).elim
      · have result := SupervisionPhase.ended.inj same
        rw [BuildLoop.result] at result
        split at result
        next zero => rw [← zero]; exact exit
        next => cases result
      · have result := SupervisionPhase.ended.inj same
        rw [BuildLoop.result] at result
        split at result
        next => cases result
        next other =>
          cases result
          exact ⟨exit, other⟩

theorem calm_of_faithful (consistent : loop.Consistent limits) (taken : loop.step limits event = some next)
    (faithful : next.Faithful limits) : loop.Calm event := by
  cases event with
  | timeout | absoluteTimeout =>
    intro pipe
    obtain ⟨-, same⟩ := Option.ite_none_right_eq_some.mp taken
    cases same
    exact (consistent.kept pipe).written_eq_iff.mp (faithful.complete _ rfl pipe)
  | _ => trivial

theorem run_consistent {good : BuildLoop → BuildEvent → Prop} {events : List BuildEvent}
    (run : Run (step limits) good (start limits) events loop) :
    loop.Consistent limits :=
  run.invariant (consistent_start limits) fun _ _ _ consistent _ taken => consistent_step consistent taken

/-- A run supervises its build faithfully exactly if no deadline ends it with output left over. -/
theorem faithful_iff {events : List BuildEvent} (run : AnyRun (step limits) (start limits) events loop) :
    loop.Faithful limits ↔ Run (step limits) Calm (start limits) events loop := by
  constructor
  · intro faithful
    induction run with
    | start => exact .start
    | snoc run _ taken ih =>
      have earlier := ih (faithful_of_outcome (outcome_of_step taken))
      exact .snoc earlier (calm_of_faithful (run_consistent run) taken faithful) taken
  · intro calm
    cases calm with
    | start => exact faithful_of_outcome rfl
    | snoc before meets taken => exact faithful_step (run_consistent before) meets taken

/-- Nine seconds of silence, a byte without a newline, and a second later the deadline. -/
def prompting : List BuildEvent :=
  [.advance (seconds 9), .arrive .stdout [62], .poll .stdout 1, .advance (seconds 10), .timeout]

theorem prompting_not_faithful : ¬ ∀ (limits : BuildLimits) (events : List BuildEvent) (loop : BuildLoop),
    AnyRun (step limits) (start limits) events loop → loop.Faithful limits := by
  intro always
  have passed : ((exec (step ⟨10, 60⟩) (start ⟨10, 60⟩) prompting).map fun loop =>
      decide (loop.phase = .ended .timeout ∧ loop.written .stdout ≠ loop.arrived .stdout)) = some true := by decide
  obtain ⟨final, run, ended, different⟩ := exists_run_of_exec passed
  exact different ((always _ _ final run).complete _ ended .stdout)

/-- A build that writes one line and succeeds. -/
def succeeding : List BuildEvent :=
  [.arrive .stderr [111, 107, 10], .read .stderr, .tryWait, .close .stdout, .close .stderr, .exit (some 0), .read .stdout,
    .tryWait, .drain .stdout, .drain .stderr, .wait]

theorem faithful_succeeding : ∃ loop, AnyRun (step ⟨10, 60⟩) (start ⟨10, 60⟩) succeeding loop ∧
    loop.phase = .ended .success ∧
      (loop.Faithful ⟨10, 60⟩ ↔ Run (step ⟨10, 60⟩) Calm (start ⟨10, 60⟩) succeeding loop) := by
  refine exists_run_of_exec_imp (p := fun loop => loop.phase = .ended .success) (by decide) fun loop run ended => ?_
  exact ⟨ended, faithful_iff run⟩

end BuildLoop

end EkaCI
