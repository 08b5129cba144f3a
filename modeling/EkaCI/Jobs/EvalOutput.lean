import EkaCI.Jobs.Evaluation
import Mathlib.Algebra.Group.Nat.Defs

/-! What the evaluation service reads of the output of nix-eval-jobs, line by line, up to a
cap on the entries, on the bytes and on the length of a line. -/

namespace EkaCI

open Lib

/-- The bytes that can be read, and whether an error follows them or the end. -/
structure ByteStream where
  bytes : List UInt8
  failed : Bool

inductive NixEvalItem where
  | error (err : NixEvalError)
  | drv (drv : NixEvalDrv)

inductive Truncation where
  | none
  | maxEntries
  | maxBytes
  | maxLineBytes

structure ConsumeOutcome where
  jobs : List NixEvalDrv := []
  errors : List NixEvalError := []
  bytesRead : Nat := 0
  truncation : Truncation := .none

def nixEvalJobsMaxEntries : Nat := 25000

def nixEvalJobsMaxStdoutBytes : UInt64 := 128 * 1024 * 1024

def nixEvalJobsMaxLineBytes : UInt64 := 1024 * 1024

def lineFeed : UInt8 := 10

def carriageReturn : UInt8 := 13

/-- The largest number of 64 bits. -/
def maxWord : Nat := 2 ^ 64 - 1

def saturatingAdd (first second : Nat) : Nat := min (first + second) maxWord

def trimLineEnd (buf : List UInt8) : List UInt8 :=
  if buf.getLast? = some lineFeed then
    if buf.dropLast.getLast? = some carriageReturn then buf.dropLast.dropLast else buf.dropLast
  else buf

/-- One `read_until`. An error comes to light when more is asked for than there is. -/
def ByteStream.readLine (limit : Nat) (stream : ByteStream) : Option (List UInt8 × ByteStream) :=
  let read := readUntil lineFeed limit stream.bytes
  if stream.failed = true ∧ lineFeed ∉ read.1 ∧ read.1.length < limit then none
  else some (read.1, { stream with bytes := read.2 })

theorem ByteStream.readLine_eq_some {limit : Nat} {stream rest : ByteStream} {buf : List UInt8}
    (read : stream.readLine limit = some (buf, rest)) : buf ++ rest.bytes = stream.bytes := by
  rw [readLine] at read
  split at read
  · cases read
  · cases read
    obtain ⟨body, -, -, ended, split⟩ | ⟨-, split, -⟩ := @readUntil_cases _ _ lineFeed limit stream.bytes
    · rw [ended]
      simpa using split.symm
    · exact split.symm

def ConsumeOutcome.push (outcome : ConsumeOutcome) : NixEvalItem → ConsumeOutcome
  | .drv drv => { outcome with jobs := outcome.jobs ++ [drv] }
  | .error err => { outcome with errors := outcome.errors ++ [err] }

def ConsumeOutcome.entries (outcome : ConsumeOutcome) : Nat := outcome.jobs.length + outcome.errors.length

section Process

-- The parser is the one of `serde_json`.
variable (fromJson : String → Option NixEvalItem) (maxEntries : Nat) (maxBytes maxLineBytes : UInt64)

/-- The entry of a line. A line that is empty, not UTF-8 or malformed has none. -/
def parseEvalLine (buf : List UInt8) : Option NixEvalItem :=
  let line := trimLineEnd buf
  if line = [] then none else (String.fromUTF8? ⟨line.toArray⟩).bind fromJson

/-- The addition wraps around. -/
def perLineTake : Nat := (maxLineBytes + 1).toNat

/-- The loop over the lines, with what has been collected so far. -/
def readEvalOutput (stream : ByteStream) (outcome : ConsumeOutcome) : ConsumeOutcome :=
  match _read : stream.readLine (perLineTake maxLineBytes) with
  | none => outcome
  | some ([], _) => outcome
  | some (byte :: buf, rest) =>
    let outcome := { outcome with bytesRead := saturatingAdd outcome.bytesRead (byte :: buf).length }
    if maxBytes.toNat < outcome.bytesRead then { outcome with truncation := .maxBytes }
    else if (byte :: buf).getLast? ≠ some lineFeed ∧ maxLineBytes.toNat < (byte :: buf).length then
      { outcome with truncation := .maxLineBytes }
    else
      match parseEvalLine fromJson (byte :: buf) with
      | none => readEvalOutput rest outcome
      | some item =>
        let outcome := outcome.push item
        if maxEntries ≤ outcome.entries then { outcome with truncation := .maxEntries }
        else readEvalOutput rest outcome
termination_by stream.bytes.length
decreasing_by
  all_goals
    rw [← ByteStream.readLine_eq_some _read, List.length_append, List.length_cons]
    omega

def processNixEvalOutput (stream : ByteStream) : ConsumeOutcome :=
  readEvalOutput fromJson maxEntries maxBytes maxLineBytes stream {}

/-- The entries of a text, line by line. -/
def evalItems (bytes : List UInt8) : List NixEvalItem := (lines lineFeed bytes).filterMap (parseEvalLine fromJson)

def NixEvalItem.drv? : NixEvalItem → Option NixEvalDrv
  | .drv job => some job
  | .error _ => none

def NixEvalItem.error? : NixEvalItem → Option NixEvalError
  | .drv _ => none
  | .error err => some err

/-- What is returned once the text has been consumed. -/
def consumed (bytes : List UInt8) (bytesRead : Nat) (truncation : Truncation) : ConsumeOutcome where
  jobs := (evalItems fromJson bytes).filterMap NixEvalItem.drv?
  errors := (evalItems fromJson bytes).filterMap NixEvalItem.error?
  bytesRead := bytesRead
  truncation := truncation

/-- No line of the text is longer than the cap. -/
def LinesFit (bytes : List UInt8) : Prop :=
  ∀ line ∈ lines lineFeed bytes, (content lineFeed line).length ≤ maxLineBytes.toNat

/-- A text that is read without coming upon a cap. -/
structure Passes (bytes : List UInt8) : Prop where
  size : min bytes.length maxWord ≤ maxBytes.toNat
  fit : LinesFit maxLineBytes bytes
  few : evalItems fromJson bytes = [] ∨ (evalItems fromJson bytes).length < maxEntries

/-- How reading a stream ends. -/
inductive Ends (stream : ByteStream) : ConsumeOutcome → Prop
  | finished {front tail : List UInt8} (split : stream.bytes = front ++ tail)
      (passes : Passes fromJson maxEntries maxBytes maxLineBytes front) (short : LinesFit maxLineBytes tail)
      (last : tail = [] ∧ stream.failed = false ∨ lineFeed ∉ tail ∧ Whole lineFeed front ∧ stream.failed = true) :
      Ends stream (consumed fromJson front (min front.length maxWord) .none)
  | overBytes {front line rest : List UInt8} (split : stream.bytes = front ++ (line ++ rest))
      (passes : Passes fromJson maxEntries maxBytes maxLineBytes front) (whole : Whole lineFeed front)
      (inside : lineFeed ∉ line.dropLast) (limited : line.length ≤ maxLineBytes.toNat + 1)
      (counted : stream.failed = false ∨ Whole lineFeed line ∨ lineFeed ∉ line ∧ maxLineBytes.toNat < line.length)
      (above : maxBytes.toNat < min (front.length + line.length) maxWord) :
      Ends stream (consumed fromJson front (min (front.length + line.length) maxWord) .maxBytes)
  | overLine {front line rest : List UInt8} (split : stream.bytes = front ++ (line ++ rest))
      (passes : Passes fromJson maxEntries maxBytes maxLineBytes front) (whole : Whole lineFeed front)
      (inside : lineFeed ∉ line) (limited : line.length ≤ maxLineBytes.toNat + 1)
      (long : maxLineBytes.toNat < line.length) :
      Ends stream (consumed fromJson front (min (front.length + line.length) maxWord) .maxLineBytes)
  | full {front line rest : List UInt8} {item : NixEvalItem} (split : stream.bytes = front ++ (line ++ rest))
      (passes : Passes fromJson maxEntries maxBytes maxLineBytes front)
      (within : min (front ++ line).length maxWord ≤ maxBytes.toNat) (fits : LinesFit maxLineBytes (front ++ line))
      (whole : Whole lineFeed (front ++ line) ∨ stream.failed = false ∧ rest = [])
      (items : evalItems fromJson (front ++ line) = evalItems fromJson front ++ [item])
      (many : maxEntries ≤ (evalItems fromJson (front ++ line)).length) :
      Ends stream (consumed fromJson (front ++ line) (min (front ++ line).length maxWord) .maxEntries)

variable {fromJson maxEntries maxBytes maxLineBytes}
variable {front line rest : List UInt8} {stream : ByteStream} {bytesRead : Nat} {item : NixEvalItem}

theorem evalItems_append (whole : Whole lineFeed front) (rest : List UInt8) :
    evalItems fromJson (front ++ rest) = evalItems fromJson front ++ evalItems fromJson rest := by
  rw [evalItems, lines_append whole, List.filterMap_append]
  rfl

theorem linesFit_append (whole : Whole lineFeed front) (rest : List UInt8) :
    LinesFit maxLineBytes (front ++ rest) ↔ LinesFit maxLineBytes front ∧ LinesFit maxLineBytes rest := by
  rw [LinesFit, lines_append whole, List.forall_mem_append]
  rfl

theorem linesFit_ended {body : List UInt8} (inside : lineFeed ∉ body) :
    LinesFit maxLineBytes (body ++ [lineFeed]) ↔ body.length ≤ maxLineBytes.toNat := by
  rw [LinesFit, lines_ended inside, List.forall_mem_cons, content_ended]
  simp [lines]

theorem linesFit_open (inside : lineFeed ∉ line) : LinesFit maxLineBytes line ↔ line.length ≤ maxLineBytes.toNat := by
  by_cases empty : line = []
  · simp [empty, LinesFit, lines]
  · rw [LinesFit, lines_open inside empty, List.forall_mem_singleton, content_open inside]

theorem entries_consumed (bytes : List UInt8) (bytesRead : Nat) (truncation : Truncation) :
    (consumed fromJson bytes bytesRead truncation).entries = (evalItems fromJson bytes).length := by
  rw [ConsumeOutcome.entries, consumed]
  induction evalItems fromJson bytes with
  | nil => rfl
  | cons item rest ih =>
    cases item <;>
      simp only [List.filterMap_cons, NixEvalItem.drv?, NixEvalItem.error?, List.length_cons, ← ih] <;> omega

theorem evalItems_line (single : lines lineFeed line = [line]) :
    evalItems fromJson line = (parseEvalLine fromJson line).toList := by
  rw [evalItems, single, List.filterMap_cons, List.filterMap_nil]
  cases parseEvalLine fromJson line <;> rfl

theorem ByteStream.readLine_cases (limit : Nat) (stream : ByteStream) :
    (∃ body rest, lineFeed ∉ body ∧ body.length < limit ∧ stream.bytes = body ++ lineFeed :: rest ∧
      stream.readLine limit = some (body ++ [lineFeed], ⟨rest, stream.failed⟩)) ∨
    (∃ line rest, lineFeed ∉ line ∧ line.length = limit ∧ stream.bytes = line ++ rest ∧
      stream.readLine limit = some (line, ⟨rest, stream.failed⟩)) ∨
    (lineFeed ∉ stream.bytes ∧ stream.bytes.length < limit ∧
      stream.readLine limit = if stream.failed = true then none else some (stream.bytes, ⟨[], stream.failed⟩)) := by
  rw [readLine]
  obtain ⟨body, inside, short, read, split⟩ | ⟨inside, split, full | ⟨short, none⟩⟩ :=
    @readUntil_cases _ _ lineFeed limit stream.bytes
  · refine .inl ⟨body, _, inside, short, split, ?_⟩
    rw [if_neg fun failed => failed.2.1 (by simp [read]), read]
  · refine .inr (.inl ⟨_, _, inside, full, split, ?_⟩)
    rw [if_neg fun failed => (Nat.ne_of_lt failed.2.2) full]
  · have all : (readUntil lineFeed limit stream.bytes).1 = stream.bytes := by
      rw [none, List.append_nil] at split
      exact split.symm
    rw [all] at inside short
    refine .inr (.inr ⟨inside, short, ?_⟩)
    rw [all, none]
    simp [inside, short]

theorem readEvalOutput_of_read {rest : ByteStream} {buf : List UInt8} {outcome : ConsumeOutcome} (some : buf ≠ [])
    (read : stream.readLine (perLineTake maxLineBytes) = .some (buf, rest)) :
    readEvalOutput fromJson maxEntries maxBytes maxLineBytes stream outcome =
      let outcome := { outcome with bytesRead := saturatingAdd outcome.bytesRead buf.length }
      if maxBytes.toNat < outcome.bytesRead then { outcome with truncation := .maxBytes }
      else if buf.getLast? ≠ .some lineFeed ∧ maxLineBytes.toNat < buf.length then
        { outcome with truncation := .maxLineBytes }
      else
        match parseEvalLine fromJson buf with
        | none => readEvalOutput fromJson maxEntries maxBytes maxLineBytes rest outcome
        | .some item =>
          let outcome := outcome.push item
          if maxEntries ≤ outcome.entries then { outcome with truncation := .maxEntries }
          else readEvalOutput fromJson maxEntries maxBytes maxLineBytes rest outcome := by
  cases buf with
  | nil => exact absurd rfl some
  | cons byte buf =>
    rw [readEvalOutput]
    split
    next none => rw [read] at none; cases none
    next ended => rw [read] at ended; cases ended
    next found =>
      rw [read] at found
      cases found
      rfl

theorem readEvalOutput_of_nil (outcome : ConsumeOutcome) :
    readEvalOutput fromJson maxEntries maxBytes maxLineBytes ⟨[], false⟩ outcome = outcome := by
  have read : ByteStream.readLine (perLineTake maxLineBytes) ⟨[], false⟩ = some ([], ⟨[], false⟩) := by
    rw [ByteStream.readLine]
    cases perLineTake maxLineBytes <;> rfl
  rw [readEvalOutput]
  split
  next => rfl
  next => rfl
  next found =>
    rw [read] at found
    cases found

theorem push_consumed
    (items : evalItems fromJson (front ++ line) = evalItems fromJson front ++ (parseEvalLine fromJson line).toList)
    (next : ConsumeOutcome → ConsumeOutcome) :
    (match parseEvalLine fromJson line with
      | none => next (consumed fromJson front bytesRead .none)
      | some item =>
        let outcome := (consumed fromJson front bytesRead .none).push item
        if maxEntries ≤ outcome.entries then { outcome with truncation := .maxEntries } else next outcome) =
      if parseEvalLine fromJson line ≠ none ∧ maxEntries ≤ (evalItems fromJson (front ++ line)).length then
        consumed fromJson (front ++ line) bytesRead .maxEntries
      else next (consumed fromJson (front ++ line) bytesRead .none) := by
  rw [← entries_consumed (front ++ line) bytesRead .none]
  cases parsed : parseEvalLine fromJson line with
  | none =>
    rw [parsed, Option.toList_none, List.append_nil] at items
    simp [consumed, items]
  | some item =>
    rw [parsed, Option.toList_some] at items
    have pushed : (consumed fromJson front bytesRead .none).push item =
        consumed fromJson (front ++ line) bytesRead .none := by
      cases item <;> simp [consumed, items, ConsumeOutcome.push, NixEvalItem.drv?, NixEvalItem.error?]
    simp only [pushed, ne_eq, reduceCtorEq, not_false_eq_true, true_and]
    rfl

theorem saturatingAdd_min (first second : Nat) :
    saturatingAdd (min first maxWord) second = min (first + second) maxWord := by
  rw [saturatingAdd]
  omega

theorem readEvalOutput_line {rest : ByteStream} (some : line ≠ [])
    (read : stream.readLine (perLineTake maxLineBytes) = .some (line, rest)) (single : lines lineFeed line = [line])
    (whole : Whole lineFeed front) (short : ¬ (line.getLast? ≠ .some lineFeed ∧ maxLineBytes.toNat < line.length)) :
    readEvalOutput fromJson maxEntries maxBytes maxLineBytes stream
        (consumed fromJson front (min front.length maxWord) .none) =
      if maxBytes.toNat < min (front.length + line.length) maxWord then
        consumed fromJson front (min (front.length + line.length) maxWord) .maxBytes
      else if parseEvalLine fromJson line ≠ none ∧ maxEntries ≤ (evalItems fromJson (front ++ line)).length then
        consumed fromJson (front ++ line) (min (front ++ line).length maxWord) .maxEntries
      else
        readEvalOutput fromJson maxEntries maxBytes maxLineBytes rest
          (consumed fromJson (front ++ line) (min (front ++ line).length maxWord) .none) := by
  have items : evalItems fromJson (front ++ line) = evalItems fromJson front ++ (parseEvalLine fromJson line).toList := by
    rw [evalItems_append whole, evalItems_line single]
  have counted : saturatingAdd (consumed fromJson front (min front.length maxWord) .none).bytesRead line.length =
      min (front.length + line.length) maxWord := saturatingAdd_min _ _
  rw [readEvalOutput_of_read some read, List.length_append]
  dsimp only
  rw [counted, if_neg short]
  congr 1
  exact @push_consumed _ _ _ _ (min (front.length + line.length) maxWord) items _

theorem Passes.readLine (passes : Passes fromJson maxEntries maxBytes maxLineBytes front) (whole : Whole lineFeed front)
    (single : lines lineFeed line = [line]) (within : min (front ++ line).length maxWord ≤ maxBytes.toNat)
    (fits : LinesFit maxLineBytes line)
    (few : ¬ (parseEvalLine fromJson line ≠ none ∧ maxEntries ≤ (evalItems fromJson (front ++ line)).length)) :
    Passes fromJson maxEntries maxBytes maxLineBytes (front ++ line) := by
  refine ⟨within, (linesFit_append whole line).mpr ⟨passes.fit, fits⟩, ?_⟩
  by_cases none : parseEvalLine fromJson line = none
  · rw [evalItems_append whole, evalItems_line single, none, Option.toList_none, List.append_nil]
    exact passes.few
  · exact .inr (Nat.lt_of_not_le fun many => few ⟨none, many⟩)

theorem evalItems_of_parseLine (whole : Whole lineFeed front) (single : lines lineFeed line = [line])
    (parsed : parseEvalLine fromJson line = some item) :
    evalItems fromJson (front ++ line) = evalItems fromJson front ++ [item] := by
  rw [evalItems_append whole, evalItems_line single, parsed, Option.toList_some]

theorem readEvalOutput_ends (limited : maxLineBytes.toNat < maxWord) {failed : Bool} (whole : Whole lineFeed front)
    (passes : Passes fromJson maxEntries maxBytes maxLineBytes front) :
    Ends fromJson maxEntries maxBytes maxLineBytes ⟨front ++ rest, failed⟩
      (readEvalOutput fromJson maxEntries maxBytes maxLineBytes ⟨rest, failed⟩
        (consumed fromJson front (min front.length maxWord) .none)) := by
  have take : perLineTake maxLineBytes = maxLineBytes.toNat + 1 := by
    rw [perLineTake, UInt64.toNat_add, Nat.mod_eq_of_lt]
    · rfl
    · exact Nat.add_lt_of_lt_sub limited
  induction size : rest.length using Nat.strong_induction_on generalizing front rest with
  | _ size ih =>
    subst size
    obtain ⟨body, left, inside, short, split, read⟩ | ⟨line, left, inside, full, split, read⟩ | ⟨inside, short, read⟩ :=
      ByteStream.readLine_cases (perLineTake maxLineBytes) ⟨rest, failed⟩
    · have fits : LinesFit maxLineBytes (body ++ [lineFeed]) := (linesFit_ended inside).mpr (by omega)
      have split : rest = body ++ [lineFeed] ++ left := by
        rw [List.append_assoc]
        exact split
      have single : lines lineFeed (body ++ [lineFeed]) = [body ++ [lineFeed]] := by
        rw [lines_ended inside]
        rfl
      have ended : Whole lineFeed (front ++ (body ++ [lineFeed])) := whole.append (.inr ⟨body, rfl⟩)
      rw [readEvalOutput_line (by simp) read single whole (by simp)]
      split_ifs with above many
      · refine @Ends.overBytes _ _ _ _ _ _ _ left (by rw [split]) passes whole ?_ ?_ (.inr (.inl (.inr ⟨body, rfl⟩))) above
        · rwa [List.dropLast_concat]
        · rw [List.length_append, List.length_singleton]
          omega
      · rw [← List.length_append] at above
        obtain ⟨item, parsed⟩ := Option.ne_none_iff_exists'.mp many.1
        exact @Ends.full _ _ _ _ _ _ _ left _ (by rw [split]) passes (Nat.le_of_not_lt above)
          ((linesFit_append whole _).mpr ⟨passes.fit, fits⟩) (.inl ended) (evalItems_of_parseLine whole single parsed) many.2
      · rw [← List.length_append] at above
        rw [split, ← List.append_assoc]
        refine ih left.length ?_ ended (passes.readLine whole single (Nat.le_of_not_lt above) fits many) rfl
        rw [split, List.length_append, List.length_append, List.length_singleton]
        omega
    · have cut : line.getLast? ≠ some lineFeed ∧ maxLineBytes.toNat < line.length :=
        ⟨fun last => inside (List.mem_of_getLast? last), by omega⟩
      rw [readEvalOutput_of_read (List.ne_nil_of_length_pos (by omega)) read]
      dsimp only
      have counted : saturatingAdd (consumed fromJson front (min front.length maxWord) .none).bytesRead line.length =
          min (front.length + line.length) maxWord := saturatingAdd_min _ _
      rw [counted, if_pos cut]
      have split : rest = line ++ left := split
      split_ifs with above
      · exact @Ends.overBytes _ _ _ _ _ _ _ left (by rw [split]) passes whole (fun member => inside (List.mem_of_mem_dropLast member))
          (by omega) (.inr (.inr ⟨inside, cut.2⟩)) above
      · exact @Ends.overLine _ _ _ _ _ _ _ left (by rw [split]) passes whole inside (by omega) cut.2
    · have inside : lineFeed ∉ rest := inside
      have short : rest.length < perLineTake maxLineBytes := short
      have fits : LinesFit maxLineBytes rest := (linesFit_open inside).mpr (by omega)
      cases failed with
      | true =>
        rw [readEvalOutput]
        split
        next => exact .finished rfl passes fits (.inr ⟨inside, whole, rfl⟩)
        next found =>
          rw [read] at found
          cases found
        next found =>
          rw [read] at found
          cases found
      | false =>
        by_cases empty : rest = []
        · rw [empty, readEvalOutput_of_nil]
          exact .finished rfl passes (by simp [LinesFit, lines]) (.inl ⟨rfl, rfl⟩)
        · have single : lines lineFeed rest = [rest] := lines_open inside empty
          rw [readEvalOutput_line empty read single whole (by omega)]
          split_ifs with above many
          · exact @Ends.overBytes _ _ _ _ _ _ _ [] (by rw [List.append_nil]) passes whole
              (fun member => inside (List.mem_of_mem_dropLast member)) (by omega) (.inl rfl) above
          · rw [← List.length_append] at above
            obtain ⟨item, parsed⟩ := Option.ne_none_iff_exists'.mp many.1
            exact @Ends.full _ _ _ _ _ _ _ [] _ (by rw [List.append_nil]) passes (Nat.le_of_not_lt above)
              ((linesFit_append whole _).mpr ⟨passes.fit, fits⟩) (.inr ⟨rfl, rfl⟩)
              (evalItems_of_parseLine whole single parsed) many.2
          · rw [← List.length_append] at above
            rw [readEvalOutput_of_nil]
            exact .finished (List.append_nil _).symm (passes.readLine whole single (Nat.le_of_not_lt above) fits many)
              (by simp [LinesFit, lines]) (.inl ⟨rfl, rfl⟩)

theorem processNixEvalOutput_ends (limited : maxLineBytes.toNat < maxWord) (stream : ByteStream) :
    Ends fromJson maxEntries maxBytes maxLineBytes stream
      (processNixEvalOutput fromJson maxEntries maxBytes maxLineBytes stream) :=
  @readEvalOutput_ends _ _ _ _ [] _ limited _ (.inl rfl) ⟨Nat.zero_le _, by simp [LinesFit, lines], .inl rfl⟩

variable (fromJson maxEntries maxBytes maxLineBytes)

/-- A stream that can be read to its end and is nowhere above a cap. -/
structure WithinCaps (stream : ByteStream) : Prop where
  read : stream.failed = false
  size : stream.bytes.length ≤ maxBytes.toNat
  fit : LinesFit maxLineBytes stream.bytes
  few : (evalItems fromJson stream.bytes).length ≤ maxEntries

/-- The outcome is all of the stream, or it says that it is not. -/
structure TellsTruncation (stream : ByteStream) (outcome : ConsumeOutcome) : Prop where
  none_iff : outcome.truncation = .none ↔ WithinCaps fromJson maxEntries maxBytes maxLineBytes stream
  all : WithinCaps fromJson maxEntries maxBytes maxLineBytes stream →
    outcome.jobs = (evalItems fromJson stream.bytes).filterMap NixEvalItem.drv? ∧
      outcome.errors = (evalItems fromJson stream.bytes).filterMap NixEvalItem.error?
  part : ¬ WithinCaps fromJson maxEntries maxBytes maxLineBytes stream →
    ∃ front, front <+: stream.bytes ∧ (Whole lineFeed front ∨ front = stream.bytes) ∧
      outcome.jobs = (evalItems fromJson front).filterMap NixEvalItem.drv? ∧
      outcome.errors = (evalItems fromJson front).filterMap NixEvalItem.error? ∧
      outcome.entries ≤ maxEntries ∧ outcome.bytesRead ≤ maxBytes.toNat + maxLineBytes.toNat + 1

/-- The part of a stream that can be read line by line. -/
def ByteStream.readable (stream : ByteStream) : List UInt8 :=
  if stream.failed = true then complete lineFeed stream.bytes else stream.bytes

/-- The streams that are told to be whole exactly if they are: no error hides behind the last
cap, the cap on the entries is not met exactly, and where it is zero a line is not read on
its way to another cap that has an entry. -/
structure CapsTell (stream : ByteStream) : Prop where
  limited : maxLineBytes.toNat < maxWord
  read : Passes fromJson maxEntries maxBytes maxLineBytes stream.readable → LinesFit maxLineBytes stream.bytes →
    stream.failed = false ∧ stream.bytes.length ≤ maxWord
  exact : stream.failed = false → stream.bytes.length ≤ maxBytes.toNat → LinesFit maxLineBytes stream.bytes →
    (evalItems fromJson stream.bytes).length = maxEntries → maxEntries = 0
  zero : maxEntries = 0 → ∀ front, front <+: stream.bytes →
    Whole lineFeed front ∨ stream.failed = false ∧ front = stream.bytes →
      min front.length maxWord ≤ maxBytes.toNat → LinesFit maxLineBytes front → evalItems fromJson front = []

/-- A limit on a line that no line can exceed is read as zero, and nothing is read. -/
structure NothingToRead (stream : ByteStream) : Prop where
  unlimited : maxLineBytes.toNat = maxWord
  read : stream.failed = false
  size : stream.bytes.length ≤ maxBytes.toNat
  none : evalItems fromJson stream.bytes = []

variable {fromJson maxEntries maxBytes maxLineBytes}

theorem ByteStream.readable_of_prefix (split : stream.bytes = front ++ rest)
    (whole : Whole lineFeed front ∨ stream.failed = false) : ∃ left, stream.readable = front ++ left := by
  rw [readable]
  split
  next failed =>
    have whole : Whole lineFeed front := whole.resolve_right (by simp [failed])
    rw [split, complete_append_whole whole]
    exact ⟨_, rfl⟩
  next => exact ⟨rest, split⟩

theorem not_linesFit_of_long (whole : Whole lineFeed front) (inside : lineFeed ∉ line)
    (long : maxLineBytes.toNat < line.length) : ¬ LinesFit maxLineBytes (front ++ (line ++ rest)) := by
  intro fits
  have fits := ((linesFit_append whole _).mp fits).2
  obtain ⟨more, others, begins⟩ := lines_start inside (List.ne_nil_of_length_pos (Nat.zero_lt_of_lt long)) rest
  have short := fits (line ++ more) (by rw [begins]; exact List.mem_cons_self)
  have bound : line.length ≤ (content lineFeed (line ++ more)).length := by
    rw [content]
    split
    next ends =>
      have some : more ≠ [] := by
        rintro rfl
        rw [List.append_nil] at ends
        exact inside (List.mem_of_getLast? ends)
      rw [List.dropLast_append_of_ne_nil some, List.length_append]
      exact Nat.le_add_right _ _
    next =>
      rw [List.length_append]
      exact Nat.le_add_right _ _
  omega

theorem le_maxWord (number : UInt64) : number.toNat ≤ maxWord := Nat.le_sub_one_of_lt number.toNat_lt

theorem Passes.entries_le (passes : Passes fromJson maxEntries maxBytes maxLineBytes front) :
    (evalItems fromJson front).length ≤ maxEntries := by
  obtain none | few := passes.few
  · rw [none]
    exact Nat.zero_le _
  · exact few.le

theorem Passes.none_of_zero (passes : Passes fromJson maxEntries maxBytes maxLineBytes front) (zero : maxEntries = 0) :
    evalItems fromJson front = [] := by
  obtain none | few := passes.few
  · exact none
  · omega

theorem evalItems_length_le (whole : Whole lineFeed front) (rest : List UInt8) :
    (evalItems fromJson front).length ≤ (evalItems fromJson (front ++ rest)).length := by
  rw [evalItems_append whole, List.length_append]
  exact Nat.le_add_right _ _

theorem evalItems_eq_nil_of_prefix {text : List UInt8} (whole : Whole lineFeed front) (starts : front <+: text)
    (none : evalItems fromJson text = []) : evalItems fromJson front = [] := by
  obtain ⟨rest, rfl⟩ := starts
  have fewer := @evalItems_length_le fromJson _ whole rest
  rw [none, List.length_nil] at fewer
  exact List.eq_nil_of_length_eq_zero (Nat.le_zero.mp fewer)

theorem tells_cut {truncation : Truncation} (cut : truncation ≠ .none) (starts : front <+: stream.bytes)
    (whole : Whole lineFeed front ∨ front = stream.bytes)
    (bounded : bytesRead ≤ maxBytes.toNat + maxLineBytes.toNat + 1) :
    TellsTruncation fromJson maxEntries maxBytes maxLineBytes stream (consumed fromJson front bytesRead truncation) ↔
      ¬ WithinCaps fromJson maxEntries maxBytes maxLineBytes stream ∧ (evalItems fromJson front).length ≤ maxEntries := by
  constructor
  · intro tells
    have beyond : ¬ WithinCaps fromJson maxEntries maxBytes maxLineBytes stream := fun within =>
      cut (tells.none_iff.mpr within)
    obtain ⟨_, -, -, -, -, few, -⟩ := tells.part beyond
    rw [entries_consumed] at few
    exact ⟨beyond, few⟩
  · rintro ⟨beyond, few⟩
    refine ⟨⟨fun none => absurd none cut, fun within => absurd within beyond⟩, fun within => absurd within beyond,
      fun _ => ⟨front, starts, whole, rfl, rfl, ?_, bounded⟩⟩
    rwa [entries_consumed]

theorem tells_finished {tail : List UInt8} (split : stream.bytes = front ++ tail)
    (passes : Passes fromJson maxEntries maxBytes maxLineBytes front) (short : LinesFit maxLineBytes tail)
    (last : tail = [] ∧ stream.failed = false ∨ lineFeed ∉ tail ∧ Whole lineFeed front ∧ stream.failed = true)
    (limited : maxLineBytes.toNat < maxWord) :
    TellsTruncation fromJson maxEntries maxBytes maxLineBytes stream
        (consumed fromJson front (min front.length maxWord) .none) ↔
      CapsTell fromJson maxEntries maxBytes maxLineBytes stream := by
  have all : stream.failed = false → stream.bytes = front := by
    intro ended
    obtain ⟨rfl, -⟩ | ⟨-, -, failed⟩ := last
    · rwa [List.append_nil] at split
    · rw [ended] at failed
      cases failed
  constructor
  · intro tells
    have within := tells.none_iff.mp rfl
    have same := all within.read
    refine ⟨limited, fun _ _ => ⟨within.read, within.size.trans (le_maxWord _)⟩, fun _ _ _ exact => ?_,
      fun zero start starts reached _ _ => ?_⟩
    · rw [same] at exact
      obtain none | few := passes.few
      · rw [← exact, none]
        rfl
      · omega
    · have none : evalItems fromJson stream.bytes = [] := by
        rw [same]
        exact passes.none_of_zero zero
      obtain whole | ⟨-, rfl⟩ := reached
      · exact evalItems_eq_nil_of_prefix whole starts none
      · exact none
  · intro caps
    have readable : stream.readable = front := by
      obtain ⟨rfl, ended⟩ | ⟨inside, whole, failed⟩ := last
      · rw [ByteStream.readable, if_neg (by simp [ended]), all ended]
      · rw [ByteStream.readable, if_pos failed, split, complete_append whole inside]
    have fits : LinesFit maxLineBytes stream.bytes := by
      obtain ⟨rfl, ended⟩ | ⟨-, whole, -⟩ := last
      · rw [all ended]
        exact passes.fit
      · rw [split]
        exact (linesFit_append whole tail).mpr ⟨passes.fit, short⟩
    obtain ⟨ended, size⟩ := caps.read (by rwa [readable]) fits
    have same := all ended
    have within : WithinCaps fromJson maxEntries maxBytes maxLineBytes stream := by
      refine ⟨ended, ?_, fits, ?_⟩
      · have small := passes.size
        rw [same] at size ⊢
        omega
      · rw [same]
        exact passes.entries_le
    refine ⟨⟨fun _ => within, fun _ => rfl⟩, fun _ => ?_, fun beyond => absurd within beyond⟩
    rw [same]
    exact ⟨rfl, rfl⟩

theorem tells_overBytes (split : stream.bytes = front ++ (line ++ rest))
    (passes : Passes fromJson maxEntries maxBytes maxLineBytes front) (whole : Whole lineFeed front)
    (inside : lineFeed ∉ line.dropLast)
    (counted : stream.failed = false ∨ Whole lineFeed line ∨ lineFeed ∉ line ∧ maxLineBytes.toNat < line.length)
    (above : maxBytes.toNat < min (front.length + line.length) maxWord) :
    ¬ WithinCaps fromJson maxEntries maxBytes maxLineBytes stream ∧
      (maxLineBytes.toNat < maxWord → CapsTell fromJson maxEntries maxBytes maxLineBytes stream) := by
  have long : maxBytes.toNat < stream.bytes.length := by
    rw [split, List.length_append, List.length_append]
    omega
  refine ⟨fun within => Nat.not_lt_of_le within.size long, fun below => ⟨below, fun reads fits => ?_,
    fun _ size => absurd long (Nat.not_lt_of_le size), fun zero start starts reached size _ => ?_⟩⟩
  · exfalso
    have part : stream.bytes = front ++ line ++ rest := by rw [split, List.append_assoc]
    by_cases whole' : Whole lineFeed (front ++ line) ∨ stream.failed = false
    · obtain ⟨left, readable⟩ := ByteStream.readable_of_prefix part whole'
      have size := reads.size
      rw [readable, List.length_append, List.length_append] at size
      omega
    · obtain ended | line' | ⟨inside, above⟩ := counted
      · exact whole' (.inr ended)
      · exact whole' (.inl (whole.append line'))
      · rw [split] at fits
        exact not_linesFit_of_long whole inside above fits
  · obtain ended | ⟨-, rfl⟩ := reached
    · rw [split] at starts
      refine evalItems_eq_nil_of_prefix ended (ended.prefix_of_lt starts inside ?_) (passes.none_of_zero zero)
      rw [List.length_append]
      omega
    · omega

theorem tells_overLine (split : stream.bytes = front ++ (line ++ rest))
    (passes : Passes fromJson maxEntries maxBytes maxLineBytes front) (whole : Whole lineFeed front)
    (inside : lineFeed ∉ line) (long : maxLineBytes.toNat < line.length) :
    ¬ WithinCaps fromJson maxEntries maxBytes maxLineBytes stream ∧
      (maxLineBytes.toNat < maxWord → CapsTell fromJson maxEntries maxBytes maxLineBytes stream) := by
  have beyond : ¬ LinesFit maxLineBytes stream.bytes := by
    rw [split]
    exact not_linesFit_of_long whole inside long
  refine ⟨fun within => beyond within.fit, fun below => ⟨below, fun _ fits => absurd fits beyond,
    fun _ _ fits => absurd fits beyond, fun zero start starts reached _ fits => ?_⟩⟩
  obtain ended | ⟨-, rfl⟩ := reached
  · rw [split] at starts
    refine evalItems_eq_nil_of_prefix ended (ended.prefix_of_lt starts
      (fun member => inside (List.mem_of_mem_dropLast member)) (Nat.lt_of_not_le fun reaches => ?_))
      (passes.none_of_zero zero)
    have covers : front ++ line <+: start := by
      refine List.prefix_of_prefix_length_le ?_ starts reaches
      rw [← List.append_assoc]
      exact List.prefix_append _ _
    obtain ⟨more, rfl⟩ := covers
    rw [List.append_assoc] at fits
    exact not_linesFit_of_long whole inside long fits
  · exact absurd fits beyond

theorem tells_full (split : stream.bytes = front ++ (line ++ rest))
    (passes : Passes fromJson maxEntries maxBytes maxLineBytes front)
    (within : min (front ++ line).length maxWord ≤ maxBytes.toNat) (fits : LinesFit maxLineBytes (front ++ line))
    (whole : Whole lineFeed (front ++ line) ∨ stream.failed = false ∧ rest = [])
    (items : evalItems fromJson (front ++ line) = evalItems fromJson front ++ [item])
    (many : maxEntries ≤ (evalItems fromJson (front ++ line)).length) (limited : maxLineBytes.toNat < maxWord) :
    ¬ WithinCaps fromJson maxEntries maxBytes maxLineBytes stream ∧
        (evalItems fromJson (front ++ line)).length ≤ maxEntries ↔
      CapsTell fromJson maxEntries maxBytes maxLineBytes stream := by
  have part : stream.bytes = front ++ line ++ rest := by rw [split, List.append_assoc]
  have one : (evalItems fromJson (front ++ line)).length = (evalItems fromJson front).length + 1 := by
    rw [items, List.length_append, List.length_singleton]
  have grows (left : List UInt8) (reached : Whole lineFeed (front ++ line) ∨ left = []) :
      (evalItems fromJson (front ++ line)).length ≤ (evalItems fromJson (front ++ line ++ left)).length := by
    obtain ended | rfl := reached
    · exact evalItems_length_le ended left
    · rw [List.append_nil]
  have reached : Whole lineFeed (front ++ line) ∨ rest = [] := whole.imp_right And.right
  constructor
  · rintro ⟨beyond, few⟩
    refine ⟨limited, fun reads _ => ?_, fun ended size fits exact => ?_, fun zero => ?_⟩
    · exfalso
      have more : (evalItems fromJson (front ++ line)).length ≤ (evalItems fromJson stream.readable).length := by
        obtain ended | ⟨ended, rfl⟩ := whole
        · obtain ⟨left, readable⟩ := ByteStream.readable_of_prefix part (.inl ended)
          rw [readable]
          exact grows left (.inl ended)
        · rw [ByteStream.readable, if_neg (by simp [ended]), part, List.append_nil]
      obtain none | less := reads.few
      · rw [none, List.length_nil] at more
        omega
      · omega
    · exact absurd ⟨ended, size, fits, exact.le⟩ beyond
    · omega
  · intro caps
    have positive : maxEntries ≠ 0 := by
      intro zero
      have none := caps.zero zero (front ++ line) (by rw [part]; exact List.prefix_append _ _)
        (whole.imp_right fun ⟨ended, empty⟩ => ⟨ended, by rw [part, empty, List.append_nil]⟩) within fits
      rw [none, List.length_nil] at one
      omega
    have few : (evalItems fromJson (front ++ line)).length ≤ maxEntries := by
      obtain none | few := passes.few
      · rw [none, List.length_nil] at one
        omega
      · omega
    refine ⟨fun all => positive (caps.exact all.read all.size all.fit ?_), few⟩
    have more := grows rest reached
    have bound := all.few
    rw [part] at bound ⊢
    omega

theorem processNixEvalOutput_unlimited (unlimited : maxLineBytes.toNat = maxWord) (stream : ByteStream) :
    processNixEvalOutput fromJson maxEntries maxBytes maxLineBytes stream = {} := by
  have take : perLineTake maxLineBytes = 0 := by
    rw [perLineTake, UInt64.toNat_add, unlimited]
    rfl
  have read : stream.readLine (perLineTake maxLineBytes) = some ([], stream) := by
    rw [take, ByteStream.readLine, readUntil, if_neg (by simp)]
  rw [processNixEvalOutput, readEvalOutput]
  split
  next => rfl
  next => rfl
  next found =>
    rw [read] at found
    cases found

theorem tells_unlimited (unlimited : maxLineBytes.toNat = maxWord) (stream : ByteStream) :
    TellsTruncation fromJson maxEntries maxBytes maxLineBytes stream {} ↔
      NothingToRead fromJson maxBytes maxLineBytes stream := by
  constructor
  · intro tells
    have within := tells.none_iff.mp rfl
    obtain ⟨jobs, errors⟩ := tells.all within
    refine ⟨unlimited, within.read, within.size, ?_⟩
    cases items : evalItems fromJson stream.bytes with
    | nil => rfl
    | cons item rest =>
      rw [items] at jobs errors
      cases item with
      | drv job => cases jobs
      | error err => cases errors
  · rintro ⟨-, read, size, none⟩
    have within : WithinCaps fromJson maxEntries maxBytes maxLineBytes stream := by
      refine ⟨read, size, fun line member => ?_, by rw [none]; exact Nat.zero_le _⟩
      have short := length_le_of_mem_lines member
      have content : (content lineFeed line).length ≤ line.length := by
        rw [content]
        split
        · rw [List.length_dropLast]
          exact Nat.sub_le _ _
        · exact le_rfl
      have word := le_maxWord maxBytes
      omega
    refine ⟨⟨fun _ => within, fun _ => rfl⟩, fun _ => ?_, fun beyond => absurd within beyond⟩
    rw [none]
    exact ⟨rfl, rfl⟩

/-- The truncation that is told of is the one that took place, unless an error ended the
stream, the entries are just as many as the cap, or a cap is an extreme one. -/
theorem processNixEvalOutput_tells_iff (fromJson : String → Option NixEvalItem) (maxEntries : Nat)
    (maxBytes maxLineBytes : UInt64) (stream : ByteStream) :
    TellsTruncation fromJson maxEntries maxBytes maxLineBytes stream
        (processNixEvalOutput fromJson maxEntries maxBytes maxLineBytes stream) ↔
      CapsTell fromJson maxEntries maxBytes maxLineBytes stream ∨ NothingToRead fromJson maxBytes maxLineBytes stream := by
  obtain limited | unlimited := (le_maxWord maxLineBytes).lt_or_eq
  · have some : ¬ NothingToRead fromJson maxBytes maxLineBytes stream := fun nothing =>
      limited.ne nothing.unlimited
    rw [or_iff_left some]
    have ends := @processNixEvalOutput_ends fromJson maxEntries maxBytes _ limited stream
    generalize processNixEvalOutput fromJson maxEntries maxBytes maxLineBytes stream = outcome at ends ⊢
    cases ends with
    | finished split passes short last => exact tells_finished split passes short last limited
    | overBytes split passes whole inside short counted above =>
      have size := passes.size
      obtain ⟨beyond, caps⟩ := tells_overBytes split passes whole inside counted above
      rw [tells_cut (by simp) (by rw [split]; exact List.prefix_append _ _) (.inl whole) (by omega)]
      exact iff_of_true ⟨beyond, passes.entries_le⟩ (caps limited)
    | overLine split passes whole inside short long =>
      have size := passes.size
      obtain ⟨beyond, caps⟩ := tells_overLine split passes whole inside long
      rw [tells_cut (by simp) (by rw [split]; exact List.prefix_append _ _) (.inl whole) (by omega)]
      exact iff_of_true ⟨beyond, passes.entries_le⟩ (caps limited)
    | full split passes within fits whole items many =>
      rw [tells_cut (by simp) ⟨_, by rw [split, List.append_assoc]⟩ ?_ (by omega)]
      · exact tells_full split passes within fits whole items many limited
      · exact whole.imp_right fun ⟨_, empty⟩ => by rw [split, empty, List.append_nil]
  · have none : ¬ CapsTell fromJson maxEntries maxBytes maxLineBytes stream := fun caps => caps.limited.ne unlimited
    rw [or_iff_right none, processNixEvalOutput_unlimited unlimited]
    exact tells_unlimited unlimited stream

/-- A read that fails at once is told to be all of the output. -/
theorem readError_told_as_whole :
    ¬ TellsTruncation (fun _ => none) nixEvalJobsMaxEntries nixEvalJobsMaxStdoutBytes nixEvalJobsMaxLineBytes ⟨[], true⟩
      (processNixEvalOutput (fun _ => none) nixEvalJobsMaxEntries nixEvalJobsMaxStdoutBytes nixEvalJobsMaxLineBytes
        ⟨[], true⟩) := by
  intro tells
  have read : ByteStream.readLine (perLineTake nixEvalJobsMaxLineBytes) ⟨[], true⟩ = none := by decide
  have outcome : processNixEvalOutput (fun _ => none) nixEvalJobsMaxEntries nixEvalJobsMaxStdoutBytes
      nixEvalJobsMaxLineBytes ⟨[], true⟩ = {} := by
    rw [processNixEvalOutput, readEvalOutput]
    split
    next => rfl
    next => rfl
    next found =>
      rw [read] at found
      cases found
  rw [outcome] at tells
  cases (tells.none_iff.mp rfl).read

end Process

end EkaCI
