import EkaCI.Lib.LossyText
import EkaCI.Scheduler.CircuitBreaker

/-! What a remote build tells the circuit breakers when it ends. Nix and the build script write
into one log, and the end of it is searched for the phrases of a broken connection. -/

namespace EkaCI

open Lib

def connectionPhrases : List String :=
  ["connection refused", "connection timed out", "connection reset", "no route to host", "host is unreachable",
    "name or service not known", "ssh_exchange_identification", "permission denied (publickey", "broken pipe",
    "failed to connect to", "cannot connect to"]

/-- The exit code of ssh, or a phrase in the text, whatever its case. -/
def isConnectionFailure (exitCode : Option Int) (stderr : List Char) : Bool :=
  exitCode = some 255 || connectionPhrases.any fun phrase => phrase.toList <:+: stderr.map Char.toLower

def tailBytes : Nat := 1024

/-- The end of a file, as a text. -/
def readFileTail (file : List UInt8) (maxBytes : Nat) : List Char := fromUtf8Lossy (file.drop (file.length - maxBytes))

/-- What one of the writers of a log has added to it. -/
inductive LogPiece where
  | nix (bytes : List UInt8)
  | script (bytes : List UInt8)

namespace LogPiece

def bytes : LogPiece → List UInt8
  | nix bytes => bytes
  | script bytes => bytes

def ofNix : LogPiece → Option (List UInt8)
  | nix bytes => some bytes
  | script _ => none

end LogPiece

/-- How a build ends; a failure has no exit code where a signal ended it. -/
inductive BuildEnd where
  | success
  | failure (exitCode : Option Int)
  | timeout
  | absoluteTimeout
  | error
  deriving DecidableEq

structure BuilderRun where
  builderName : String
  isRemote : Bool
  now : Instant
  outcome : BuildEnd
  log : List LogPiece

namespace BuilderRun

def logBytes (build : BuilderRun) : List UInt8 := build.log.flatMap LogPiece.bytes

def stderrTail (build : BuilderRun) : List Char := readFileTail build.logBytes tailBytes

/-- The calls of `perform_build` to the registry. -/
def reports (build : BuilderRun) : List TimedCall :=
  if build.isRemote then
    match build.outcome with
    | .success => [⟨build.now, build.builderName, .recordSuccess⟩]
    | .failure exitCode =>
      if isConnectionFailure exitCode build.stderrTail then [⟨build.now, build.builderName, .recordFailure⟩] else []
    | .timeout | .absoluteTimeout | .error => []
  else []

/-- A phrase is in the last bytes of the log, in any case of the letters. -/
def Mentions (build : BuilderRun) : Prop :=
  ∃ phrase ∈ connectionPhrases,
    utf8Bytes phrase.toList <:+: (build.logBytes.drop (build.logBytes.length - 1024)).map toAsciiLowercase

end BuilderRun

/-- Builds end, and the breakers are called by others. -/
inductive RemoteEvent where
  | build (build : BuilderRun)
  | call (call : TimedCall)

namespace RemoteEvent

def calls : RemoteEvent → List TimedCall
  | .build ran => ran.reports
  | .call made => [made]

/-- Two events that differ in nothing but what a build script has printed. -/
def SameButScript : RemoteEvent → RemoteEvent → Prop
  | .build first, .build second => second = { first with log := second.log } ∧
      first.log.filterMap LogPiece.ofNix = second.log.filterMap LogPiece.ofNix
  | .call first, .call second => first = second
  | _, _ => False

/-- No exit code of ssh, and nix itself speaks of no broken connection. -/
def Ordinary : RemoteEvent → Prop
  | .build ran => ran.outcome ≠ .failure (some 255) ∧ ∀ bytes ∈ ran.log.filterMap LogPiece.ofNix,
      ∀ phrase ∈ connectionPhrases, ¬ utf8Bytes phrase.toList <:+: bytes.map toAsciiLowercase
  | .call _ => True

end RemoteEvent

/-- Two runs of the same builds and calls, in which nothing is wrong with a connection. -/
structure TwoRuns where
  first : List RemoteEvent
  second : List RemoteEvent
  same : List.Forall₂ RemoteEvent.SameButScript first second
  ordinary : ∀ event ∈ first ++ second, event.Ordinary

/-- The registry after so many of the events; `none` where a call is not possible. -/
def registryAfter (start : BreakerSystem) (events : List RemoteEvent) (count : Nat) : Option CircuitBreakerRegistry :=
  (exec BreakerSystem.step start ((events.take count).flatMap RemoteEvent.calls)).map BreakerSystem.registry

/-- The registry goes through the same states, and no build is recorded as a broken connection. -/
structure TwoRuns.Unaffected (runs : TwoRuns) : Prop where
  states : ∀ start count, registryAfter start runs.first count = registryAfter start runs.second count
  unrecorded : ∀ build, RemoteEvent.build build ∈ runs.first ++ runs.second →
    ∀ call ∈ build.reports, call.call ≠ .recordFailure

/-- No failed build on a remote builder has a phrase at the end of its log. -/
def TwoRuns.Quiet (runs : TwoRuns) : Prop :=
  ∀ build, RemoteEvent.build build ∈ runs.first ++ runs.second → build.isRemote = true →
    ∀ exitCode, build.outcome = .failure exitCode → ¬ build.Mentions

theorem plain_of_mem_connectionPhrases : ∀ phrase ∈ connectionPhrases,
    phrase.toList ≠ [] ∧ ∀ c ∈ phrase.toList, c.val.toNat < 128 := by
  have all : (connectionPhrases.all fun phrase => decide (phrase.toList ≠ []) &&
      phrase.toList.all fun c => decide (c.val.toNat < 128)) = true := by decide
  intro phrase member
  have own := List.all_eq_true.mp all phrase member
  rw [Bool.and_eq_true, decide_eq_true_eq, List.all_eq_true] at own
  exact ⟨own.1, fun c inside => of_decide_eq_true (own.2 c inside)⟩

theorem isConnectionFailure_iff {build : BuilderRun} {exitCode : Option Int} (other : exitCode ≠ some 255) :
    isConnectionFailure exitCode build.stderrTail = true ↔ build.Mentions := by
  rw [isConnectionFailure, decide_eq_false other, Bool.false_or, List.any_eq_true]
  refine exists_congr fun phrase => and_congr_right fun member => ?_
  obtain ⟨nonempty, plain⟩ := plain_of_mem_connectionPhrases phrase member
  rw [decide_eq_true_eq, BuilderRun.stderrTail, readFileTail, infix_fromUtf8Lossy_iff nonempty plain, tailBytes]

def BuilderRun.successCalls (build : BuilderRun) : List TimedCall :=
  if build.isRemote = true ∧ build.outcome = .success then [⟨build.now, build.builderName, .recordSuccess⟩] else []

theorem BuilderRun.reports_of_quiet {build : BuilderRun} (ordinary : (RemoteEvent.build build).Ordinary)
    (quiet : build.isRemote = true → ∀ exitCode, build.outcome = .failure exitCode → ¬ build.Mentions) :
    build.reports = build.successCalls := by
  rw [reports, successCalls]
  cases remote : build.isRemote with
  | false => simp
  | true =>
    cases ended : build.outcome with
    | success => simp
    | failure exitCode =>
      have other : exitCode ≠ some 255 := by
        rintro rfl
        exact ordinary.1 ended
      have unmentioned := mt (isConnectionFailure_iff other).mp (quiet remote exitCode ended)
      simp [unmentioned]
    | timeout | absoluteTimeout | error => simp

theorem calls_eq_of_quiet {first second : RemoteEvent} (same : first.SameButScript second)
    (quietFirst : ∀ build, first = .build build → build.reports = build.successCalls)
    (quietSecond : ∀ build, second = .build build → build.reports = build.successCalls) : first.calls = second.calls := by
  cases first with
  | build first =>
    cases second with
    | build second =>
      rw [RemoteEvent.calls, RemoteEvent.calls, quietFirst first rfl, quietSecond second rfl, same.1]
      rfl
    | call => exact same.elim
  | call first =>
    cases second with
    | build => exact same.elim
    | call second => rw [show first = second from same]

theorem flatMap_calls_eq {first second : List RemoteEvent} (same : List.Forall₂ RemoteEvent.SameButScript first second)
    (quiet : ∀ build, RemoteEvent.build build ∈ first ++ second → build.reports = build.successCalls) (count : Nat) :
    (first.take count).flatMap RemoteEvent.calls = (second.take count).flatMap RemoteEvent.calls := by
  induction same generalizing count with
  | nil => rfl
  | cons here later ih =>
    cases count with
    | zero => rfl
    | succ count =>
      have own := calls_eq_of_quiet here (fun build same => quiet build (by simp [same]))
        (fun build same => quiet build (by simp [same]))
      have others := ih (fun build member => quiet build (by
        rcases List.mem_append.mp member with inFirst | inSecond
        · exact List.mem_append_left _ (List.mem_cons_of_mem _ inFirst)
        · exact List.mem_append_right _ (List.mem_cons_of_mem _ inSecond))) count
      rw [List.take_succ_cons, List.take_succ_cons, List.flatMap_cons, List.flatMap_cons, own, others]

/-- The registry sees nothing of the scripts exactly if no failed build has a phrase of a broken
connection at the end of its log. -/
theorem TwoRuns.unaffected_iff (runs : TwoRuns) : runs.Unaffected ↔ runs.Quiet := by
  constructor
  · intro unaffected build member remote exitCode ended mentions
    have other : exitCode ≠ some 255 := by
      rintro rfl
      exact (runs.ordinary _ member).1 ended
    refine unaffected.unrecorded build member ⟨build.now, build.builderName, .recordFailure⟩ ?_ rfl
    simp only [BuilderRun.reports, remote, ended, (isConnectionFailure_iff other).mpr mentions, if_true]
    exact List.mem_singleton_self _
  · intro quiet
    have reports (build : BuilderRun) (member : RemoteEvent.build build ∈ runs.first ++ runs.second) :
        build.reports = build.successCalls := BuilderRun.reports_of_quiet (runs.ordinary _ member) (quiet build member)
    refine ⟨fun start count => ?_, fun build member call reported => ?_⟩
    · rw [registryAfter, flatMap_calls_eq runs.same reports count]
      rfl
    · rw [reports build member, BuilderRun.successCalls] at reported
      split at reported
      · rw [List.mem_singleton.mp reported]
        nofun
      · cases reported

/-- A test of the derivation talks to a server that is not there. -/
def refusedTest : BuilderRun where
  builderName := "builder"
  isRemote := true
  now := 0
  outcome := .failure (some 1)
  log := [.script (utf8Bytes "Connection refused".toList)]

/-- The run with a build whose script prints nothing, and the run with one that prints a phrase. -/
def refusedRuns : TwoRuns where
  first := [.build { refusedTest with log := [] }]
  second := [.build refusedTest]
  same := .cons ⟨rfl, rfl⟩ .nil
  ordinary := by
    intro event member
    simp only [List.singleton_append, List.mem_cons, List.not_mem_nil, or_false] at member
    obtain rfl | rfl := member
    · exact ⟨nofun, List.forall_mem_nil _⟩
    · exact ⟨nofun, List.forall_mem_nil _⟩

theorem refusedRuns_not_unaffected : ¬ ∀ runs : TwoRuns, runs.Unaffected := by
  intro always
  have mentions : refusedTest.Mentions := ⟨"connection refused", List.mem_cons_self, [], [], by decide⟩
  have recorded : isConnectionFailure (some 1) refusedTest.stderrTail = true :=
    (isConnectionFailure_iff (by decide)).mpr mentions
  have member : RemoteEvent.build refusedTest ∈ refusedRuns.first ++ refusedRuns.second := by
    simp [refusedRuns]
  refine (always refusedRuns).unrecorded refusedTest member ⟨0, "builder", .recordFailure⟩ ?_ rfl
  have reports : refusedTest.reports =
      if isConnectionFailure (some 1) refusedTest.stderrTail then [⟨0, "builder", .recordFailure⟩] else [] := rfl
  rw [reports, if_pos recorded]
  exact List.mem_singleton_self _

end EkaCI
