import Mathlib.Data.Finset.Basic

/-! The build states of a derivation. The server and the graph crate each have
a copy of these enumerations, converted variant by variant; one copy stands
for both here. -/

namespace EkaCI

inductive DrvBuildResult where
  | success
  | failure
  deriving DecidableEq, Repr

inductive DrvBuildInterruptionKind where
  | outOfMemory
  | timeout
  | cancelled
  | processDeath
  | schedulerDeath
  deriving DecidableEq, Repr

namespace DrvBuildInterruptionKind

/-- Transient interruptions are retried; `cancelled` and `schedulerDeath` are not. -/
def isRetryable : DrvBuildInterruptionKind → Bool
  | .outOfMemory | .timeout | .processDeath => true
  | .cancelled | .schedulerDeath => false

end DrvBuildInterruptionKind

inductive DrvBuildState where
  | queued
  | buildable
  | failedRetry
  | building
  | completed (result : DrvBuildResult)
  | interrupted (kind : DrvBuildInterruptionKind)
  | transitiveFailure
  | blocked
  | unsatisfiableRequirements
  deriving DecidableEq, Repr

namespace DrvBuildState

/-- The scheduler's notion of terminal: the build will not change from here. -/
def isTerminal : DrvBuildState → Bool
  | .completed _ | .transitiveFailure | .interrupted _ | .unsatisfiableRequirements => true
  | _ => false

def isFailure : DrvBuildState → Bool
  | .completed .failure | .transitiveFailure | .interrupted _ | .unsatisfiableRequirements => true
  | _ => false

/-- The states a drv is in while the scheduler still has work to do on it. -/
def isLive : DrvBuildState → Bool
  | .queued | .buildable | .building | .failedRetry => true
  | _ => false

/-- The states that the specification keeps out of reach of failure propagation. -/
def isPropagationImmune : DrvBuildState → Bool
  | .completed _ | .unsatisfiableRequirements => true
  | _ => false

theorem isLive_eq_false_of_isTerminal {state : DrvBuildState} (terminal : state.isTerminal = true) :
    state.isLive = false := by
  cases state <;> simp_all [isTerminal, isLive]

end DrvBuildState

/-- A derivation as the graph and the scheduler see it. -/
structure Drv (DrvId : Type) where
  drvPath : DrvId
  system : String
  preferLocalBuild : Bool
  requiredSystemFeatures : Option String
  isFod : Bool
  buildState : DrvBuildState
  deriving DecidableEq

/-- A drv that any builder of the common platform can build. -/
def Drv.plain {DrvId : Type} (drvPath : DrvId) (buildState : DrvBuildState) : Drv DrvId where
  drvPath := drvPath
  system := "x86_64-linux"
  preferLocalBuild := false
  requiredSystemFeatures := none
  isFod := false
  buildState := buildState

/-- Instants of the monotonic clock. -/
abbrev Instant := Int

end EkaCI
