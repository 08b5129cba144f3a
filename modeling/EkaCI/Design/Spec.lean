import EkaCI.Build.State
import EkaCI.Lib.Run
import EkaCI.Lib.Table
import Mathlib.Data.Finset.Card
import Mathlib.Data.Finset.Union

/-! The design of the build pipeline as its formal specification states it: a
set of nodes with their build states, the failures that are tracked, and three
queues between ingress, builders and recorder. An action that is enabled in
several ways has one action here for each of them. -/

namespace EkaCI.Design

open Lib

variable {DrvId : Type}

/-- A derivation of the design. Its id is the key it is stored under. -/
structure DrvNode (DrvId : Type) where
  state : DrvBuildState
  isFod : Bool
  system : String
  /-- Drvs whose permanent failure blocks this drv. -/
  blockingFailures : Finset DrvId
  buildAttempts : Nat
  deriving DecidableEq

@[ext] structure Pipeline (DrvId : Type) where
  nodes : Table DrvId (DrvNode DrvId)
  deps : DrvId → Option (Finset DrvId)
  referrers : DrvId → Option (Finset DrvId)
  failedDrvs : Finset DrvId
  transitiveFailureMap : DrvId → Option (Finset DrvId)
  ingressQueue : Finset DrvId
  buildQueue : Finset DrvId
  recorderQueue : Finset (DrvId × DrvBuildState)

/-- The set under a key, empty for a key that is not there. -/
def setAt (sets : DrvId → Option (Finset DrvId)) (id : DrvId) : Finset DrvId := (sets id).getD ∅

def Pipeline.init : Pipeline DrvId where
  nodes := .empty
  deps := fun _ => none
  referrers := fun _ => none
  failedDrvs := ∅
  transitiveFailureMap := fun _ => none
  ingressQueue := ∅
  buildQueue := ∅
  recorderQueue := ∅

/-- Whether all dependencies of a drv completed successfully. -/
def isBuildable (drv : DrvId) (depMap : DrvId → Option (Finset DrvId)) (nodeMap : Table DrvId (DrvNode DrvId)) : Prop :=
  ∃ dependencies ∈ depMap drv, ∀ dep ∈ dependencies, (nodeMap.get dep).map (·.state) = some (.completed .success)

instance (drv : DrvId) (depMap : DrvId → Option (Finset DrvId)) (nodeMap : Table DrvId (DrvNode DrvId)) :
    Decidable (isBuildable drv depMap nodeMap) :=
  match found : depMap drv with
  | none => isFalse fun ⟨_, listed, _⟩ => by rw [found] at listed; cases listed
  | some dependencies =>
    decidable_of_iff (∀ dep ∈ dependencies, (nodeMap.get dep).map (·.state) = some (.completed .success))
      ⟨fun done => ⟨dependencies, found, done⟩, fun ⟨_, listed, done⟩ => Option.some.inj (found ▸ listed) ▸ done⟩

variable [DecidableEq DrvId]

/-- One round of the search for dependents. -/
def widen (refMap : DrvId → Option (Finset DrvId)) (found : Finset DrvId) : Finset DrvId :=
  found ∪ found.biUnion (setAt refMap)

/-- The dependents of a drv, with those that twenty more rounds find. -/
def transitiveDependents (root : DrvId) (refMap : DrvId → Option (Finset DrvId)) : Finset DrvId :=
  (widen refMap)^[20] (setAt refMap root)

/-- A node that a permanent failure reaches. -/
def DrvNode.block (drv : DrvId) (node : DrvNode DrvId) : DrvNode DrvId :=
  if node.state.isPropagationImmune then node
  else { node with state := .transitiveFailure, blockingFailures := insert drv node.blockingFailures }

/-- A node with one blocker less, queued again if it was the last. -/
def DrvNode.unblock (drv : DrvId) (node : DrvNode DrvId) : DrvNode DrvId :=
  let newBlockers := node.blockingFailures.erase drv
  { node with
    blockingFailures := newBlockers
    state := if newBlockers = ∅ then .queued else node.state }

/-- A failure of the last attempt. -/
def DrvNode.exhaust (node : DrvNode DrvId) : DrvNode DrvId :=
  { node with state := .completed .failure, buildAttempts := node.buildAttempts + 1 }

/-- A node whose build is not to be tried again. -/
def DrvNode.interrupt (kind : DrvBuildInterruptionKind) (node : DrvNode DrvId) : DrvNode DrvId :=
  { node with state := .interrupted kind }

def DrvNode.succeed (node : DrvNode DrvId) : DrvNode DrvId := { node with state := .completed .success }

/-- A failed node as it is built again. -/
def DrvNode.restart (node : DrvNode DrvId) : DrvNode DrvId :=
  { node with state := .queued, buildAttempts := 0, blockingFailures := ∅ }

/-- A set of nodes rewritten; the order of the fold over the set does not matter,
for each of its rounds is about a node of its own. -/
def rewrite (nodes : Table DrvId (DrvNode DrvId)) (ids : Finset DrvId) (change : DrvNode DrvId → DrvNode DrvId) :
    Table DrvId (DrvNode DrvId) where
  keys := nodes.keys
  get id := if id ∈ ids then (nodes.get id).map change else nodes.get id
  nodup := nodes.nodup
  mem_keys id := by
    rw [nodes.mem_keys]
    split <;> simp

namespace Pipeline

/-- Evaluation discovers a new drv and its dependencies. -/
def evalDiscover (design : Pipeline DrvId) (drv : DrvId) (system : String) (isFod : Bool)
    (dependencies : Finset DrvId) : Option (Pipeline DrvId) :=
  if design.nodes.contains drv = false ∧ ∀ dep ∈ dependencies, design.nodes.contains dep = true then
    some { design with
      nodes := design.nodes.push drv ⟨.queued, isFod, system, ∅, 0⟩
      deps := Function.update design.deps drv (some dependencies)
      referrers := fun dep =>
        if dep ∈ dependencies then some (insert drv (setAt design.referrers dep)) else design.referrers dep
      ingressQueue := insert drv design.ingressQueue }
  else none

def evalDiscoverLeaf (design : Pipeline DrvId) (drv : DrvId) (system : String) (isFod : Bool) :
    Option (Pipeline DrvId) :=
  design.evalDiscover drv system isFod ∅

/-- Ingress takes a drv from its queue. `sent` says whether there is room in the
queue of the builders: if not, the drv is buildable but nobody builds it. -/
def ingressProcess (design : Pipeline DrvId) (drv : DrvId) (sent : Bool) : Option (Pipeline DrvId) :=
  if drv ∈ design.ingressQueue then
    (design.nodes.get drv).map fun node =>
      let dequeued := { design with ingressQueue := design.ingressQueue.erase drv }
      if node.state.isTerminal then dequeued
      else if isBuildable drv design.deps design.nodes then
        { dequeued with
          nodes := design.nodes.modify drv fun node =>
            { node with state := if node.state = .failedRetry then .failedRetry else .buildable }
          buildQueue := if sent then insert drv design.buildQueue else design.buildQueue }
      else dequeued
  else none

/-- The periodic sweep hands a drv that waits for nothing to ingress again. -/
def sweepBuildable (design : Pipeline DrvId) (drv : DrvId) : Option (Pipeline DrvId) :=
  (design.nodes.get drv).bind fun node =>
    if (node.state = .queued ∨ node.state = .buildable) ∧ isBuildable drv design.deps design.nodes ∧
        drv ∉ design.ingressQueue ∧ drv ∉ design.buildQueue then
      some { design with ingressQueue := insert drv design.ingressQueue }
    else none

/-- A builder picks a drv up. -/
def startBuild (design : Pipeline DrvId) (drv : DrvId) : Option (Pipeline DrvId) :=
  if drv ∈ design.buildQueue then
    (design.nodes.get drv).bind fun node =>
      if node.state = .buildable ∨ node.state = .failedRetry then
        some { design with
          nodes := design.nodes.modify drv fun node => { node with state := .building }
          buildQueue := design.buildQueue.erase drv }
      else none
  else none

/-- An entry of the build queue whose drv has changed since is dropped. -/
def dropStaleBuild (design : Pipeline DrvId) (drv : DrvId) : Option (Pipeline DrvId) :=
  if drv ∈ design.buildQueue then
    (design.nodes.get drv).bind fun node =>
      if node.state = .buildable ∨ node.state = .failedRetry then none
      else some { design with buildQueue := design.buildQueue.erase drv }
  else none

/-- A builder reports the state its build ended in. -/
def report (design : Pipeline DrvId) (drv : DrvId) (state : DrvBuildState) : Option (Pipeline DrvId) :=
  (design.nodes.get drv).bind fun node =>
    if node.state = .building then
      some { design with recorderQueue := insert (drv, state) design.recorderQueue }
    else none

def buildComplete (design : Pipeline DrvId) (drv : DrvId) (result : DrvBuildResult) : Option (Pipeline DrvId) :=
  design.report drv (.completed result)

def buildInterrupted (design : Pipeline DrvId) (drv : DrvId) (kind : DrvBuildInterruptionKind) :
    Option (Pipeline DrvId) :=
  design.report drv (.interrupted kind)

/-- The nodes and the failures once a drv does not block its dependents any more. -/
def clear (design : Pipeline DrvId) (drv : DrvId) : Pipeline DrvId :=
  { design with
    nodes := rewrite design.nodes (setAt design.transitiveFailureMap drv) (DrvNode.unblock drv)
    failedDrvs := design.failedDrvs.erase drv
    transitiveFailureMap := Function.update design.transitiveFailureMap drv none }

/-- The recorder takes a success; that of a failed drv clears its failure. -/
def recordSuccess (design : Pipeline DrvId) (drv : DrvId) : Option (Pipeline DrvId) :=
  if (drv, .completed .success) ∈ design.recorderQueue then
    (design.nodes.get drv).map fun _ =>
      let wasFailed := drv ∈ design.failedDrvs
      let blockedSet := if wasFailed then setAt design.transitiveFailureMap drv else ∅
      let unblocked := blockedSet.filter fun blockedId =>
        (design.nodes.get blockedId).map (·.blockingFailures) = some {drv}
      let updated := { design with nodes := design.nodes.modify drv DrvNode.succeed }
      let cleared := if wasFailed then updated.clear drv else updated
      let nonTerminalRefs := (setAt design.referrers drv).filter fun referrer =>
        (cleared.nodes.get referrer).map (·.state.isTerminal) = some false
      { cleared with
        ingressQueue := design.ingressQueue ∪ (nonTerminalRefs ∪ unblocked)
        recorderQueue := design.recorderQueue.erase (drv, .completed .success)
        buildQueue := design.buildQueue.erase drv }
  else none

/-- A first attempt that counts is used up: the drv goes back to ingress. -/
def retry (design : Pipeline DrvId) (drv : DrvId) (message : DrvBuildState) : Pipeline DrvId :=
  { design with
    nodes := design.nodes.modify drv fun node =>
      { node with state := .failedRetry, buildAttempts := node.buildAttempts + 1 }
    ingressQueue := insert drv design.ingressQueue
    recorderQueue := design.recorderQueue.erase (drv, message) }

/-- A drv ends for good: its failure is tracked and reaches all its dependents,
none of which stays in the build queue. -/
def settle (design : Pipeline DrvId) (drv : DrvId) (message : DrvBuildState)
    (ended : DrvNode DrvId → DrvNode DrvId) : Pipeline DrvId :=
  let blocked := transitiveDependents drv design.referrers
  { design with
    nodes := rewrite (design.nodes.modify drv ended) blocked (DrvNode.block drv)
    failedDrvs := insert drv design.failedDrvs
    transitiveFailureMap := Function.update design.transitiveFailureMap drv (some blocked)
    recorderQueue := design.recorderQueue.erase (drv, message)
    buildQueue := (design.buildQueue \ blocked).erase drv }

def recordFailureFirst (design : Pipeline DrvId) (drv : DrvId) : Option (Pipeline DrvId) :=
  if (drv, .completed .failure) ∈ design.recorderQueue then
    (design.nodes.get drv).bind fun node =>
      if node.state = .building ∧ node.buildAttempts < 1 then some (design.retry drv (.completed .failure)) else none
  else none

def recordFailurePermanent (design : Pipeline DrvId) (drv : DrvId) : Option (Pipeline DrvId) :=
  if (drv, .completed .failure) ∈ design.recorderQueue then
    (design.nodes.get drv).bind fun node =>
      if node.state.isTerminal = false ∧ 1 ≤ node.buildAttempts then
        some (design.settle drv (.completed .failure) DrvNode.exhaust)
      else none
  else none

def recordInterruptedRetryableFirst (design : Pipeline DrvId) (drv : DrvId) (kind : DrvBuildInterruptionKind) :
    Option (Pipeline DrvId) :=
  if (drv, .interrupted kind) ∈ design.recorderQueue then
    (design.nodes.get drv).bind fun node =>
      if kind.isRetryable ∧ node.state.isTerminal = false ∧ node.buildAttempts < 1 then
        some (design.retry drv (.interrupted kind))
      else none
  else none

def recordInterruptedRetryablePermanent (design : Pipeline DrvId) (drv : DrvId) (kind : DrvBuildInterruptionKind) :
    Option (Pipeline DrvId) :=
  if (drv, .interrupted kind) ∈ design.recorderQueue then
    (design.nodes.get drv).bind fun node =>
      if kind.isRetryable ∧ node.state.isTerminal = false ∧ 1 ≤ node.buildAttempts then
        some (design.settle drv (.interrupted kind) DrvNode.exhaust)
      else none
  else none

def recordInterruptedNonRetryable (design : Pipeline DrvId) (drv : DrvId) (kind : DrvBuildInterruptionKind) :
    Option (Pipeline DrvId) :=
  if (drv, .interrupted kind) ∈ design.recorderQueue then
    (design.nodes.get drv).bind fun node =>
      if kind.isRetryable = false ∧ node.state.isTerminal = false then
        some (design.settle drv (.interrupted kind) (DrvNode.interrupt kind))
      else none
  else none

/-- A substitute is found before a builder has the drv. -/
def substitutionHit (design : Pipeline DrvId) (drv : DrvId) : Option (Pipeline DrvId) :=
  (design.nodes.get drv).bind fun node =>
    if node.state.isTerminal = false ∧ drv ∉ design.buildQueue ∧ node.state ≠ .building then
      some { design with
        recorderQueue := insert (drv, .completed .success) design.recorderQueue
        ingressQueue := design.ingressQueue.erase drv }
    else none

/-- A failed drv is to be built again: it is as new, and what it blocked is rechecked. -/
def rebuildFailed (design : Pipeline DrvId) (drv : DrvId) : Option (Pipeline DrvId) :=
  (design.nodes.get drv).bind fun node =>
    if node.state = .completed .failure ∧ drv ∈ design.failedDrvs then
      let reset := { design with nodes := design.nodes.modify drv DrvNode.restart }
      some { reset.clear drv with
        ingressQueue := insert drv design.ingressQueue ∪ setAt design.transitiveFailureMap drv }
    else none

/-- The drvs in one of the given states. -/
def drvsIn (design : Pipeline DrvId) (states : List DrvBuildState) : Finset DrvId :=
  (design.nodes.keys.filter fun id => (design.nodes.get id).any (·.state ∈ states)).toFinset

/-- A restart: the queues are lost, and what was on its way starts over. A drv
that waits for its second attempt keeps its state. -/
def crashRecovery (design : Pipeline DrvId) : Option (Pipeline DrvId) :=
  let buildingDrvs := design.drvsIn [.building, .buildable]
  let allTransient := buildingDrvs ∪ design.drvsIn [.failedRetry]
  if allTransient = ∅ then none
  else
    some { design with
      nodes := rewrite design.nodes buildingDrvs fun node => { node with state := .queued }
      ingressQueue := design.ingressQueue ∪ allTransient
      buildQueue := ∅
      recorderQueue := ∅ }

end Pipeline

inductive Action (DrvId : Type) where
  | evalDiscover (drv : DrvId) (system : String) (isFod : Bool) (dependencies : Finset DrvId)
  | ingressProcess (drv : DrvId) (sent : Bool)
  | sweepBuildable (drv : DrvId)
  | startBuild (drv : DrvId)
  | dropStaleBuild (drv : DrvId)
  | buildComplete (drv : DrvId) (result : DrvBuildResult)
  | buildInterrupted (drv : DrvId) (kind : DrvBuildInterruptionKind)
  | recordSuccess (drv : DrvId)
  | recordFailureFirst (drv : DrvId)
  | recordFailurePermanent (drv : DrvId)
  | recordInterruptedRetryableFirst (drv : DrvId) (kind : DrvBuildInterruptionKind)
  | recordInterruptedRetryablePermanent (drv : DrvId) (kind : DrvBuildInterruptionKind)
  | recordInterruptedNonRetryable (drv : DrvId) (kind : DrvBuildInterruptionKind)
  | substitutionHit (drv : DrvId)
  | rebuildFailed (drv : DrvId)
  | crashRecovery

/-- The design takes any action that is enabled. -/
def Pipeline.step (design : Pipeline DrvId) : Action DrvId → Option (Pipeline DrvId)
  | .evalDiscover drv system isFod dependencies => design.evalDiscover drv system isFod dependencies
  | .ingressProcess drv sent => design.ingressProcess drv sent
  | .sweepBuildable drv => design.sweepBuildable drv
  | .startBuild drv => design.startBuild drv
  | .dropStaleBuild drv => design.dropStaleBuild drv
  | .buildComplete drv result => design.buildComplete drv result
  | .buildInterrupted drv kind => design.buildInterrupted drv kind
  | .recordSuccess drv => design.recordSuccess drv
  | .recordFailureFirst drv => design.recordFailureFirst drv
  | .recordFailurePermanent drv => design.recordFailurePermanent drv
  | .recordInterruptedRetryableFirst drv kind => design.recordInterruptedRetryableFirst drv kind
  | .recordInterruptedRetryablePermanent drv kind => design.recordInterruptedRetryablePermanent drv kind
  | .recordInterruptedNonRetryable drv kind => design.recordInterruptedNonRetryable drv kind
  | .substitutionHit drv => design.substitutionHit drv
  | .rebuildFailed drv => design.rebuildFailed drv
  | .crashRecovery => design.crashRecovery

namespace Pipeline

variable (design : Pipeline DrvId)

/-- No drv is building while a dependency is incomplete. -/
def InvBuildingImpliesDepsDone : Prop :=
  ∀ id node, design.nodes.get id = some node → node.state = .building → isBuildable id design.deps design.nodes

def InvTransitiveFailureHasBlocker : Prop :=
  ∀ id node, design.nodes.get id = some node → node.state = .transitiveFailure → 0 < node.blockingFailures.card

def InvFailedInSet : Prop :=
  ∀ id node, design.nodes.get id = some node → node.state = .completed .failure → 2 ≤ node.buildAttempts →
    id ∈ design.failedDrvs

def InvMaxTwoAttempts : Prop := ∀ id node, design.nodes.get id = some node → node.buildAttempts ≤ 2

def InvBuildQueueNotTerminal : Prop :=
  ∀ id ∈ design.buildQueue, ∃ node, design.nodes.get id = some node ∧ node.state.isTerminal = false

def InvDag : Prop := ∀ id ∈ design.nodes.keys, id ∉ transitiveDependents id design.deps

def InvReferrersConsistent : Prop :=
  ∀ id dependencies, design.deps id = some dependencies →
    ∀ dep ∈ dependencies, ∃ listed, design.referrers dep = some listed ∧ id ∈ listed

def InvNonRetryableInterruptedTracked : Prop :=
  ∀ id node kind, design.nodes.get id = some node → node.state = .interrupted kind → kind.isRetryable = false →
    id ∈ design.failedDrvs

def InvFailedRetryHasAttempts : Prop :=
  ∀ id node, design.nodes.get id = some node → node.state = .failedRetry → 1 ≤ node.buildAttempts

end Pipeline

end EkaCI.Design
