import EkaCI.Graph.Blockers
import EkaCI.Graph.Immunity
import EkaCI.Lib.Attempt
import EkaCI.Scheduler.System

/-! A rebuild of a failed drv, from beginning to end: what blocks the drv is rebuilt
first, one blocker after the other, and then the drv itself is queued and checked. The
rebuild stops at the first step that fails, and nothing that it has done is undone. -/

namespace EkaCI

open Lib

variable {DrvId : Type}

namespace DrvBuildState

/-- The states that a rebuild takes a drv out of. -/
def isRebuildable : DrvBuildState → Bool
  | .completed .failure | .transitiveFailure | .failedRetry => true
  | _ => false

/-- The states that a rebuild leaves a drv in. -/
def isRequeued : DrvBuildState → Bool
  | .queued | .buildable => true
  | _ => false

theorem isRequeued_of_isRebuildable {state : DrvBuildState} (failed : state.isRebuildable = true) :
    state.isRequeued = false := by
  cases state <;> first | rfl | cases failed

theorem isFailure_of_isRebuildable {state : DrvBuildState} (failed : state.isRebuildable = true)
    (final : state ≠ .failedRetry) : state.isFailure = true := by
  cases state with
  | completed result => cases result <;> first | rfl | cases failed
  | failedRetry => exact absurd rfl final
  | transitiveFailure => rfl
  | _ => cases failed

end DrvBuildState

inductive RebuildError where
  | drvNotFound
  | missingFromGraph
  | noReply
  | recorderClosed
  /-- The recursion is deeper than its bound, which the source does not have. -/
  | outOfFuel
  deriving DecidableEq

/-- How the graph service takes a call. An update that the database refuses has been
made in memory by then. -/
inductive GraphReply where
  | answered
  | databaseDown
  | stopped

structure RebuildWorker (DrvId : Type) where
  service : GraphService DrvId
  recorderQueue : List (RecorderTask DrvId)
  buildQueue : List (Drv DrvId)
  /-- The calls of the graph service that were made. -/
  calls : Nat

/-- What a rebuild does not decide itself, call by call of the graph service: the
times, the replies, whether the other services take a message, and the order in which
a hash set of drvs is iterated. -/
structure Surroundings (DrvId : Type) where
  builderFeatures : BuilderFeatureSnapshot
  clock : Nat → Instant
  reply : Nat → GraphReply
  recorderOpen : Nat → Bool
  buildRoom : Nat → Bool
  iterate : Nat → Finset DrvId → List DrvId
  mem_iterate : ∀ call set drvId, drvId ∈ iterate call set ↔ drvId ∈ set

/-- No step fails. -/
structure Surroundings.Calm (around : Surroundings DrvId) : Prop where
  answered : ∀ call, around.reply call = .answered
  recorded : ∀ call, around.recorderOpen call = true

abbrev RebuildM (DrvId A : Type) := EStateM RebuildError (RebuildWorker DrvId) A

namespace RebuildTask

variable [DecidableEq DrvId] (around : Surroundings DrvId)

/-- The failed drvs that block a drv, which is reloaded if it was evicted. Without the
database nothing is reloaded. -/
def getFailedDependencies (drvId : DrvId) : RebuildM DrvId (List DrvId) := fun worker =>
  let now := around.clock worker.calls
  let called := { worker with calls := worker.calls + 1 }
  match around.reply worker.calls with
  | .stopped => .error .noReply called
  | .databaseDown =>
    .ok (around.iterate worker.calls (worker.service.graph.getFailedDependencies drvId))
      { called with service := worker.service.maintain now }
  | .answered =>
    let loaded := worker.service.ensureLoaded now drvId
    .ok (around.iterate worker.calls (loaded.graph.getFailedDependencies drvId))
      { called with service := (worker.service.process now (.getFailedDependencies drvId)).2 }

def updateState (drvId : DrvId) (newState : DrvBuildState) : RebuildM DrvId Unit := fun worker =>
  let now := around.clock worker.calls
  let called := { worker with calls := worker.calls + 1 }
  match around.reply worker.calls with
  | .stopped => .error .noReply called
  | .databaseDown =>
    let changed := { worker.service.updateState now drvId newState with db := worker.service.db }
    .error .noReply { called with service := changed.maintain now }
  | .answered => .ok () { called with service := (worker.service.process now (.updateState drvId newState)).2 }

def sendRecorderTask (task : RecorderTask DrvId) : RebuildM DrvId Unit := fun worker =>
  if around.recorderOpen worker.calls then .ok () { worker with recorderQueue := worker.recorderQueue ++ [task] }
  else .error .recorderClosed worker

def trySendBuild (drv : Drv DrvId) : RebuildM DrvId Unit := fun worker =>
  .ok () { worker with
    buildQueue := if around.buildRoom worker.calls then worker.buildQueue ++ [drv] else worker.buildQueue }

def handleCheckBuildableTask (drvId : DrvId) : RebuildM DrvId Unit := do
  let worker ← get
  if worker.service.sharedView.isBuildable drvId then
    match worker.service.sharedView.get drvId with
    | none => throw .missingFromGraph
    | some cachedNode =>
      if around.builderFeatures.canBuild cachedNode.requiredSystemFeatures = false then
        sendRecorderTask around ⟨drvId, .unsatisfiableRequirements⟩
      -- a spent attempt stays visible
      else if cachedNode.buildState = .failedRetry then trySendBuild around (cachedNode.toDrv drvId)
      else
        updateState around drvId .buildable
        trySendBuild around (cachedNode.toDrv drvId)
  else pure ()

/-- The fuel bounds the depth of the recursion. -/
def handleRebuildFailedTask : Nat → DrvId → RebuildM DrvId Unit
  | 0, _ => throw .outOfFuel
  | fuel + 1, drvId => do
    let worker ← get
    match worker.service.sharedView.get drvId with
    | none => throw .drvNotFound
    | some node =>
      if node.buildState.isRebuildable then
        let failedDeps ← getFailedDependencies around drvId
        failedDeps.forM (handleRebuildFailedTask fuel)
        updateState around drvId .queued
        handleCheckBuildableTask around drvId
      else pure ()

end RebuildTask

/-- Where the state of a drv is kept. -/
inductive StatePlace where
  | memory (copy : StateCopy)
  | row

namespace GraphService

def stateIn [DecidableEq DrvId] (service : GraphService DrvId) : StatePlace → DrvId → Option DrvBuildState
  | .memory copy, drvId => service.stateAt copy drvId
  | .row, drvId => service.db.rowState drvId

/-- The drvs that a rebuild would reset. -/
def rebuildable (service : GraphService DrvId) : Set DrvId :=
  {drvId | ∃ state, service.sharedView.getBuildState drvId = some state ∧ state.isRebuildable = true}

/-- The drv is back in the queue wherever its state is kept. -/
def Requeued [DecidableEq DrvId] (service : GraphService DrvId) (drvId : DrvId) : Prop :=
  ∀ place state, service.stateIn place drvId = some state → state.isRequeued = true

/-- The same drvs are resident and shown, with the same blockers. -/
structure SameDrvs (before after : GraphService DrvId) : Prop where
  blockers : ∀ drvId, after.graph.getFailedDependencies drvId = before.graph.getFailedDependencies drvId
  resident : after.graph.nodes.keys = before.graph.nodes.keys
  shown : after.sharedView.keys = before.sharedView.keys

/-- One drv may have been put back into the queue. -/
structure Touches [DecidableEq DrvId] (drvId : DrvId) (before after : GraphService DrvId) : Prop
    extends SameDrvs before after where
  others : ∀ place other, other ≠ drvId → after.stateIn place other = before.stateIn place other
  own : ∀ place, after.stateIn place drvId = before.stateIn place drvId ∨
    ∃ state, after.stateIn place drvId = some state ∧ state.isRequeued = true

/-- The drvs that lead to one from the roots were failed. -/
def ReachedFrom (service : GraphService DrvId) (roots : Set DrvId) (drvId : DrvId) : Prop :=
  ∃ root ∈ roots, MarkedPath service.graph.BlockedBy service.rebuildable root drvId

/-- Some of the failed drvs that the roots wait for were put back into the queue, none
before its blockers. -/
structure Revives [DecidableEq DrvId] (roots : Set DrvId) (before after : GraphService DrvId) : Prop
    extends SameDrvs before after where
  cleared : ClearsFrom before.graph.BlockedBy roots before.rebuildable after.rebuildable
  states : ∀ place drvId, after.stateIn place drvId = before.stateIn place drvId ∨
    (drvId ∈ before.rebuildable ∧ before.ReachedFrom roots drvId ∧
      ∃ state, after.stateIn place drvId = some state ∧ state.isRequeued = true)

/-- All of them were. -/
structure RevivesAll [DecidableEq DrvId] (roots : Set DrvId) (before after : GraphService DrvId) : Prop
    extends Revives roots before after where
  complete : ClearsAll before.graph.BlockedBy roots before.rebuildable after.rebuildable
  requeued : ∀ drvId ∈ before.rebuildable, drvId ∉ after.rebuildable → after.Requeued drvId

section Changes

variable {before middle after : GraphService DrvId} {drvId other : DrvId} {roots more : Set DrvId}

namespace SameDrvs

theorem refl (service : GraphService DrvId) : SameDrvs service service := ⟨fun _ => rfl, rfl, rfl⟩

theorem trans (first : SameDrvs before middle) (second : SameDrvs middle after) : SameDrvs before after where
  blockers drvId := (second.blockers drvId).trans (first.blockers drvId)
  resident := second.resident.trans first.resident
  shown := second.shown.trans first.shown

theorem blockedBy (same : SameDrvs before after) : after.graph.BlockedBy = before.graph.BlockedBy := by
  funext drvId blocker
  rw [BuildGraph.BlockedBy, same.blockers, BuildGraph.BlockedBy]

theorem showsResidents (same : SameDrvs before after) (shown : before.ShowsResidents) : after.ShowsResidents :=
  shown.of_keys (fun _ member => same.shown ▸ member) same.resident

end SameDrvs

theorem mem_rebuildable : drvId ∈ before.rebuildable ↔
    ∃ state, before.sharedView.getBuildState drvId = some state ∧ state.isRebuildable = true := Iff.rfl

variable [DecidableEq DrvId]

theorem mem_rebuildable_congr
    (same : after.stateIn (.memory .sharedView) drvId = before.stateIn (.memory .sharedView) drvId) :
    drvId ∈ after.rebuildable ↔ drvId ∈ before.rebuildable := by
  have view : after.sharedView.getBuildState drvId = before.sharedView.getBuildState drvId := same
  rw [mem_rebuildable, mem_rebuildable, view]

theorem not_mem_rebuildable {state : DrvBuildState} (shown : after.stateIn (.memory .sharedView) drvId = some state)
    (requeued : state.isRequeued = true) : drvId ∉ after.rebuildable := by
  rintro ⟨other, found, failed⟩
  obtain rfl : state = other := Option.some.inj (shown.symm.trans found)
  rw [DrvBuildState.isRequeued_of_isRebuildable failed] at requeued
  cases requeued

theorem Requeued.not_mem_rebuildable (queued : after.Requeued drvId) : drvId ∉ after.rebuildable := by
  rintro ⟨state, found, failed⟩
  have requeued := queued (.memory .sharedView) state found
  rw [DrvBuildState.isRequeued_of_isRebuildable failed] at requeued
  cases requeued

namespace Touches

theorem of_same (same : SameDrvs before after)
    (states : ∀ place other, after.stateIn place other = before.stateIn place other) (drvId : DrvId) :
    Touches drvId before after where
  toSameDrvs := same
  others place other _ := states place other
  own place := .inl (states place drvId)

theorem trans (first : Touches drvId before middle) (second : Touches drvId middle after) :
    Touches drvId before after where
  toSameDrvs := first.toSameDrvs.trans second.toSameDrvs
  others place other different := (second.others place other different).trans (first.others place other different)
  own place := by
    rcases second.own place with same | changed
    · rw [same]
      exact first.own place
    · exact .inr changed

theorem requeued (touches : Touches drvId before after) (queued : before.Requeued drvId) : after.Requeued drvId := by
  intro place state found
  rcases touches.own place with same | ⟨changed, held, requeued⟩
  · exact queued place state (same ▸ found)
  · obtain rfl : changed = state := Option.some.inj (held.symm.trans found)
    exact requeued

theorem rebuildable_subset (touches : Touches drvId before after) : after.rebuildable ⊆ before.rebuildable := by
  intro other failed
  by_cases same : other = drvId
  · subst same
    rcases touches.own (.memory .sharedView) with kept | ⟨state, held, requeued⟩
    · exact (mem_rebuildable_congr kept).mp failed
    · exact absurd failed (not_mem_rebuildable held requeued)
  · exact (mem_rebuildable_congr (touches.others _ other same)).mp failed

end Touches

namespace Revives

theorem of_same (same : SameDrvs before after)
    (states : ∀ place other, after.stateIn place other = before.stateIn place other) (roots : Set DrvId) :
    Revives roots before after where
  toSameDrvs := same
  cleared := by
    have failed : after.rebuildable = before.rebuildable := Set.ext fun _ => mem_rebuildable_congr (states _ _)
    rw [failed]
    exact .refl ..
  states place drvId := .inl (states place drvId)

theorem refl (service : GraphService DrvId) (roots : Set DrvId) : Revives roots service service :=
  of_same (.refl service) (fun _ _ => rfl) roots

theorem mono (revives : Revives roots before after) (wider : roots ⊆ more) : Revives more before after where
  toSameDrvs := revives.toSameDrvs
  cleared := revives.cleared.mono wider
  states place drvId := (revives.states place drvId).imp_right fun ⟨failed, ⟨root, member, path⟩, changed⟩ =>
    ⟨failed, ⟨root, wider member, path⟩, changed⟩

theorem reachedFrom (first : Revives roots before middle) (reached : middle.ReachedFrom more drvId) :
    before.ReachedFrom more drvId := by
  obtain ⟨root, member, path⟩ := reached
  rw [first.blockedBy] at path
  exact ⟨root, member, path.mono first.cleared.within⟩

theorem trans (first : Revives roots before middle) (second : Revives more middle after) :
    Revives (roots ∪ more) before after where
  toSameDrvs := first.toSameDrvs.trans second.toSameDrvs
  cleared := by
    have later := second.cleared
    rw [first.blockedBy] at later
    exact first.cleared.trans later
  states place drvId := by
    rcases second.states place drvId with same | ⟨failed, reached, changed⟩
    · rw [same]
      exact (first.mono Set.subset_union_left).states place drvId
    · obtain ⟨root, member, path⟩ := first.reachedFrom reached
      exact .inr ⟨first.cleared.within failed, ⟨root, .inr member, path⟩, changed⟩

theorem keeps_requeued (revives : Revives roots before after) (queued : before.Requeued drvId) : after.Requeued drvId := by
  intro place state found
  rcases revives.states place drvId with same | ⟨-, -, changed, held, requeued⟩
  · exact queued place state (same ▸ found)
  · obtain rfl : changed = state := Option.some.inj (held.symm.trans found)
    exact requeued

theorem shown_requeued (revives : Revives roots before after) (failed : drvId ∈ before.rebuildable)
    (lost : drvId ∉ after.rebuildable) :
    ∃ state, after.sharedView.getBuildState drvId = some state ∧ state.isRequeued = true := by
  rcases revives.states (.memory .sharedView) drvId with same | ⟨-, -, changed⟩
  · exact absurd ((mem_rebuildable_congr same).mpr failed) lost
  · exact changed

theorem interrupted (failed : drvId ∈ before.rebuildable)
    (blockers : Revives {blocker | before.graph.BlockedBy drvId blocker} before after) : Revives {drvId} before after where
  toSameDrvs := blockers.toSameDrvs
  cleared := .interrupted failed blockers.cleared
  states place other := (blockers.states place other).imp_right fun ⟨held, ⟨_, edge, path⟩, changed⟩ =>
    ⟨held, ⟨drvId, rfl, .head ⟨failed, edge⟩ path⟩, changed⟩

theorem visit (failed : drvId ∈ before.rebuildable)
    (blockers : RevivesAll {blocker | before.graph.BlockedBy drvId blocker} before middle)
    (touches : Touches drvId middle after) : Revives {drvId} before after where
  toSameDrvs := blockers.toSameDrvs.trans touches.toSameDrvs
  cleared := by
    apply ClearsFrom.visit failed blockers.cleared blockers.complete _ touches.rebuildable_subset
    exact fun other different => mem_rebuildable_congr (touches.others _ other different)
  states place other := by
    have earlier := (interrupted failed blockers.toRevives).states place other
    by_cases same : other = drvId
    · subst same
      rcases touches.own place with kept | changed
      · rw [kept]
        exact earlier
      · exact .inr ⟨failed, ⟨other, rfl, .refl⟩, changed⟩
    · rw [touches.others place other same]
      exact earlier

end Revives

namespace RevivesAll

theorem trans (first : RevivesAll roots before middle) (second : RevivesAll more middle after) :
    RevivesAll (roots ∪ more) before after where
  toRevives := first.toRevives.trans second.toRevives
  complete := by
    have later := second.complete
    rw [first.blockedBy] at later
    exact first.complete.trans first.cleared second.cleared.within later
  requeued drvId failed lost := by
    by_cases kept : drvId ∈ middle.rebuildable
    · exact second.requeued drvId kept lost
    · exact second.keeps_requeued (first.requeued drvId failed kept)

theorem of_same (same : SameDrvs before after)
    (states : ∀ place other, after.stateIn place other = before.stateIn place other) :
    RevivesAll (∅ : Set DrvId) before after where
  toRevives := .of_same same states ∅
  complete := fun _ member => absurd member (Set.notMem_empty _)
  requeued := fun _ failed lost => absurd ((mem_rebuildable_congr (states _ _)).mpr failed) lost

theorem of_not_failed (fine : drvId ∉ before.rebuildable) : RevivesAll {drvId} before before where
  toRevives := .refl before {drvId}
  complete := .of_unmarked fine
  requeued := fun _ failed lost => absurd failed lost

theorem visit (failed : drvId ∈ before.rebuildable)
    (blockers : RevivesAll {blocker | before.graph.BlockedBy drvId blocker} before middle)
    (touches : Touches drvId middle after) (queued : after.Requeued drvId) (lost : drvId ∉ after.rebuildable) :
    RevivesAll {drvId} before after where
  toRevives := .visit failed blockers touches
  complete := blockers.complete.visit touches.rebuildable_subset lost
  requeued other held gone := by
    by_cases same : other = drvId
    · exact same ▸ queued
    · intro place state found
      rw [touches.others place other same] at found
      rw [mem_rebuildable_congr (touches.others _ other same)] at gone
      exact blockers.requeued other held gone place state found

end RevivesAll

end Changes

end GraphService

end EkaCI
