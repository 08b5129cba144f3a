import EkaCI.Scheduler.Rebuild
import Mathlib.Data.Finset.Sort

/-! What a rebuild of a failed drv achieves, and what is left of it when a step fails. -/

namespace EkaCI

open Lib

variable {DrvId : Type} [DecidableEq DrvId]

namespace GraphService

variable {service : GraphService DrvId} {now : Instant} {drvId : DrvId} {newState : DrvBuildState}

theorem maintain_sameDrvs (service : GraphService DrvId) (now : Instant) : SameDrvs service (service.maintain now) where
  blockers drvId := by
    rw [BuildGraph.getFailedDependencies, maintain_getNode, BuildGraph.getFailedDependencies]
  resident := by rw [maintain_nodes]
  shown := by rw [maintain_view]

theorem maintain_stateIn (service : GraphService DrvId) (now : Instant) (place : StatePlace) (drvId : DrvId) :
    (service.maintain now).stateIn place drvId = service.stateIn place drvId := by
  match place with
  | .row => rw [stateIn, maintain_db, stateIn]
  | .memory .sharedView => rw [stateIn, stateAt, maintain_view, stateIn, stateAt]
  | .memory .graph =>
    rw [stateIn, stateAt, BuildGraph.stateOf, maintain_getNode]
    rfl

theorem Touches.maintain {next : GraphService DrvId} (touches : Touches drvId service next) (now : Instant) :
    Touches drvId service (next.maintain now) :=
  touches.trans (.of_same (maintain_sameDrvs next now) (maintain_stateIn next now) drvId)

theorem updateState_stateIn (place : StatePlace) (other : DrvId) :
    (service.updateState now drvId newState).stateIn place other =
      if other = drvId then (service.stateIn place other).map fun _ => newState else service.stateIn place other :=
  match place with
  | .row => Database.updateDrvStatus_rowState ..
  | .memory .sharedView => SharedView.setState_getBuildState ..
  | .memory .graph => BuildGraph.updateState_stateOf ..

theorem updateState_sameDrvs : SameDrvs service (service.updateState now drvId newState) where
  blockers := BuildGraph.updateState_getFailedDependencies
  resident := BuildGraph.updateState_topology.keys
  shown := rfl

theorem map_requeued (held : Option DrvBuildState) (requeued : newState.isRequeued = true) :
    held.map (fun _ => newState) = held ∨
      ∃ state, held.map (fun _ => newState) = some state ∧ state.isRequeued = true := by
  cases held with
  | none => exact .inl rfl
  | some _ => exact .inr ⟨newState, rfl, requeued⟩

theorem updateState_touches (requeued : newState.isRequeued = true) :
    Touches drvId service (service.updateState now drvId newState) where
  toSameDrvs := updateState_sameDrvs
  others place other different := by rw [updateState_stateIn, if_neg different]
  own place := by
    rw [updateState_stateIn, if_pos rfl]
    exact map_requeued _ requeued

theorem updateState_requeued (requeued : newState.isRequeued = true) :
    (service.updateState now drvId newState).Requeued drvId := by
  intro place state found
  rw [updateState_stateIn, if_pos rfl, Option.map_eq_some_iff] at found
  obtain ⟨_, -, rfl⟩ := found
  exact requeued

theorem unwritten_touches (requeued : newState.isRequeued = true) :
    Touches drvId service { service.updateState now drvId newState with db := service.db } where
  blockers := updateState_sameDrvs.blockers
  resident := updateState_sameDrvs.resident
  shown := rfl
  others place other different :=
    match place with
    | .row => rfl
    | .memory copy => (updateState_touches requeued).others (.memory copy) other different
  own place :=
    match place with
    | .row => .inl rfl
    | .memory copy => (updateState_touches requeued).own (.memory copy)

end GraphService

namespace RebuildTask

open GraphService

variable {around : Surroundings DrvId} {drvId : DrvId} {newState : DrvBuildState} {rank : DrvId → Nat}

/-- What a step that writes one drv leaves when it fails. -/
def Fails (around : Surroundings DrvId) (worker : RebuildWorker DrvId) (drvId : DrvId) (error : RebuildError)
    (next : RebuildWorker DrvId) : Prop :=
  error ≠ .outOfFuel ∧ Touches drvId worker.service next.service ∧ ¬ around.Calm

theorem updateState_meets (requeued : newState.isRequeued = true) (worker : RebuildWorker DrvId) :
    Meets (fun _ next => Touches drvId worker.service next.service ∧ next.service.Requeued drvId)
      (Fails around worker drvId) (updateState around drvId newState worker) := by
  unfold updateState
  dsimp only
  split
  · rename_i reply
    refine ⟨by decide, .of_same (.refl _) (fun _ _ => rfl) _, fun calm => ?_⟩
    rw [calm.answered] at reply
    cases reply
  · rename_i reply
    refine ⟨by decide, (unwritten_touches requeued).maintain _, fun calm => ?_⟩
    rw [calm.answered] at reply
    cases reply
  · have written := @updateState_touches _ _ worker.service (around.clock worker.calls) drvId newState requeued
    refine ⟨written.maintain _, fun place state found => ?_⟩
    rw [process, maintain_stateIn] at found
    exact updateState_requeued requeued place state found

theorem trySendBuild_meets (drv : Drv DrvId) (worker : RebuildWorker DrvId) :
    Meets (fun _ next => Touches drvId worker.service next.service) (Fails around worker drvId)
      (trySendBuild around drv worker) :=
  .of_same (.refl _) (fun _ _ => rfl) _

theorem sendRecorderTask_meets (task : RecorderTask DrvId) (worker : RebuildWorker DrvId) :
    Meets (fun _ next => Touches drvId worker.service next.service) (Fails around worker drvId)
      (sendRecorderTask around task worker) := by
  unfold sendRecorderTask
  split
  · exact .of_same (.refl _) (fun _ _ => rfl) _
  · rename_i closed
    exact ⟨by decide, .of_same (.refl _) (fun _ _ => rfl) _, fun calm => closed (calm.recorded _)⟩

theorem handleCheckBuildableTask_meets (worker : RebuildWorker DrvId) :
    Meets (fun _ next => Touches drvId worker.service next.service) (Fails around worker drvId)
      (handleCheckBuildableTask around drvId worker) := by
  have unchanged : Touches drvId worker.service worker.service := .of_same (.refl _) (fun _ _ => rfl) _
  unfold handleCheckBuildableTask
  apply Meets.get_bind
  split
  · rename_i ready
    obtain ⟨node, found, -⟩ := SharedView.isBuildable_iff.mp ready
    rw [found]
    dsimp only
    split
    · exact sendRecorderTask_meets _ worker
    · split
      · exact trySendBuild_meets _ worker
      · apply Meets.bind (updateState_meets rfl worker)
        intro _ next written
        apply Meets.imp (@trySendBuild_meets _ _ around drvId (node.toDrv drvId) next)
        · exact fun _ _ sent => written.1.trans sent
        · exact fun _ _ failed => ⟨failed.1, written.1.trans failed.2.1, failed.2.2⟩
  · exact unchanged

theorem getFailedDependencies_meets (worker : RebuildWorker DrvId) (resident : drvId ∈ worker.service.graph.nodes.keys) :
    Meets (fun failedDeps next => (∀ other, other ∈ failedDeps ↔ worker.service.graph.BlockedBy drvId other) ∧
        RevivesAll ∅ worker.service next.service)
      (fun error next => error ≠ .outOfFuel ∧ Revives ∅ worker.service next.service ∧ ¬ around.Calm)
      (getFailedDependencies around drvId worker) := by
  have kept : ∀ now, RevivesAll ∅ worker.service (worker.service.maintain now) := fun now =>
    .of_same (maintain_sameDrvs _ now) (maintain_stateIn _ now)
  have loaded : ∀ now, worker.service.ensureLoaded now drvId = worker.service := fun now =>
    ensureLoaded_of_resident now (LruCache.contains_iff.mpr resident)
  unfold getFailedDependencies
  dsimp only
  split
  · rename_i reply
    refine ⟨by decide, .refl _ _, fun calm => ?_⟩
    rw [calm.answered] at reply
    cases reply
  · exact ⟨around.mem_iterate _ _, kept _⟩
  · refine ⟨fun other => ?_, ?_⟩
    · rw [around.mem_iterate, loaded, BuildGraph.BlockedBy]
    · have processed : (worker.service.process (around.clock worker.calls) (.getFailedDependencies drvId)).2 =
          (worker.service.ensureLoaded (around.clock worker.calls) drvId).maintain (around.clock worker.calls) := rfl
      rw [processed, loaded]
      exact kept _

/-- What is left when the rebuild of some drvs stops at a step that fails. -/
structure Stopped (around : Surroundings DrvId) (worker : RebuildWorker DrvId) (roots : Set DrvId) (error : RebuildError)
    (next : RebuildWorker DrvId) : Prop where
  fuelled : error ≠ .outOfFuel
  revives : Revives roots worker.service next.service
  disturbed : around.Calm → ∃ other, worker.service.ReachedFrom roots other ∧ other ∉ worker.service.sharedView.keys

variable {worker middle next : RebuildWorker DrvId} {error : RebuildError}

theorem Fails.stopped (fails : Fails around middle drvId error next) (failed : drvId ∈ worker.service.rebuildable)
    (blockers : RevivesAll {blocker | worker.service.graph.BlockedBy drvId blocker} worker.service middle.service) :
    Stopped around worker {drvId} error next where
  fuelled := fails.1
  revives := .visit failed blockers fails.2.1
  disturbed calm := absurd calm fails.2.2

theorem Stopped.blocked {blocker : DrvId} {done : Set DrvId} (stopped : Stopped around middle {blocker} error next)
    (failed : drvId ∈ worker.service.rebuildable) (earlier : Revives done worker.service middle.service)
    (within : done ⊆ {other | worker.service.graph.BlockedBy drvId other})
    (blocks : worker.service.graph.BlockedBy drvId blocker) : Stopped around worker {drvId} error next where
  fuelled := stopped.fuelled
  revives := by
    apply Revives.interrupted failed
    apply (earlier.trans stopped.revives).mono
    exact Set.union_subset within (Set.singleton_subset_iff.mpr blocks)
  disturbed calm := by
    obtain ⟨other, reached, absent⟩ := stopped.disturbed calm
    obtain ⟨root, rfl, path⟩ := earlier.reachedFrom reached
    exact ⟨other, ⟨drvId, rfl, .head ⟨failed, blocks⟩ path⟩, fun member => absent (earlier.shown ▸ member)⟩

/-- A loop over drvs whose rebuilds do what they should. -/
theorem rebuildEach_meets {asked : RebuildWorker DrvId} {rebuild : DrvId → RebuildM DrvId Unit} {list : List DrvId}
    {bad : RebuildError → RebuildWorker DrvId → Prop} (unchanged : RevivesAll ∅ worker.service asked.service)
    (each : ∀ item ∈ list, ∀ next, SameDrvs worker.service next.service →
      Meets (fun _ last => RevivesAll {item} next.service last.service) (Stopped around next {item}) (rebuild item next))
    (after : ∀ item ∈ list, ∀ done ⊆ {other | other ∈ list}, ∀ middle error next,
      Revives done worker.service middle.service → Stopped around middle {item} error next → bad error next) :
    Meets (fun _ revived => RevivesAll {other | other ∈ list} worker.service revived.service) bad
      (list.forM rebuild asked) := by
  -- the drvs that are done have been revived
  apply @Meets.forM _ _ _ _ asked rebuild (fun done next => RevivesAll {other | other ∈ done} worker.service next.service)
  · have none : {other : DrvId | other ∈ ([] : List DrvId)} = ∅ := by simp
    rw [none]
    exact unchanged
  · intro done item rest split next held
    have member : item ∈ list := by
      rw [split]
      exact List.mem_append_right _ List.mem_cons_self
    apply (each item member next held.toSameDrvs).imp
    · intro _ last revived
      have union : {other | other ∈ done ++ [item]} = {other | other ∈ done} ∪ {item} :=
        Set.ext fun other => List.mem_append.trans (or_congr_right List.mem_singleton)
      rw [union]
      exact held.trans revived
    · intro error last stopped
      apply after item member {other | other ∈ done} _ next error last held.toRevives stopped
      exact fun other earlier => split ▸ List.mem_append_left _ earlier

theorem rebuildBlockers_meets {asked : RebuildWorker DrvId} {rebuild : DrvId → RebuildM DrvId Unit}
    {failedDeps : List DrvId} (failed : drvId ∈ worker.service.rebuildable)
    (blockers : ∀ other, other ∈ failedDeps ↔ worker.service.graph.BlockedBy drvId other)
    (unchanged : RevivesAll ∅ worker.service asked.service)
    (each : ∀ blocker, worker.service.graph.BlockedBy drvId blocker → ∀ next, SameDrvs worker.service next.service →
      Meets (fun _ last => RevivesAll {blocker} next.service last.service) (Stopped around next {blocker})
        (rebuild blocker next)) :
    Meets (fun _ revived => RevivesAll {other | worker.service.graph.BlockedBy drvId other} worker.service revived.service)
      (Stopped around worker {drvId}) (failedDeps.forM rebuild asked) := by
  have roots : {other | other ∈ failedDeps} = {other | worker.service.graph.BlockedBy drvId other} := Set.ext blockers
  rw [← roots]
  refine rebuildEach_meets unchanged (fun item member => each item ((blockers item).mp member)) ?_
  intro item member done within middle error next earlier stopped
  exact stopped.blocked failed earlier (roots ▸ within) ((blockers item).mp member)

theorem reset_meets {revived : RebuildWorker DrvId} (failed : drvId ∈ worker.service.rebuildable)
    (held : RevivesAll {other | worker.service.graph.BlockedBy drvId other} worker.service revived.service) :
    Meets (fun _ next => RevivesAll {drvId} worker.service next.service) (Stopped around worker {drvId})
      ((updateState around drvId .queued >>= fun _ => handleCheckBuildableTask around drvId) revived) := by
  apply Meets.bind ((updateState_meets rfl revived).imp (fun _ _ => id) fun _ _ fails => fails.stopped failed held)
  intro _ queued update
  obtain ⟨written, requeued⟩ := update
  apply (handleCheckBuildableTask_meets queued).imp
  · intro _ checked touches
    have ends := touches.requeued requeued
    exact .visit failed held (written.trans touches) ends ends.not_mem_rebuildable
  · exact fun _ _ fails => Fails.stopped ⟨fails.1, written.trans fails.2.1, fails.2.2⟩ failed held

/-- With fuel for its blockers, a rebuild either revives all that the drv waits for, or
stops at a step that fails. -/
theorem handleRebuildFailedTask_meets (fuel : Nat) (worker : RebuildWorker DrvId)
    (descends : ∀ drvId blocker, worker.service.graph.BlockedBy drvId blocker → rank blocker < rank drvId)
    (residents : worker.service.ShowsResidents) (enough : rank drvId < fuel) :
    Meets (fun _ next => RevivesAll {drvId} worker.service next.service) (Stopped around worker {drvId})
      (handleRebuildFailedTask around fuel drvId worker) := by
  induction fuel generalizing drvId worker with
  | zero => exact absurd enough (Nat.not_lt_zero _)
  | succ fuel ih =>
    rw [handleRebuildFailedTask]
    apply Meets.get_bind
    cases found : worker.service.sharedView.get drvId with
    | none =>
      refine ⟨by decide, .refl _ _, fun _ => ⟨drvId, ⟨drvId, rfl, .refl⟩, fun member => ?_⟩⟩
      rw [Table.mem_keys, found] at member
      cases member
    | some node =>
      have shown : worker.service.sharedView.getBuildState drvId = some node.buildState := by
        rw [SharedView.getBuildState, found]
        rfl
      dsimp only
      by_cases rebuilds : node.buildState.isRebuildable = true
      · rw [if_pos rebuilds]
        have failed : drvId ∈ worker.service.rebuildable := ⟨node.buildState, shown, rebuilds⟩
        have resident := residents drvId (Table.mem_keys_of_get found)
        apply Meets.bind ((getFailedDependencies_meets worker resident).imp (fun _ _ => id) _)
        · intro failedDeps asked answer
          apply Meets.bind (rebuildBlockers_meets failed answer.1 answer.2 _) fun _ revived held => reset_meets failed held
          intro blocker blocks next same
          apply ih next (by rwa [same.blockedBy]) (same.showsResidents residents)
          exact Nat.lt_of_lt_of_le (descends drvId blocker blocks) (Nat.le_of_lt_succ enough)
        · intro error next fails
          exact ⟨fails.1, fails.2.1.mono (Set.empty_subset _), fun calm => absurd calm fails.2.2⟩
      · rw [if_neg rebuilds]
        apply RevivesAll.of_not_failed
        rintro ⟨state, held, failed⟩
        rw [shown] at held
        exact rebuilds (Option.some.inj held ▸ failed)

theorem handleRebuildFailedTask_extends (fuel more : Nat) (drvId : DrvId) (worker : RebuildWorker DrvId) :
    Extends (· = .outOfFuel) (handleRebuildFailedTask around fuel drvId worker)
      (handleRebuildFailedTask around (fuel + more) drvId worker) := by
  induction fuel generalizing drvId worker with
  | zero => exact .inr ⟨.outOfFuel, worker, rfl, rfl⟩
  | succ fuel ih =>
    rw [Nat.add_right_comm, handleRebuildFailedTask, handleRebuildFailedTask]
    apply Extends.bind (.refl _ _)
    intro current next
    cases current.service.sharedView.get drvId with
    | none => exact .refl _ _
    | some node =>
      dsimp only
      split
      · apply Extends.bind (.refl _ _)
        intro failedDeps asked
        apply Extends.bind (Extends.forM ih failedDeps asked)
        exact fun _ revived => .refl _ _
      · exact .refl _ _

end RebuildTask

abbrev RebuildResult (DrvId : Type) := EStateM.Result RebuildError (RebuildWorker DrvId) Unit

namespace RebuildTask

open GraphService

/-- The rebuild ends with the result: with fuel enough it is not cut off. -/
structure Ends (around : Surroundings DrvId) (drvId : DrvId) (worker : RebuildWorker DrvId)
    (result : RebuildResult DrvId) : Prop where
  reached : ∃ enough, ∀ fuel, enough ≤ fuel → handleRebuildFailedTask around fuel drvId worker = result
  fuelled : raised result ≠ some .outOfFuel

/-- What a drv waits for, itself included. -/
def Chain (service : GraphService DrvId) (drvId other : DrvId) : Prop :=
  Relation.ReflTransGen service.graph.BlockedBy drvId other

/-- What a rebuild of the whole chain would be: it ends, changes no other drv, and either
revives every drv of the chain or resets none that still blocks a failed one. -/
structure RevivesChain (around : Surroundings DrvId) (worker : RebuildWorker DrvId) (drvId : DrvId) : Prop where
  ends : ∃ result, Ends around drvId worker result
  frame : ∀ result, Ends around drvId worker result → ∀ other, ¬ Chain worker.service drvId other →
    ∀ place, (finalState result).service.stateIn place other = worker.service.stateIn place other
  revived : ∀ result, Ends around drvId worker result → raised result = none →
    ∀ other, Chain worker.service drvId other → ∃ state,
      (finalState result).service.sharedView.getBuildState other = some state ∧
        state.isRequeued = true ∧ state.isFailure = false
  whole : ∀ result, Ends around drvId worker result → raised result ≠ none →
    ∀ dependent, Chain worker.service drvId dependent → (∃ state,
      (finalState result).service.sharedView.getBuildState dependent = some state ∧
        (state.isFailure = true ∨ state = .failedRetry)) →
      ∀ other, worker.service.graph.BlockedBy dependent other →
        (finalState result).service.sharedView.getBuildState other = worker.service.sharedView.getBuildState other

/-- What a rebuild does: it revives what it finds in the three states that it resets,
each drv after its blockers, and a later rebuild goes on where one has stopped. -/
structure RevivesFailed (around : Surroundings DrvId) (worker : RebuildWorker DrvId) (drvId : DrvId) : Prop where
  ends : ∃ result, Ends around drvId worker result
  frame : ∀ result, Ends around drvId worker result → ∀ other, ¬ Chain worker.service drvId other →
    ∀ place, (finalState result).service.stateIn place other = worker.service.stateIn place other
  spares : ∀ result, Ends around drvId worker result → ∀ other state,
    worker.service.sharedView.getBuildState other = some state → state.isFailure = false → state ≠ .failedRetry →
      ∀ place, (finalState result).service.stateIn place other = worker.service.stateIn place other
  returns : around.Calm → (∀ other, worker.service.ReachedFrom {drvId} other → other ∈ worker.service.sharedView.keys) →
    ∀ result, Ends around drvId worker result → raised result = none
  revived : ∀ result, Ends around drvId worker result → raised result = none →
    ∀ other ∈ worker.service.rebuildable, worker.service.ReachedFrom {drvId} other →
      (finalState result).service.Requeued other ∧ ∃ state,
        (finalState result).service.sharedView.getBuildState other = some state ∧ state.isRequeued = true
  ordered : ∀ result, Ends around drvId worker result → ∀ other ∈ worker.service.rebuildable,
    other ∉ (finalState result).service.rebuildable → ∀ blocker ∈ worker.service.rebuildable,
      worker.service.graph.BlockedBy other blocker → ∃ state,
        (finalState result).service.sharedView.getBuildState blocker = some state ∧ state.isRequeued = true
  resumed : ∀ result, Ends around drvId worker result → ∀ later again, Ends later drvId (finalState result) again →
    raised again = none → ∀ other ∈ worker.service.rebuildable, worker.service.ReachedFrom {drvId} other → ∃ state,
      (finalState again).service.sharedView.getBuildState other = some state ∧ state.isRequeued = true

section Ends

variable {around : Surroundings DrvId} {drvId : DrvId} {worker : RebuildWorker DrvId} {result again : RebuildResult DrvId}
  {rank : DrvId → Nat}

/-- How a rebuild from some roots is to end. -/
abbrev Outcome (around : Surroundings DrvId) (worker : RebuildWorker DrvId) (roots : Set DrvId) :
    RebuildResult DrvId → Prop :=
  Meets (fun _ next => RevivesAll roots worker.service next.service) (Stopped around worker roots)

variable {roots : Set DrvId} {other blocker : DrvId} {r : Nat → RebuildResult DrvId} {fuel : Nat}

theorem Outcome.revives (outcome : Outcome around worker roots result) :
    Revives roots worker.service (finalState result).service := by
  cases result with
  | ok _ next => exact RevivesAll.toRevives outcome
  | error _ next => exact Stopped.revives outcome

theorem Outcome.all (outcome : Outcome around worker roots result) (ok : raised result = none) :
    RevivesAll roots worker.service (finalState result).service := by
  cases result with
  | ok _ next => exact outcome
  | error _ next => cases ok

theorem Outcome.fuelled (outcome : Outcome around worker roots result) : raised result ≠ some .outOfFuel := by
  cases result with
  | ok _ next => simp [raised]
  | error error next => exact fun cut => Stopped.fuelled outcome (Option.some.inj cut)

theorem Outcome.returns (outcome : Outcome around worker roots result) (calm : around.Calm)
    (shown : ∀ other, worker.service.ReachedFrom roots other → other ∈ worker.service.sharedView.keys) :
    raised result = none := by
  cases result with
  | ok _ next => rfl
  | error _ next =>
    obtain ⟨other, reached, absent⟩ := Stopped.disturbed outcome calm
    exact absurd (shown other reached) absent

theorem Outcome.revived (outcome : Outcome around worker roots result) (ok : raised result = none)
    (failed : other ∈ worker.service.rebuildable) (reached : worker.service.ReachedFrom roots other) :
    (finalState result).service.Requeued other ∧ ∃ state,
      (finalState result).service.sharedView.getBuildState other = some state ∧ state.isRequeued = true := by
  have all := outcome.all ok
  obtain ⟨root, member, path⟩ := reached
  have lost := all.complete root member other path
  exact ⟨all.requeued other failed lost, all.shown_requeued failed lost⟩

theorem Outcome.ordered (outcome : Outcome around worker roots result) (failed : other ∈ worker.service.rebuildable)
    (lost : other ∉ (finalState result).service.rebuildable) (held : blocker ∈ worker.service.rebuildable)
    (blocks : worker.service.graph.BlockedBy other blocker) : ∃ state,
      (finalState result).service.sharedView.getBuildState blocker = some state ∧ state.isRequeued = true := by
  have revives := outcome.revives
  exact revives.shown_requeued held (revives.cleared.ordered other failed lost blocker blocks)

omit [DecidableEq DrvId] in
/-- A run that is not cut off is the same with more fuel. -/
theorem reached_of_fuel (fuelled : raised (r fuel) ≠ some .outOfFuel)
    (longer : ∀ more, Extends (· = .outOfFuel) (r fuel) (r (fuel + more))) :
    ∃ enough, ∀ larger, enough ≤ larger → r larger = r fuel := by
  refine ⟨fuel, fun larger enough => ?_⟩
  obtain ⟨more, rfl⟩ := Nat.exists_eq_add_of_le enough
  rcases longer more with same | ⟨error, next, ended, rfl⟩
  · exact same
  · rw [ended] at fuelled
    exact absurd rfl fuelled

omit [DecidableEq DrvId] in
theorem eq_of_reached (reached : ∃ enough, ∀ fuel, enough ≤ fuel → r fuel = result)
    (also : ∃ enough, ∀ fuel, enough ≤ fuel → r fuel = again) : again = result := by
  obtain ⟨enough, reached⟩ := reached
  obtain ⟨needed, met⟩ := also
  rw [← reached (max enough needed) (Nat.le_max_left ..), ← met (max enough needed) (Nat.le_max_right ..)]

theorem ends_of_fuel (fuelled : raised (handleRebuildFailedTask around fuel drvId worker) ≠ some .outOfFuel) :
    Ends around drvId worker (handleRebuildFailedTask around fuel drvId worker) where
  reached := reached_of_fuel (r := (handleRebuildFailedTask around · drvId worker)) fuelled fun more =>
    handleRebuildFailedTask_extends fuel more drvId worker
  fuelled := fuelled

/-- Blockers that rank below what they block. -/
structure Ranked (rank : DrvId → Nat) (service : GraphService DrvId) : Prop where
  descends : ∀ drvId blocker, service.graph.BlockedBy drvId blocker → rank blocker < rank drvId
  residents : service.ShowsResidents

omit [DecidableEq DrvId] in
theorem Ranked.of_same {before after : GraphService DrvId} (ranked : Ranked rank before) (same : SameDrvs before after) :
    Ranked rank after where
  descends drvId blocker blocks := ranked.descends drvId blocker (same.blockedBy ▸ blocks)
  residents := same.showsResidents ranked.residents

theorem Ranked.exists_ends (ranked : Ranked rank worker.service) (around : Surroundings DrvId) (drvId : DrvId) :
    ∃ result, Ends around drvId worker result ∧ Outcome around worker {drvId} result := by
  have outcome := @handleRebuildFailedTask_meets _ _ around drvId rank (rank drvId + 1) worker ranked.descends
    ranked.residents (Nat.lt_succ_self _)
  exact ⟨_, ends_of_fuel (Outcome.fuelled outcome), outcome⟩

theorem Ranked.outcome (ranked : Ranked rank worker.service) (ends : Ends around drvId worker result) :
    Outcome around worker {drvId} result := by
  obtain ⟨end', also, outcome⟩ := ranked.exists_ends around drvId
  exact eq_of_reached ends.reached also.reached ▸ outcome

omit [DecidableEq DrvId] in
theorem chain_of_reachedFrom {service : GraphService DrvId} {other : DrvId} (reached : service.ReachedFrom {drvId} other) :
    Chain service drvId other := by
  obtain ⟨_, rfl, path⟩ := reached
  exact Relation.ReflTransGen.mono (fun _ _ step => step.2) _ _ path

theorem Ranked.revivesFailed (ranked : Ranked rank worker.service) (around : Surroundings DrvId) (drvId : DrvId) :
    RevivesFailed around worker drvId where
  ends :=
    let ⟨result, ends, _⟩ := ranked.exists_ends around drvId
    ⟨result, ends⟩
  frame result ends other outside place := by
    rcases (ranked.outcome ends).revives.states place other with same | ⟨-, reached, -⟩
    · exact same
    · exact absurd (chain_of_reachedFrom reached) outside
  spares result ends other state shown fine fresh place := by
    rcases (ranked.outcome ends).revives.states place other with same | ⟨⟨held, found, failed⟩, -, -⟩
    · exact same
    · obtain rfl : state = held := Option.some.inj (shown.symm.trans found)
      rw [DrvBuildState.isFailure_of_isRebuildable failed fresh] at fine
      cases fine
  returns calm shown result ends := (ranked.outcome ends).returns calm shown
  revived result ends ok other failed reached := (ranked.outcome ends).revived ok failed reached
  ordered result ends other failed lost blocker held blocks := (ranked.outcome ends).ordered failed lost held blocks
  resumed result ends later again repeated ok other failed reached := by
    have first := (ranked.outcome ends).revives
    have second := ((ranked.of_same first.toSameDrvs).outcome repeated).all ok
    have complete := second.complete
    rw [first.blockedBy] at complete
    obtain ⟨root, member, path⟩ := reached
    have lost := ClearsAll.resume first.cleared complete second.cleared.within root member other path
    exact (first.trans second.toRevives).shown_requeued failed lost

end Ends

/-- For references without cycles, whatever has happened to the service so far and
whatever happens around it, a rebuild revives the failed drvs that a drv waits for. -/
theorem rebuild_revivesFailed {edges : List (DrvId × DrvId)} (acyclic : Acyclic edges) (worker : RebuildWorker DrvId)
    (reached : Reached edges worker.service) (around : Surroundings DrvId) (drvId : DrvId) :
    RevivesFailed around worker drvId := by
  obtain ⟨rank, descends⟩ := acyclic.exists_rank
  have rests := reached.restsOn
  have ranked : Ranked rank worker.service :=
    ⟨fun drvId blocker blocks => descends drvId blocker (rests.graph.blockers drvId blocker blocks), rests.shown⟩
  exact ranked.revivesFailed around drvId

section Pair

open SharedEvent

def queuedPair : GraphService Nat :=
  new (Database.empty.insertDrvsAndReferences [.plain 0 .queued, .plain 1 .queued] [(1, 0)]) 3 (Nat.succ_pos 2) 0

/-- One drv needs the other, which has failed. -/
def failedPair : GraphService Nat :=
  (queuedPair.happen (command 0 (.updateState 0 (.completed .failure)))).happen (command 0 (.propagateFailure 0))

theorem failedPair_reached : Reached [(1, 0)] failedPair := by
  have started : Reached [(1, 0)] queuedPair := .new _ 3 _ 0 (List.Subset.refl _)
  have failed := started.step (command 0 (.updateState 0 (.completed .failure))) (List.nil_subset _)
  exact failed.step (command 0 (.propagateFailure 0)) (List.nil_subset _)

/-- The other one is being built again. -/
def rebuiltPair : GraphService Nat := failedPair.happen (command 0 (.updateState 0 .building))

def idleWorker (service : GraphService Nat) : RebuildWorker Nat where
  service := service
  recorderQueue := []
  buildQueue := []
  calls := 0

/-- Surroundings in which only the graph service may fail. -/
def plainSurroundings (reply : Nat → GraphReply) : Surroundings Nat where
  builderFeatures := ⟨[([], [])]⟩
  clock := fun _ => 0
  reply := reply
  recorderOpen := fun _ => true
  buildRoom := fun _ => true
  iterate := fun _ set => set.sort
  mem_iterate := fun _ _ _ => Finset.mem_sort _

theorem failedPair_revivesFailed :
    RevivesFailed (plainSurroundings fun call => if call = 4 then .stopped else .answered) (idleWorker failedPair) 1 :=
  rebuild_revivesFailed (acyclic_of_rank id (by decide)) (idleWorker failedPair) failedPair_reached _ 1

/-- The graph service stops before the second drv is reset: the first one is queued and
still blocks it. And a blocker that is being built is left as it is. -/
theorem stoppedRebuild_not_revivesChain :
    (Acyclic [(1, 0)] ∧ Reached [(1, 0)] failedPair ∧ 1 ∈ failedPair.rebuildable ∧
      ¬ RevivesChain (plainSurroundings fun call => if call = 4 then .stopped else .answered) (idleWorker failedPair) 1) ∧
    Reached [(1, 0)] rebuiltPair ∧ 1 ∈ rebuiltPair.rebuildable ∧
      ¬ RevivesChain (plainSurroundings fun _ => .answered) (idleWorker rebuiltPair) 1 := by
  refine ⟨⟨acyclic_of_rank id (by decide), failedPair_reached, ⟨.transitiveFailure, by decide, rfl⟩,
    fun revives => ?_⟩, .step failedPair_reached _ (List.nil_subset _), ⟨.transitiveFailure, by decide, rfl⟩,
    fun revives => ?_⟩
  · let around := plainSurroundings fun call => if call = 4 then .stopped else .answered
    have ends : Ends around 1 (idleWorker failedPair) (handleRebuildFailedTask around 2 1 (idleWorker failedPair)) :=
      ends_of_fuel (by decide +kernel)
    have blocks : failedPair.graph.BlockedBy 1 0 := by
      unfold BuildGraph.BlockedBy
      decide
    have kept := revives.whole _ ends (by decide +kernel) 1 .refl ⟨.transitiveFailure, by decide +kernel, .inl rfl⟩ 0 blocks
    revert kept
    decide +kernel
  · let around := plainSurroundings fun _ => .answered
    have ends : Ends around 1 (idleWorker rebuiltPair) (handleRebuildFailedTask around 2 1 (idleWorker rebuiltPair)) :=
      ends_of_fuel (by decide +kernel)
    have blocks : rebuiltPair.graph.BlockedBy 1 0 := by
      unfold BuildGraph.BlockedBy
      decide
    obtain ⟨state, found, requeued, -⟩ := revives.revived _ ends (by decide +kernel) 0 (.single blocks)
    have building : (finalState (handleRebuildFailedTask around 2 1 (idleWorker rebuiltPair))).service.sharedView.getBuildState
        0 = some .building := by decide +kernel
    obtain rfl : .building = state := Option.some.inj (building.symm.trans found)
    cases requeued

end Pair

end RebuildTask

end EkaCI
