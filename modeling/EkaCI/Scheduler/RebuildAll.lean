import EkaCI.Scheduler.Revival

/-! All failed drvs are rebuilt, one after the other, in the order in which the
graph lists them. The list is taken once, from the index by state, and the first
rebuild that fails ends the loop. -/

namespace EkaCI.RebuildTask

open Lib GraphService

variable {DrvId : Type} [DecidableEq DrvId]

section Task

variable (around : Surroundings DrvId)

/-- The drvs that the graph lists as failed. Nothing is reloaded for this, so the
database is not asked. -/
def getAllFailedDrvs : RebuildM DrvId (List DrvId) := fun worker =>
  let now := around.clock worker.calls
  let called := { worker with calls := worker.calls + 1 }
  match around.reply worker.calls with
  | .stopped => .error .noReply called
  | .databaseDown | .answered =>
    .ok (around.iterate worker.calls (worker.service.graph.getDrvsByState (.completed .failure)))
      { called with service := (worker.service.process now .getAllFailedDrvs).2 }

/-- The fuel bounds the depth of each rebuild. -/
def handleRebuildAllFailedTask (fuel : Nat) : RebuildM DrvId Unit := do
  let failedDrvs ← getAllFailedDrvs around
  failedDrvs.forM (handleRebuildFailedTask around fuel)

end Task

omit [DecidableEq DrvId] in
/-- The drvs that the graph lists as failed. -/
def Listed (service : GraphService DrvId) : Set DrvId := {drvId | drvId ∈ service.graph.getDrvsByState (.completed .failure)}

/-- The rebuild of all failed drvs ends with the result. -/
structure EndsAll (around : Surroundings DrvId) (worker : RebuildWorker DrvId) (result : RebuildResult DrvId) : Prop where
  reached : ∃ enough, ∀ fuel, enough ≤ fuel → handleRebuildAllFailedTask around fuel worker = result
  fuelled : raised result ≠ some .outOfFuel

/-- What a rebuild of all failed drvs does. It ends; it changes no drv but the failed
ones among what the listed drvs wait for, so no drv that they block; unless a step
fails, it puts all of those back into the queue; and a drv is never put back while a
failed one still blocks it. -/
structure RevivesListed (around : Surroundings DrvId) (worker : RebuildWorker DrvId) : Prop where
  ends : ∃ result, EndsAll around worker result
  keeps : ∀ result, EndsAll around worker result → ∀ other,
    (other ∈ worker.service.rebuildable → ¬ worker.service.ReachedFrom (Listed worker.service) other) →
      ∀ place, (finalState result).service.stateIn place other = worker.service.stateIn place other
  returns : around.Calm →
    (∀ other, worker.service.ReachedFrom (Listed worker.service) other → other ∈ worker.service.sharedView.keys) →
      ∀ result, EndsAll around worker result → raised result = none
  revived : ∀ result, EndsAll around worker result → raised result = none → ∀ other ∈ worker.service.rebuildable,
    worker.service.ReachedFrom (Listed worker.service) other →
      (finalState result).service.Requeued other ∧ ∃ state,
        (finalState result).service.sharedView.getBuildState other = some state ∧ state.isRequeued = true
  ordered : ∀ result, EndsAll around worker result → ∀ other ∈ worker.service.rebuildable,
    other ∉ (finalState result).service.rebuildable → ∀ blocker ∈ worker.service.rebuildable,
      worker.service.graph.BlockedBy other blocker → ∃ state,
        (finalState result).service.sharedView.getBuildState blocker = some state ∧ state.isRequeued = true

section Loop

variable {around : Surroundings DrvId} {worker middle asked next : RebuildWorker DrvId} {error : RebuildError}
  {item : DrvId} {done roots : Set DrvId} {rank : DrvId → Nat}

theorem Stopped.after (stopped : Stopped around middle {item} error next)
    (earlier : Revives done worker.service middle.service) (within : done ⊆ roots) (member : item ∈ roots) :
    Stopped around worker roots error next where
  fuelled := stopped.fuelled
  revives := (earlier.trans stopped.revives).mono (Set.union_subset within (Set.singleton_subset_iff.mpr member))
  disturbed calm := by
    obtain ⟨other, reached, absent⟩ := stopped.disturbed calm
    obtain ⟨root, rfl, path⟩ := earlier.reachedFrom reached
    exact ⟨other, ⟨root, member, path⟩, fun present => absent (earlier.shown ▸ present)⟩

theorem getAllFailedDrvs_meets (worker : RebuildWorker DrvId) :
    Meets (fun failedDrvs next => {other | other ∈ failedDrvs} = Listed worker.service ∧
        RevivesAll ∅ worker.service next.service)
      (Stopped around worker (Listed worker.service)) (getAllFailedDrvs around worker) := by
  have answered : ∀ now, RevivesAll ∅ worker.service (worker.service.process now .getAllFailedDrvs).2 := fun now =>
    .of_same (maintain_sameDrvs _ now) (maintain_stateIn _ now)
  unfold getAllFailedDrvs
  dsimp only
  split
  · rename_i reply
    refine ⟨by decide, .refl _ _, fun calm => ?_⟩
    rw [calm.answered] at reply
    cases reply
  · exact ⟨Set.ext fun other => around.mem_iterate _ _ other, answered _⟩
  · exact ⟨Set.ext fun other => around.mem_iterate _ _ other, answered _⟩

theorem handleRebuildAllFailedTask_meets (ranked : Ranked rank worker.service) {fuel : Nat}
    (enough : ∀ drvId ∈ Listed worker.service, rank drvId < fuel) :
    Meets (fun _ next => RevivesAll (Listed worker.service) worker.service next.service)
      (Stopped around worker (Listed worker.service)) (handleRebuildAllFailedTask around fuel worker) := by
  apply Meets.bind (getAllFailedDrvs_meets worker)
  intro failedDrvs asked answer
  obtain ⟨listed, unchanged⟩ := answer
  rw [← listed]
  apply rebuildEach_meets unchanged
  · intro item member next same
    have kept := ranked.of_same same
    apply handleRebuildFailedTask_meets fuel next kept.descends kept.residents
    exact enough item (listed ▸ member)
  · intro item member done within middle error next earlier stopped
    exact stopped.after earlier within member

theorem handleRebuildAllFailedTask_extends (fuel more : Nat) (worker : RebuildWorker DrvId) :
    Extends (· = .outOfFuel) (handleRebuildAllFailedTask around fuel worker)
      (handleRebuildAllFailedTask around (fuel + more) worker) := by
  apply Extends.bind (.refl _ _)
  intro failedDrvs asked
  exact Extends.forM (handleRebuildFailedTask_extends fuel more) failedDrvs asked

end Loop

section Ends

variable {around : Surroundings DrvId} {worker : RebuildWorker DrvId} {result again : RebuildResult DrvId} {rank : DrvId → Nat}

theorem Ranked.exists_endsAll (ranked : Ranked rank worker.service) (around : Surroundings DrvId) :
    ∃ result, EndsAll around worker result ∧ Outcome around worker (Listed worker.service) result := by
  let bound := (worker.service.graph.getDrvsByState (.completed .failure)).sup rank + 1
  have enough : ∀ drvId ∈ Listed worker.service, rank drvId < bound := by
    intro drvId listed
    exact Nat.lt_succ_of_le (Finset.le_sup listed)
  have outcome := @handleRebuildAllFailedTask_meets _ _ around worker rank ranked bound enough
  refine ⟨_, ⟨?_, Outcome.fuelled outcome⟩, outcome⟩
  exact reached_of_fuel (r := (handleRebuildAllFailedTask around · worker)) (Outcome.fuelled outcome) fun more =>
    handleRebuildAllFailedTask_extends bound more worker

theorem Ranked.outcomeAll (ranked : Ranked rank worker.service) (ends : EndsAll around worker result) :
    Outcome around worker (Listed worker.service) result := by
  obtain ⟨end', also, outcome⟩ := ranked.exists_endsAll around
  exact eq_of_reached ends.reached also.reached ▸ outcome

theorem Ranked.revivesListed (ranked : Ranked rank worker.service) (around : Surroundings DrvId) :
    RevivesListed around worker where
  ends :=
    let ⟨result, ends, _⟩ := ranked.exists_endsAll around
    ⟨result, ends⟩
  keeps result ends other apart place := by
    rcases (ranked.outcomeAll ends).revives.states place other with same | ⟨failed, reached, -⟩
    · exact same
    · exact absurd reached (apart failed)
  returns calm shown result ends := (ranked.outcomeAll ends).returns calm shown
  revived result ends ok other failed reached := (ranked.outcomeAll ends).revived ok failed reached
  ordered result ends other failed lost blocker held blocks := (ranked.outcomeAll ends).ordered failed lost held blocks

end Ends

/-- For references without cycles, whatever has happened to the service so far and
whatever happens around it, a rebuild of all failed drvs revives the listed ones with
the failed drvs that they wait for, and nothing else. -/
theorem rebuildAll_revivesListed {edges : List (DrvId × DrvId)} (acyclic : Acyclic edges) (worker : RebuildWorker DrvId)
    (reached : Reached edges worker.service) (around : Surroundings DrvId) : RevivesListed around worker := by
  obtain ⟨rank, descends⟩ := acyclic.exists_rank
  have rests := reached.restsOn
  have ranked : Ranked rank worker.service :=
    ⟨fun drvId blocker blocks => descends drvId blocker (rests.graph.blockers drvId blocker blocks), rests.shown⟩
  exact ranked.revivesListed around

theorem failedPair_revivesListed : RevivesListed (plainSurroundings fun _ => .answered) (idleWorker failedPair) :=
  rebuildAll_revivesListed (acyclic_of_rank id (by decide)) (idleWorker failedPair) failedPair_reached _

end EkaCI.RebuildTask
