import EkaCI.Design.Spec

/-! What a step of the design can do, whichever action it is: a handful of effects
on nodes, failures and queues, each with what the action has checked. -/

namespace EkaCI.Design

open Lib

variable {DrvId : Type} [DecidableEq DrvId]

section Dependents

variable {refMap wider : DrvId → Option (Finset DrvId)} {root id : DrvId}

theorem mem_widen {found : Finset DrvId} : id ∈ widen refMap found ↔ id ∈ found ∨ ∃ via ∈ found, id ∈ setAt refMap via := by
  rw [widen, Finset.mem_union, Finset.mem_biUnion]

theorem transGen_of_mem_transitiveDependents (member : id ∈ transitiveDependents root refMap) :
    Relation.TransGen (fun drv dependent => dependent ∈ setAt refMap drv) root id := by
  have rounds : ∀ count : Nat, ∀ id ∈ (widen refMap)^[count] (setAt refMap root),
      Relation.TransGen (fun drv dependent => dependent ∈ setAt refMap drv) root id := by
    intro count
    induction count with
    | zero => exact fun id direct => .single direct
    | succ count ih =>
      intro id found
      rw [Function.iterate_succ_apply', mem_widen] at found
      rcases found with known | ⟨via, known, next⟩
      · exact ih id known
      · exact (ih via known).tail next
  exact rounds 20 id member

theorem transitiveDependents_mono (grows : ∀ drv, setAt refMap drv ⊆ setAt wider drv) (root : DrvId) :
    transitiveDependents root refMap ⊆ transitiveDependents root wider := by
  have rounds : ∀ count : Nat, (widen refMap)^[count] (setAt refMap root) ⊆ (widen wider)^[count] (setAt wider root) := by
    intro count
    induction count with
    | zero => exact grows root
    | succ count ih =>
      intro id found
      rw [Function.iterate_succ_apply', mem_widen] at found
      rw [Function.iterate_succ_apply', mem_widen]
      rcases found with known | ⟨via, known, next⟩
      · exact .inl (ih known)
      · exact .inr ⟨via, ih known, grows via next⟩
  exact rounds 20

end Dependents

theorem rewrite_get (nodes : Table DrvId (DrvNode DrvId)) (ids : Finset DrvId) (change : DrvNode DrvId → DrvNode DrvId)
    (id : DrvId) : (rewrite nodes ids change).get id = if id ∈ ids then (nodes.get id).map change else nodes.get id := rfl

@[simp] theorem setAt_update (sets : DrvId → Option (Finset DrvId)) (drv : DrvId) (ids : Option (Finset DrvId)) (id : DrvId) :
    setAt (Function.update sets drv ids) id = if id = drv then ids.getD ∅ else setAt sets id := by
  rw [setAt, Function.update_apply]
  split <;> rfl

/-- How a drv can end for good. -/
inductive Ends (node : DrvNode DrvId) : (DrvNode DrvId → DrvNode DrvId) → Prop where
  | exhausted (tried : 1 ≤ node.buildAttempts) : Ends node DrvNode.exhaust
  | interrupted {kind : DrvBuildInterruptionKind} (final : kind.isRetryable = false) : Ends node (DrvNode.interrupt kind)

/-- What clears a failure: a success, which takes the drv out of the build queue,
or the request to build a failed drv again. -/
inductive Clears (node : DrvNode DrvId) (drv : DrvId) (build : Finset DrvId) :
    (DrvNode DrvId → DrvNode DrvId) → Action DrvId → Prop where
  | success (dequeued : drv ∉ build) : Clears node drv build DrvNode.succeed (.recordSuccess drv)
  | rebuild (failed : node.state = .completed .failure) : Clears node drv build DrvNode.restart (.rebuildFailed drv)

inductive Effect (design : Pipeline DrvId) (action : Action DrvId) : Pipeline DrvId → Prop where
  | discover {drv : DrvId} {node : DrvNode DrvId} {dependencies ingress : Finset DrvId}
      (new : design.nodes.contains drv = false) (known : ∀ dep ∈ dependencies, design.nodes.contains dep = true)
      (fresh : node.state = .queued ∧ node.blockingFailures = ∅ ∧ node.buildAttempts = 0) :
      Effect design action { design with
        nodes := design.nodes.push drv node
        deps := Function.update design.deps drv (some dependencies)
        referrers := fun dep =>
          if dep ∈ dependencies then some (insert drv (setAt design.referrers dep)) else design.referrers dep
        ingressQueue := ingress }
  /-- Only the queues change, and nothing enters that of the builders. -/
  | queues {ingress build : Finset DrvId} {recorder : Finset (DrvId × DrvBuildState)} (fewer : build ⊆ design.buildQueue) :
      Effect design action { design with ingressQueue := ingress, buildQueue := build, recorderQueue := recorder }
  | route {drv : DrvId} {node : DrvNode DrvId} {ingress build : Finset DrvId}
      (found : design.nodes.get drv = some node) (live : node.state.isTerminal = false)
      (ready : isBuildable drv design.deps design.nodes) (within : build ⊆ insert drv design.buildQueue) :
      Effect design action { design with
        nodes := design.nodes.modify drv fun node =>
          { node with state := if node.state = .failedRetry then .failedRetry else .buildable }
        ingressQueue := ingress, buildQueue := build }
  | start {drv : DrvId} {node : DrvNode DrvId} (found : design.nodes.get drv = some node)
      (listed : drv ∈ design.buildQueue) (waiting : node.state = .buildable ∨ node.state = .failedRetry) :
      Effect design action { design with
        nodes := design.nodes.modify drv fun node => { node with state := .building }
        buildQueue := design.buildQueue.erase drv }
  | retry {drv : DrvId} {node : DrvNode DrvId} {message : DrvBuildState} (found : design.nodes.get drv = some node)
      (live : node.state.isTerminal = false) (first : node.buildAttempts < 1) :
      Effect design action (design.retry drv message)
  | settle {drv : DrvId} {node : DrvNode DrvId} {message : DrvBuildState} {ended : DrvNode DrvId → DrvNode DrvId}
      (found : design.nodes.get drv = some node) (live : node.state.isTerminal = false) (ends : Ends node ended) :
      Effect design action (design.settle drv message ended)
  | succeed {drv : DrvId} {node : DrvNode DrvId} {ingress : Finset DrvId} {recorder : Finset (DrvId × DrvBuildState)}
      (found : design.nodes.get drv = some node) (untracked : drv ∉ design.failedDrvs) :
      Effect design action { design with
        nodes := design.nodes.modify drv DrvNode.succeed
        ingressQueue := ingress, buildQueue := design.buildQueue.erase drv, recorderQueue := recorder }
  | clear {drv : DrvId} {node : DrvNode DrvId} {change : DrvNode DrvId → DrvNode DrvId} {ingress build : Finset DrvId}
      {recorder : Finset (DrvId × DrvBuildState)} (found : design.nodes.get drv = some node)
      (tracked : drv ∈ design.failedDrvs) (fewer : build ⊆ design.buildQueue) (clears : Clears node drv build change action) :
      Effect design action { Pipeline.clear { design with nodes := design.nodes.modify drv change } drv with
        ingressQueue := ingress, buildQueue := build, recorderQueue := recorder }
  | crash {ids ingress : Finset DrvId}
      (transient : ∀ id ∈ ids, ∀ node, design.nodes.get id = some node → node.state = .building ∨ node.state = .buildable) :
      Effect design action { design with
        nodes := rewrite design.nodes ids fun node => { node with state := .queued }
        ingressQueue := ingress, buildQueue := ∅, recorderQueue := ∅ }

theorem guarded_eq_some {α β : Type} {found : Option α} {p : α → Prop} [DecidablePred p] {result next : β} :
    (found.bind fun value => if p value then some result else none) = some next ↔
      ∃ value, found = some value ∧ p value ∧ result = next := by
  simp only [Option.bind_eq_some_iff, Option.ite_none_right_eq_some, Option.some.injEq]

namespace Pipeline

variable {design next : Pipeline DrvId} {action : Action DrvId}

theorem mem_drvsIn {states : List DrvBuildState} {id : DrvId} :
    id ∈ design.drvsIn states ↔ ∃ node, design.nodes.get id = some node ∧ node.state ∈ states := by
  rw [drvsIn, List.mem_toFinset, List.mem_filter, Option.any_eq_true]
  constructor
  · rintro ⟨-, node, found, among⟩
    exact ⟨node, found, of_decide_eq_true among⟩
  · rintro ⟨node, found, among⟩
    exact ⟨Table.mem_keys_of_get found, node, found, decide_eq_true among⟩

variable {drv : DrvId}

theorem effect_of_evalDiscover {system : String} {isFod : Bool} {dependencies : Finset DrvId}
    (taken : design.evalDiscover drv system isFod dependencies = some next) : Effect design action next := by
  obtain ⟨⟨new, known⟩, taken⟩ := Option.ite_none_right_eq_some.mp taken
  obtain rfl := Option.some.inj taken
  exact .discover new known ⟨rfl, rfl, rfl⟩

theorem effect_of_ingressProcess {sent : Bool} (taken : design.ingressProcess drv sent = some next) :
    Effect design action next := by
  obtain ⟨-, taken⟩ := Option.ite_none_right_eq_some.mp taken
  obtain ⟨node, found, rfl⟩ := Option.map_eq_some_iff.mp taken
  by_cases terminal : node.state.isTerminal = true
  · simp only [terminal, if_true]
    exact .queues (Finset.Subset.refl _)
  by_cases ready : isBuildable drv design.deps design.nodes
  · simp only [terminal, ready, if_true]
    have within : (if sent then insert drv design.buildQueue else design.buildQueue) ⊆ insert drv design.buildQueue := by
      split
      · exact Finset.Subset.refl _
      · exact Finset.subset_insert _ _
    exact .route found (Bool.not_eq_true _ ▸ terminal) ready within
  · simp only [terminal, ready, if_false]
    exact .queues (Finset.Subset.refl _)

theorem effect_of_sweepBuildable (taken : design.sweepBuildable drv = some next) : Effect design action next := by
  obtain ⟨node, -, -, rfl⟩ := guarded_eq_some.mp taken
  exact .queues (Finset.Subset.refl _)

theorem effect_of_startBuild (taken : design.startBuild drv = some next) : Effect design action next := by
  obtain ⟨listed, taken⟩ := Option.ite_none_right_eq_some.mp taken
  obtain ⟨node, found, waiting, rfl⟩ := guarded_eq_some.mp taken
  exact .start found listed waiting

theorem effect_of_dropStaleBuild (taken : design.dropStaleBuild drv = some next) : Effect design action next := by
  obtain ⟨-, taken⟩ := Option.ite_none_right_eq_some.mp taken
  obtain ⟨node, -, taken⟩ := Option.bind_eq_some_iff.mp taken
  obtain ⟨-, taken⟩ := Option.ite_none_left_eq_some.mp taken
  obtain rfl := Option.some.inj taken
  exact .queues (Finset.erase_subset _ _)

theorem effect_of_report {state : DrvBuildState} (taken : design.report drv state = some next) :
    Effect design action next := by
  obtain ⟨node, -, -, rfl⟩ := guarded_eq_some.mp taken
  exact .queues (Finset.Subset.refl _)

theorem effect_of_recordSuccess (taken : design.recordSuccess drv = some next) :
    Effect design (.recordSuccess drv) next := by
  obtain ⟨-, taken⟩ := Option.ite_none_right_eq_some.mp taken
  obtain ⟨node, found, rfl⟩ := Option.map_eq_some_iff.mp taken
  by_cases tracked : drv ∈ design.failedDrvs
  · simp only [tracked, if_true]
    exact .clear found tracked (Finset.erase_subset _ _) (.success (Finset.notMem_erase _ _))
  · simp only [tracked, if_false]
    exact .succeed found tracked

theorem effect_of_recordFailureFirst (taken : design.recordFailureFirst drv = some next) :
    Effect design action next := by
  obtain ⟨-, taken⟩ := Option.ite_none_right_eq_some.mp taken
  obtain ⟨node, found, ⟨building, first⟩, rfl⟩ := guarded_eq_some.mp taken
  exact .retry found (by rw [building]; rfl) first

theorem effect_of_recordFailurePermanent (taken : design.recordFailurePermanent drv = some next) :
    Effect design action next := by
  obtain ⟨-, taken⟩ := Option.ite_none_right_eq_some.mp taken
  obtain ⟨node, found, ⟨live, tried⟩, rfl⟩ := guarded_eq_some.mp taken
  exact .settle found live (.exhausted tried)

section Interrupted

variable {drv : DrvId} {kind : DrvBuildInterruptionKind}

theorem effect_of_recordInterruptedRetryableFirst (taken : design.recordInterruptedRetryableFirst drv kind = some next) :
    Effect design action next := by
  obtain ⟨-, taken⟩ := Option.ite_none_right_eq_some.mp taken
  obtain ⟨node, found, ⟨-, live, first⟩, rfl⟩ := guarded_eq_some.mp taken
  exact .retry found live first

theorem effect_of_recordInterruptedRetryablePermanent
    (taken : design.recordInterruptedRetryablePermanent drv kind = some next) : Effect design action next := by
  obtain ⟨-, taken⟩ := Option.ite_none_right_eq_some.mp taken
  obtain ⟨node, found, ⟨-, live, tried⟩, rfl⟩ := guarded_eq_some.mp taken
  exact .settle found live (.exhausted tried)

theorem effect_of_recordInterruptedNonRetryable (taken : design.recordInterruptedNonRetryable drv kind = some next) :
    Effect design action next := by
  obtain ⟨-, taken⟩ := Option.ite_none_right_eq_some.mp taken
  obtain ⟨node, found, ⟨final, live⟩, rfl⟩ := guarded_eq_some.mp taken
  exact .settle found live (.interrupted final)

end Interrupted

theorem effect_of_substitutionHit (taken : design.substitutionHit drv = some next) : Effect design action next := by
  obtain ⟨node, -, -, rfl⟩ := guarded_eq_some.mp taken
  exact .queues (Finset.Subset.refl _)

theorem effect_of_rebuildFailed (taken : design.rebuildFailed drv = some next) :
    Effect design (.rebuildFailed drv) next := by
  obtain ⟨node, found, ⟨failed, tracked⟩, rfl⟩ := guarded_eq_some.mp taken
  exact .clear found tracked (Finset.Subset.refl _) (.rebuild failed)

theorem effect_of_crashRecovery (taken : design.crashRecovery = some next) : Effect design action next := by
  obtain ⟨-, taken⟩ := Option.ite_none_left_eq_some.mp taken
  obtain rfl := Option.some.inj taken
  refine .crash fun id member node found => ?_
  obtain ⟨other, present, among⟩ := mem_drvsIn.mp member
  obtain rfl := Option.some.inj (found.symm.trans present)
  simpa only [List.mem_cons, List.not_mem_nil, or_false] using among

theorem step_effect (taken : design.step action = some next) : Effect design action next := by
  cases action with
  | evalDiscover => exact effect_of_evalDiscover taken
  | ingressProcess => exact effect_of_ingressProcess taken
  | sweepBuildable => exact effect_of_sweepBuildable taken
  | startBuild => exact effect_of_startBuild taken
  | dropStaleBuild => exact effect_of_dropStaleBuild taken
  | buildComplete | buildInterrupted => exact effect_of_report taken
  | recordSuccess => exact effect_of_recordSuccess taken
  | recordFailureFirst => exact effect_of_recordFailureFirst taken
  | recordFailurePermanent => exact effect_of_recordFailurePermanent taken
  | recordInterruptedRetryableFirst => exact effect_of_recordInterruptedRetryableFirst taken
  | recordInterruptedRetryablePermanent => exact effect_of_recordInterruptedRetryablePermanent taken
  | recordInterruptedNonRetryable => exact effect_of_recordInterruptedNonRetryable taken
  | substitutionHit => exact effect_of_substitutionHit taken
  | rebuildFailed => exact effect_of_rebuildFailed taken
  | crashRecovery => exact effect_of_crashRecovery taken

end Pipeline

end EkaCI.Design
