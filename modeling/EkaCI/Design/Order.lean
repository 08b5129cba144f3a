import EkaCI.Design.Safety

/-! The two declared invariants that the design does not keep in every run: no
build starts before its dependencies are done, and no drv is tried more than
twice. Both hold as long as no failure is cleared whose dependents have ended a
build in the meantime, for clearing queues each of them again. -/

namespace EkaCI.Design

open Lib

variable {DrvId : Type} [DecidableEq DrvId]

/-- Whatever the failure of a drv is said to block has not completed. -/
def Pipeline.NoneCompleted (design : Pipeline DrvId) (drv : DrvId) : Prop :=
  ∀ id ∈ setAt design.transitiveFailureMap drv,
    (design.nodes.get id).map (·.state) ≠ some (.completed .success) ∧
      (design.nodes.get id).map (·.state) ≠ some (.completed .failure)

instance (design : Pipeline DrvId) (drv : DrvId) : Decidable (design.NoneCompleted drv) :=
  inferInstanceAs (Decidable (∀ _ ∈ _, _ ∧ _))

/-- An action that clears a failure finds no completed drv among what it queues. -/
def Spares (design : Pipeline DrvId) : Action DrvId → Prop
  | .recordSuccess drv => drv ∈ design.failedDrvs → design.NoneCompleted drv
  | .rebuildFailed drv => design.NoneCompleted drv
  | _ => True

instance (design : Pipeline DrvId) : (action : Action DrvId) → Decidable (Spares design action)
  | .recordSuccess drv => inferInstanceAs (Decidable (drv ∈ design.failedDrvs → design.NoneCompleted drv))
  | .rebuildFailed drv => inferInstanceAs (Decidable (design.NoneCompleted drv))
  | .evalDiscover .. | .ingressProcess .. | .sweepBuildable _ | .startBuild _ | .dropStaleBuild _ | .buildComplete ..
  | .buildInterrupted .. | .recordFailureFirst _ | .recordFailurePermanent _ | .recordInterruptedRetryableFirst ..
  | .recordInterruptedRetryablePermanent .. | .recordInterruptedNonRetryable .. | .substitutionHit _
  | .crashRecovery => isTrue trivial

/-- The attempts that are left: a drv that has not completed may be tried once more. -/
def Attempts (node : DrvNode DrvId) : Prop :=
  node.buildAttempts ≤ 2 ∧ ((∀ result, node.state ≠ .completed result) → node.buildAttempts ≤ 1)

section Attempts

omit [DecidableEq DrvId]

variable {node new : DrvNode DrvId}

theorem Attempts.of_le_one (few : new.buildAttempts ≤ 1) : Attempts new := ⟨few.trans (Nat.le_succ 1), fun _ => few⟩

theorem Attempts.le_one (attempts : Attempts node) (live : node.state.isTerminal = false) : node.buildAttempts ≤ 1 := by
  refine attempts.2 fun result same => ?_
  rw [same] at live
  cases live

end Attempts

structure NodeStep (design : Pipeline DrvId) (action : Action DrvId) (id : DrvId) (node new : DrvNode DrvId) : Prop where
  succeeded : Spares design action → node.state = .completed .success → new.state = .completed .success
  attempts : Spares design action → Attempts node → Attempts new
  building : new.state = .building → node.state = .building ∨ id ∈ design.buildQueue

namespace NodeStep

variable {design : Pipeline DrvId} {action : Action DrvId} {id drv : DrvId} {node new : DrvNode DrvId}

section Same

omit [DecidableEq DrvId]

theorem refl : NodeStep design action id node node := ⟨fun _ same => same, fun _ ok => ok, .inl⟩

theorem live (live : node.state.isTerminal = false) (same : new.buildAttempts = node.buildAttempts)
    (building : new.state = .building → id ∈ design.buildQueue) : NodeStep design action id node new where
  succeeded _ ended := by
    rw [ended] at live
    cases live
  attempts _ ok := .of_le_one (same ▸ ok.le_one live)
  building started := .inr (building started)

theorem ends {ended : DrvNode DrvId → DrvNode DrvId} (live : node.state.isTerminal = false) (how : Ends node ended) :
    NodeStep design action id node (ended node) := by
  cases how with
  | exhausted tried =>
    refine ⟨fun _ done => ?_, fun _ ok => ⟨Nat.succ_le_succ (ok.le_one live), fun other => absurd rfl (other .failure)⟩,
      fun started => by cases started⟩
    rw [done] at live
    cases live
  | interrupted final => exact .live live rfl fun started => by cases started

theorem retry (live : node.state.isTerminal = false) (first : node.buildAttempts < 1) :
    NodeStep design action id node { node with state := .failedRetry, buildAttempts := node.buildAttempts + 1 } := by
  refine ⟨fun _ done => ?_, fun _ _ => .of_le_one first, fun started => by cases started⟩
  rw [done] at live
  cases live

theorem succeed : NodeStep design action id node node.succeed where
  succeeded _ _ := rfl
  attempts _ ok := ⟨ok.1, fun other => absurd rfl (other .success)⟩
  building started := by cases started

end Same

theorem block (step : NodeStep design action id node new) : NodeStep design action id node (new.block drv) := by
  rw [DrvNode.block]
  split
  · exact step
  · rename_i exposed
    have notCompleted : ∀ result, new.state ≠ .completed result := by
      intro result same
      rw [same] at exposed
      exact exposed rfl
    exact ⟨fun spares done => absurd (step.succeeded spares done) (notCompleted _),
      fun spares ok => .of_le_one ((step.attempts spares ok).2 notCompleted), fun started => by cases started⟩

end NodeStep

variable {design next : Pipeline DrvId} {action : Action DrvId}

variable {change : DrvNode DrvId → DrvNode DrvId} {drv id : DrvId} {node new : DrvNode DrvId} {build : Finset DrvId}

omit [DecidableEq DrvId] in
theorem Clears.nodeStep (clears : Clears node drv build change action) :
    NodeStep design action drv node (change node) := by
  cases clears with
  | success dequeued => exact .succeed
  | rebuild failed =>
    refine ⟨fun _ done => ?_, fun _ _ => .of_le_one (Nat.zero_le 1), fun started => by cases started⟩
    rw [failed] at done
    cases done

omit [DecidableEq DrvId] in
theorem Clears.attempts_le (clears : Clears node drv build change action) :
    (change node).buildAttempts ≤ node.buildAttempts := by
  cases clears with
  | success dequeued => exact Nat.le_refl _
  | rebuild failed => exact Nat.zero_le _

omit [DecidableEq DrvId] in
theorem Clears.spares (clears : Clears node drv build change action) (tracked : drv ∈ design.failedDrvs)
    (spares : Spares design action) : design.NoneCompleted drv := by
  cases clears with
  | success dequeued => exact spares tracked
  | rebuild failed => exact spares

theorem NodeStep.of_modify (found : design.nodes.get drv = some node)
    (step : NodeStep design action drv node (change node))
    (present : (design.nodes.modify drv change).get id = some new) :
    ∃ before, design.nodes.get id = some before ∧ NodeStep design action id before new := by
  rcases Table.of_modify_get found present with ⟨rfl, rfl⟩ | ⟨-, kept⟩
  · exact ⟨node, found, step⟩
  · exact ⟨new, kept, .refl⟩

theorem Effect.nodeStep (effect : Effect design action next) (present : next.nodes.get id = some new) :
    design.nodes.contains id = false ∧ new.state = .queued ∧ new.buildAttempts = 0 ∨
      ∃ node, design.nodes.get id = some node ∧ NodeStep design action id node new := by
  cases effect with
  | discover unknown known fresh =>
    rw [Table.push_get] at present
    split at present
    · rename_i same
      obtain rfl := Option.some.inj present
      exact .inl ⟨same ▸ unknown, fresh.1, fresh.2.2⟩
    · exact .inr ⟨new, present, .refl⟩
  | queues fewer => exact .inr ⟨new, present, .refl⟩
  | @route drv node ingress build found live ready within =>
    refine .inr (NodeStep.of_modify found (.live live rfl fun started => ?_) present)
    simp only at started
    split at started <;> cases started
  | @start drv node found listed waiting =>
    have live : node.state.isTerminal = false := by
      rcases waiting with same | same
      · rw [same]
        rfl
      · rw [same]
        rfl
    exact .inr (NodeStep.of_modify found (.live live rfl fun _ => listed) present)
  | @retry drv node message found live first =>
    exact .inr (NodeStep.of_modify found (.retry live first) present)
  | @settle drv node message ended found live ends =>
    have before : ∀ other, (design.nodes.modify drv ended).get id = some other →
        ∃ node, design.nodes.get id = some node ∧ NodeStep design action id node other := by
      intro other standing
      exact NodeStep.of_modify found (.ends live ends) standing
    rw [Pipeline.settle, rewrite_get] at present
    split at present
    · obtain ⟨other, standing, rfl⟩ := Option.map_eq_some_iff.mp present
      obtain ⟨node, found, step⟩ := before other standing
      exact .inr ⟨node, found, step.block⟩
    · exact .inr (before new present)
  | @succeed drv node ingress recorder found untracked =>
    exact .inr (NodeStep.of_modify found .succeed present)
  | @clear drv node change ingress build recorder found tracked fewer clears =>
    have before : ∀ other, (design.nodes.modify drv change).get id = some other → ∃ node, design.nodes.get id = some node ∧
        NodeStep design action id node other ∧ other.buildAttempts ≤ node.buildAttempts := by
      intro other standing
      rcases Table.of_modify_get found standing with ⟨rfl, rfl⟩ | ⟨-, kept⟩
      · exact ⟨node, found, clears.nodeStep, clears.attempts_le⟩
      · exact ⟨other, kept, .refl, Nat.le_refl _⟩
    rw [Pipeline.clear, rewrite_get] at present
    split at present
    · rename_i reached
      obtain ⟨other, standing, rfl⟩ := Option.map_eq_some_iff.mp present
      obtain ⟨node, found, step, few⟩ := before other standing
      have exposed (spares : Spares design action) : ∀ result, node.state ≠ .completed result := by
        obtain ⟨success, failure⟩ := clears.spares tracked spares id reached
        rw [found] at success failure
        intro result same
        cases result with
        | success => exact success (congrArg some same)
        | failure => exact failure (congrArg some same)
      refine .inr ⟨node, found, fun spares done => absurd done (exposed spares _),
        fun spares ok => .of_le_one (few.trans (ok.2 (exposed spares))), fun started => ?_⟩
      rcases unblock_state drv other with requeued | same
      · rw [requeued] at started
        cases started
      · exact step.building (same ▸ started)
    · obtain ⟨node, found, step, -⟩ := before new present
      exact .inr ⟨node, found, step⟩
  | @crash ids ingress transient =>
    rw [rewrite_get] at present
    split at present
    · rename_i reached
      obtain ⟨node, found, rfl⟩ := Option.map_eq_some_iff.mp present
      have live : node.state.isTerminal = false := by
        rcases transient id reached node found with same | same
        · rw [same]
          rfl
        · rw [same]
          rfl
      exact .inr ⟨node, found, .live live rfl fun started => by cases started⟩
    · exact .inr ⟨new, present, .refl⟩

theorem Effect.contains (effect : Effect design action next) (present : design.nodes.contains id = true) :
    next.nodes.contains id = true := by
  cases effect with
  | discover => exact contains_push _ _ present
  | queues => exact present
  | route | start | retry => exact (contains_modify _ _ _ id).trans present
  | settle => exact (contains_rewrite _ _ _ id).trans ((contains_modify _ _ _ id).trans present)
  | succeed => exact (contains_modify _ _ _ id).trans present
  | clear => exact (contains_rewrite _ _ _ id).trans ((contains_modify _ _ _ id).trans present)
  | crash => exact (contains_rewrite _ _ _ id).trans present

theorem Effect.deps (effect : Effect design action next) (present : design.nodes.contains id = true) :
    next.deps id = design.deps id := by
  cases effect with
  | discover new known fresh =>
    refine Function.update_of_ne (fun same => ?_) _ _
    rw [← same, present] at new
    cases new
  | queues | route | start | retry | settle | succeed | clear | crash => rfl

theorem Effect.enqueued (effect : Effect design action next) (sound : Sound design) (listed : id ∈ next.buildQueue) :
    design.nodes.contains id = true ∧
      (id ∈ design.buildQueue ∨ isBuildable id design.deps design.nodes) := by
  have before (listed : id ∈ design.buildQueue) : design.nodes.contains id = true ∧
      (id ∈ design.buildQueue ∨ isBuildable id design.deps design.nodes) := ⟨sound.queued id listed, .inl listed⟩
  cases effect with
  | discover => exact before listed
  | queues fewer => exact before (fewer listed)
  | @route drv node ingress build found live ready within =>
    rcases Finset.mem_insert.mp (within listed) with same | listed
    · subst same
      rw [Table.contains, found]
      exact ⟨rfl, .inr ready⟩
    · exact before listed
  | start => exact before (Finset.mem_of_mem_erase listed)
  | retry => exact before listed
  | settle => exact before (Finset.sdiff_subset (Finset.mem_of_mem_erase listed))
  | succeed => exact before (Finset.mem_of_mem_erase listed)
  | clear found tracked fewer clears => exact before (fewer listed)
  | crash => exact absurd listed (Finset.notMem_empty id)

omit [DecidableEq DrvId] in
theorem isBuildable_mono {deps deps' : DrvId → Option (Finset DrvId)} {nodes nodes' : Table DrvId (DrvNode DrvId)}
    (same : deps' id = deps id)
    (kept : ∀ dep, (nodes.get dep).map (·.state) = some (.completed .success) →
      (nodes'.get dep).map (·.state) = some (.completed .success)) (ready : isBuildable id deps nodes) :
    isBuildable id deps' nodes' := by
  obtain ⟨dependencies, listed, done⟩ := ready
  exact ⟨dependencies, same.trans listed, fun dep member => kept dep (done dep member)⟩

/-- The attempts are counted, and who is to be built or being built waits for nothing. -/
structure Ordered (design : Pipeline DrvId) : Prop where
  attempts : ∀ id node, design.nodes.get id = some node → Attempts node
  ready : ∀ id, id ∈ design.buildQueue ∨ (design.nodes.get id).map (·.state) = some .building →
    isBuildable id design.deps design.nodes

theorem Effect.succeeded (effect : Effect design action next) (spares : Spares design action) (dep : DrvId)
    (done : (design.nodes.get dep).map (·.state) = some (.completed .success)) :
    (next.nodes.get dep).map (·.state) = some (.completed .success) := by
  obtain ⟨node, found, succeeded⟩ := Option.map_eq_some_iff.mp done
  have present : design.nodes.contains dep = true := by
    rw [Table.contains, found]
    rfl
  obtain ⟨new, standing⟩ := Option.isSome_iff_exists.mp (effect.contains present)
  rcases effect.nodeStep standing with ⟨unknown, -⟩ | ⟨other, same, step⟩
  · rw [present] at unknown
    cases unknown
  · obtain rfl := Option.some.inj (found.symm.trans same)
    rw [standing]
    exact congrArg some (step.succeeded spares succeeded)

theorem Effect.ordered (effect : Effect design action next) (spares : Spares design action) (sound : Sound design)
    (ordered : Ordered design) : Ordered next where
  attempts id new present := by
    rcases effect.nodeStep present with ⟨-, -, none⟩ | ⟨node, found, step⟩
    · exact .of_le_one (none ▸ Nat.zero_le 1)
    · exact step.attempts spares (ordered.attempts id node found)
  ready id waits := by
    have before : design.nodes.contains id = true ∧ isBuildable id design.deps design.nodes := by
      rcases waits with listed | building
      · obtain ⟨present, queued | ready⟩ := effect.enqueued sound listed
        · exact ⟨present, ordered.ready id (.inl queued)⟩
        · exact ⟨present, ready⟩
      · obtain ⟨new, present, started⟩ := Option.map_eq_some_iff.mp building
        rcases effect.nodeStep present with ⟨-, queued, -⟩ | ⟨node, found, step⟩
        · rw [queued] at started
          cases started
        · refine ⟨by rw [Table.contains, found]; rfl, ordered.ready id ?_⟩
          rcases step.building started with same | listed
          · rw [found]
            exact .inr (congrArg some same)
          · exact .inl listed
    exact isBuildable_mono (effect.deps before.1) (effect.succeeded spares) before.2

omit [DecidableEq DrvId] in
theorem ordered_init : Ordered (Pipeline.init : Pipeline DrvId) where
  attempts _ _ present := by cases present
  ready id waits := by
    rcases waits with listed | building
    · exact absurd listed (Finset.notMem_empty id)
    · cases building

/-- In a run that spares what has completed, a drv is only built once all it
depends on has succeeded, none is tried a third time, and a success is final. -/
theorem run_ordered {actions : List (Action DrvId)} (run : Run Pipeline.step Spares .init actions design) :
    design.InvBuildingImpliesDepsDone ∧ design.InvMaxTwoAttempts ∧
      ∀ {more : List (Action DrvId)} {final : Pipeline DrvId}, Run Pipeline.step Spares design more final →
        ∀ id, (design.nodes.get id).map (·.state) = some (.completed .success) →
          (final.nodes.get id).map (·.state) = some (.completed .success) := by
  obtain ⟨-, ordered⟩ := run.invariant (p := fun design => Sound design ∧ Ordered design) ⟨sound_init, ordered_init⟩
    fun _ _ _ holds spares taken => ⟨(Pipeline.step_effect taken).sound holds.1,
      (Pipeline.step_effect taken).ordered spares holds.1 holds.2⟩
  refine ⟨fun id node found building => ordered.ready id (.inr ?_), fun id node found => (ordered.attempts id node found).1,
    fun later id done => ?_⟩
  · rw [found]
    exact congrArg some building
  · exact later.invariant (p := fun final => (final.nodes.get id).map (·.state) = some (.completed .success)) done
      fun _ _ _ done spares taken => (Pipeline.step_effect taken).succeeded spares id done

/-- A drv that has failed twice is built again with what it blocks, and succeeds. -/
def rebuilding : List (Action Nat) :=
  failing ++ [.rebuildFailed 0, .ingressProcess 0 true, .startBuild 0, .buildComplete 0 .success, .recordSuccess 0,
    .ingressProcess 1 true, .startBuild 1]

theorem rebuilding_ordered : ∃ design, Run Pipeline.step Spares .init rebuilding design ∧
    design.InvBuildingImpliesDepsDone ∧ design.InvMaxTwoAttempts ∧
      (design.nodes.get 1).map (·.state) = some .building := by
  have ends : ((checkRun Pipeline.step Spares .init rebuilding).bind (·.nodes.get 1)).map (·.state) = some .building := by
    decide +kernel
  obtain ⟨node, found, building⟩ := Option.map_eq_some_iff.mp ends
  obtain ⟨design, checked, found⟩ := Option.bind_eq_some_iff.mp found
  have run := run_of_checkRun checked
  refine ⟨design, run, (run_ordered run).1, (run_ordered run).2.1, ?_⟩
  rw [found]
  exact congrArg some building

/-- Two drvs succeed without the drv 0 they depend on, another fails on one of
them; then 0 fails and is built again. -/
def unsparing : List (Action Nat) :=
  let fails (drv : Nat) : List (Action Nat) :=
    [.ingressProcess drv true, .startBuild drv, .buildComplete drv .failure, .recordFailureFirst drv,
      .ingressProcess drv true, .startBuild drv, .buildComplete drv .failure, .recordFailurePermanent drv]
  let substituted (drv : Nat) : List (Action Nat) := [.substitutionHit drv, .recordSuccess drv]
  [.evalDiscover 0 "x86_64-linux" false ∅, .evalDiscover 1 "x86_64-linux" false {0},
      .evalDiscover 2 "x86_64-linux" false {0}, .evalDiscover 3 "x86_64-linux" false {1}] ++
    substituted 1 ++ substituted 2 ++ fails 3 ++ fails 0 ++
    [.evalDiscover 4 "x86_64-linux" false {2}, .ingressProcess 4 true, .startBuild 4, .rebuildFailed 0] ++
    substituted 1 ++
    [.ingressProcess 3 true, .startBuild 3, .buildComplete 3 .failure, .recordFailurePermanent 3]

/-- The condition is needed: clearing a failure may take a success back under a
running build, and queue a failed drv with its attempts used up. -/
theorem unsparing_not_ordered : ∃ design, AnyRun Pipeline.step .init unsparing design ∧
    ¬ design.InvBuildingImpliesDepsDone ∧ ¬ design.InvMaxTwoAttempts := by
  have ends : (exec Pipeline.step .init unsparing).map (fun design =>
      ((design.nodes.get 3).map (·.buildAttempts), (design.nodes.get 4).map (·.state),
        decide (isBuildable 4 design.deps design.nodes))) = some (some 3, some .building, false) := by decide +kernel
  obtain ⟨design, performed, observed⟩ := Option.map_eq_some_iff.mp ends
  simp only [Prod.mk.injEq, decide_eq_false_iff_not] at observed
  obtain ⟨attempts, building, waits⟩ := observed
  refine ⟨design, run_of_exec performed, fun done => ?_, fun few => ?_⟩
  · obtain ⟨node, found, started⟩ := Option.map_eq_some_iff.mp building
    exact waits (done 4 node found started)
  · obtain ⟨node, found, tried⟩ := Option.map_eq_some_iff.mp attempts
    exact absurd (few 3 node found) (by omega)

end EkaCI.Design
