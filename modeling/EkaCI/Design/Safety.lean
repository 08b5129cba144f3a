import EkaCI.Design.Effects
import Mathlib.Data.Finset.Lattice.Fold

/-! What the design keeps to in every state it can reach, whatever the order of
its actions: failures are tracked, blockers are failures, and the dependencies
have no cycle. -/

namespace EkaCI.Design

open Lib

variable {DrvId : Type} [DecidableEq DrvId]

/-- How a node stands to the failures that are tracked and to the build queue. -/
structure NodeOk (failed build : Finset DrvId) (map : DrvId → Option (Finset DrvId)) (id : DrvId) (node : DrvNode DrvId) :
    Prop where
  blocked : node.state = .transitiveFailure → node.blockingFailures ≠ ∅
  retried : node.state = .failedRetry → 1 ≤ node.buildAttempts
  tracked : node.state = .completed .failure ∨ (∃ kind, node.state = .interrupted kind) → id ∈ failed
  queued : id ∈ build → node.state.isTerminal = false
  accounted : ∀ blocker ∈ node.blockingFailures, blocker ∈ failed ∧ id ∈ setAt map blocker

namespace NodeOk

variable {failed failed' build build' : Finset DrvId} {map map' : DrvId → Option (Finset DrvId)} {id drv : DrvId}
  {node new : DrvNode DrvId}

section Same

omit [DecidableEq DrvId]

theorem grow (ok : NodeOk failed build map id node) (more : failed ⊆ failed') (wider : ∀ drv, setAt map drv ⊆ setAt map' drv)
    (fewer : id ∈ build' → id ∈ build) : NodeOk failed' build' map' id node where
  blocked := ok.blocked
  retried := ok.retried
  tracked ended := more (ok.tracked ended)
  queued listed := ok.queued (fewer listed)
  accounted blocker member := (ok.accounted blocker member).imp (@more blocker) (@wider blocker id)

theorem relive {state : DrvBuildState} {attempts : Nat} (ok : NodeOk failed build map id node) (live : state.isTerminal = false)
    (retried : state = .failedRetry → 1 ≤ attempts) :
    NodeOk failed build' map id { node with state := state, buildAttempts := attempts } where
  blocked same := by
    obtain rfl : state = _ := same
    cases live
  retried := retried
  tracked ended := by
    rcases ended with same | ⟨kind, same⟩
    · obtain rfl : state = _ := same
      cases live
    · obtain rfl : state = _ := same
      cases live
  queued _ := live
  accounted := ok.accounted

theorem ends {ended : DrvNode DrvId → DrvNode DrvId} (how : Ends node ended) (ok : NodeOk failed build map id node)
    (tracked : id ∈ failed) (dequeued : id ∉ build) : NodeOk failed build map id (ended node) := by
  cases how with
  | exhausted tried =>
    exact {
      blocked same := by cases same
      retried same := by cases same
      tracked := fun _ => tracked
      queued := fun listed => absurd listed dequeued
      accounted := ok.accounted }
  | interrupted final =>
    exact {
      blocked same := by cases same
      retried same := by cases same
      tracked := fun _ => tracked
      queued := fun listed => absurd listed dequeued
      accounted := ok.accounted }

end Same

theorem block (ok : NodeOk failed build map id node) (tracked : drv ∈ failed) (reached : id ∈ setAt map drv)
    (dequeued : id ∉ build) : NodeOk failed build map id (node.block drv) := by
  rw [DrvNode.block]
  split
  · exact ok
  exact {
    blocked := fun _ => Finset.insert_ne_empty _ _
    retried same := by cases same
    tracked := fun ended => by
      rcases ended with same | ⟨kind, same⟩
      · cases same
      · cases same
    queued := fun listed => absurd listed dequeued
    accounted := fun blocker member => by
      rcases Finset.mem_insert.mp member with rfl | member
      · exact ⟨tracked, reached⟩
      · exact ok.accounted blocker member }

theorem unblock (ok : NodeOk failed build map id node) (other : id ≠ drv) :
    NodeOk (failed.erase drv) build (Function.update map drv none) id (node.unblock drv) := by
  have kept : ∀ {state}, (node.unblock drv).state = state → state ≠ .queued →
      node.state = state ∧ node.blockingFailures.erase drv ≠ ∅ := by
    intro state same different
    simp only [DrvNode.unblock] at same
    split at same
    · exact absurd same.symm different
    · rename_i left
      exact ⟨same, left⟩
  exact {
    blocked := fun same => (kept same (by simp)).2
    retried := fun same => ok.retried (kept same (by simp)).1
    tracked := fun ended => by
      refine Finset.mem_erase.mpr ⟨other, ok.tracked ?_⟩
      rcases ended with same | ⟨kind, same⟩
      · exact .inl (kept same (by simp)).1
      · exact .inr ⟨kind, (kept same (by simp)).1⟩
    queued := fun listed => by
      simp only [DrvNode.unblock]
      split
      · rfl
      · exact ok.queued listed
    accounted := fun blocker member => by
      obtain ⟨different, member⟩ := Finset.mem_erase.mp member
      obtain ⟨tracked, reached⟩ := ok.accounted blocker member
      rw [setAt_update, if_neg different]
      exact ⟨Finset.mem_erase.mpr ⟨different, tracked⟩, reached⟩ }

theorem freed (ok : NodeOk failed build map id node) (settled : new.state = .queued ∨ new.state = .completed .success)
    (queued : id ∈ build' → new.state = .queued) (fewer : new.blockingFailures ⊆ node.blockingFailures.erase drv) :
    NodeOk (failed.erase drv) build' (Function.update map drv none) id new := by
  have neither : ∀ {state}, new.state = state → state = .queued ∨ state = .completed .success := fun same => same ▸ settled
  exact {
    blocked := fun same => by simpa using neither same
    retried := fun same => by simpa using neither same
    tracked := fun ended => by
      rcases ended with same | ⟨kind, same⟩
      · simpa using neither same
      · simpa using neither same
    queued := fun listed => by rw [queued listed]; rfl
    accounted := fun blocker member => by
      obtain ⟨different, member⟩ := Finset.mem_erase.mp (fewer member)
      obtain ⟨tracked, reached⟩ := ok.accounted blocker member
      rw [setAt_update, if_neg different]
      exact ⟨Finset.mem_erase.mpr ⟨different, tracked⟩, reached⟩ }

theorem keep (ok : NodeOk failed build map id node) (other : id ≠ drv) (apart : id ∉ setAt map drv) :
    NodeOk (failed.erase drv) build (Function.update map drv none) id node where
  blocked := ok.blocked
  retried := ok.retried
  tracked ended := Finset.mem_erase.mpr ⟨other, ok.tracked ended⟩
  queued := ok.queued
  accounted blocker member := by
    obtain ⟨tracked, reached⟩ := ok.accounted blocker member
    have different : blocker ≠ drv := fun same => apart (same ▸ reached)
    rw [setAt_update, if_neg different]
    exact ⟨Finset.mem_erase.mpr ⟨different, tracked⟩, reached⟩

end NodeOk

theorem unblock_state (drv : DrvId) (node : DrvNode DrvId) :
    (node.unblock drv).state = .queued ∨ (node.unblock drv).state = node.state := by
  simp only [DrvNode.unblock]
  split
  · exact .inl rfl
  · exact .inr rfl

/-- The nodes, the failures and the build queue fit together. -/
structure Sound (design : Pipeline DrvId) : Prop where
  nodes : ∀ id node, design.nodes.get id = some node →
    NodeOk design.failedDrvs design.buildQueue design.transitiveFailureMap id node
  queued : ∀ id ∈ design.buildQueue, design.nodes.contains id = true
  covered : ∀ drv, setAt design.transitiveFailureMap drv ⊆ transitiveDependents drv design.referrers

/-- The dependencies are known before what depends on them. -/
structure Wired (design : Pipeline DrvId) : Prop where
  known : ∀ id, ∀ dep ∈ setAt design.deps id, design.nodes.contains dep = true
  listed : ∀ id, ∀ dep ∈ setAt design.deps id, id ∈ setAt design.referrers dep
  ranked : ∃ rank : DrvId → Nat, ∀ id, ∀ dep ∈ setAt design.deps id, rank dep < rank id

theorem contains_modify (nodes : Table DrvId (DrvNode DrvId)) (drv : DrvId) (change : DrvNode DrvId → DrvNode DrvId)
    (id : DrvId) : (nodes.modify drv change).contains id = nodes.contains id := by
  rw [Table.contains, Table.modify_get, Table.contains]
  split <;> simp

theorem contains_rewrite (nodes : Table DrvId (DrvNode DrvId)) (ids : Finset DrvId) (change : DrvNode DrvId → DrvNode DrvId)
    (id : DrvId) : (rewrite nodes ids change).contains id = nodes.contains id := by
  rw [Table.contains, rewrite_get, Table.contains]
  split <;> simp

theorem contains_push {nodes : Table DrvId (DrvNode DrvId)} (drv : DrvId) (node : DrvNode DrvId) {id : DrvId}
    (present : nodes.contains id = true) : (nodes.push drv node).contains id = true := by
  rw [Table.contains, Table.push_get]
  split
  · rfl
  · exact present

variable {design next : Pipeline DrvId} {action : Action DrvId}

omit [DecidableEq DrvId] in
theorem Wired.same (wired : Wired design) {nodes : Table DrvId (DrvNode DrvId)} {failed ingress build : Finset DrvId}
    {map : DrvId → Option (Finset DrvId)} {recorder : Finset (DrvId × DrvBuildState)}
    (same : ∀ id, nodes.contains id = design.nodes.contains id) :
    Wired ⟨nodes, design.deps, design.referrers, failed, map, ingress, build, recorder⟩ :=
  ⟨fun id dep member => (same dep).trans (wired.known id dep member), wired.listed, wired.ranked⟩

theorem Effect.wired (effect : Effect design action next) (wired : Wired design) : Wired next := by
  cases effect with
  | @discover drv node dependencies ingress new known fresh =>
    have apart : ∀ id, ∀ dep ∈ setAt design.deps id, dep ≠ drv := by
      rintro id dep member rfl
      rw [wired.known id dep member] at new
      cases new
    have direct : ∀ dep ∈ dependencies, dep ≠ drv := by
      rintro dep member rfl
      rw [known dep member] at new
      cases new
    obtain ⟨rank, ranked⟩ := wired.ranked
    refine ⟨fun id dep member => ?_, fun id dep member => ?_,
      Function.update rank drv (dependencies.sup rank + 1), fun id dep member => ?_⟩
    · rw [setAt_update] at member
      split at member
      · exact contains_push drv node (known dep member)
      · exact contains_push drv node (wired.known id dep member)
    · rw [setAt_update] at member
      simp only [setAt]
      split at member
      · rename_i same
        rw [if_pos (show dep ∈ dependencies from member), same]
        exact Finset.mem_insert_self _ _
      · have before := wired.listed id dep member
        split
        · exact Finset.mem_insert_of_mem before
        · exact before
    · rw [setAt_update] at member
      split at member
      · rename_i same
        rw [same, Function.update_self, Function.update_of_ne (direct dep member)]
        exact Nat.lt_succ_of_le (Finset.le_sup (f := rank) member)
      · rename_i different
        rw [Function.update_of_ne different, Function.update_of_ne (apart id dep member)]
        exact ranked id dep member
  | queues => exact wired.same fun _ => rfl
  | route | start | retry => exact wired.same fun id => contains_modify _ _ _ id
  | settle => exact wired.same fun id => (contains_rewrite _ _ _ id).trans (contains_modify _ _ _ id)
  | succeed => exact wired.same fun id => contains_modify _ _ _ id
  | clear => exact wired.same fun id => (contains_rewrite _ _ _ id).trans (contains_modify _ _ _ id)
  | crash => exact wired.same fun id => contains_rewrite _ _ _ id

variable {ingress build : Finset DrvId} {node : DrvNode DrvId} {recorder : Finset (DrvId × DrvBuildState)}
  {change : DrvNode DrvId → DrvNode DrvId} {drv : DrvId}

theorem Sound.put (sound : Sound design) (found : design.nodes.get drv = some node)
    (within : build ⊆ insert drv design.buildQueue)
    (ok : NodeOk design.failedDrvs design.buildQueue design.transitiveFailureMap drv node →
      NodeOk design.failedDrvs build design.transitiveFailureMap drv (change node)) :
    Sound { design with
      nodes := design.nodes.modify drv change
      ingressQueue := ingress, buildQueue := build, recorderQueue := recorder } where
  nodes id other present := by
    rcases Table.of_modify_get found present with ⟨rfl, rfl⟩ | ⟨different, before⟩
    · exact ok (sound.nodes _ node found)
    · exact (sound.nodes id other before).grow (Finset.Subset.refl _) (fun _ => Finset.Subset.refl _)
        fun listed => (Finset.mem_insert.mp (within listed)).resolve_left different
  queued id listed := by
    rw [contains_modify]
    rcases Finset.mem_insert.mp (within listed) with rfl | before
    · rw [Table.contains, found]
      rfl
    · exact sound.queued id before
  covered := sound.covered

theorem Sound.discover (sound : Sound design) {dependencies : Finset DrvId}
    (fresh : node.state = .queued ∧ node.blockingFailures = ∅ ∧ node.buildAttempts = 0) :
    Sound { design with
      nodes := design.nodes.push drv node
      deps := Function.update design.deps drv (some dependencies)
      referrers := fun dep =>
        if dep ∈ dependencies then some (insert drv (setAt design.referrers dep)) else design.referrers dep
      ingressQueue := ingress } where
  nodes id other present := by
    rw [Table.push_get] at present
    split at present
    · obtain rfl := Option.some.inj present
      obtain ⟨queued, unblocked, -⟩ := fresh
      exact {
        blocked := fun same => by cases queued.symm.trans same
        retried := fun same => by cases queued.symm.trans same
        tracked := fun ended => by
          rcases ended with same | ⟨kind, same⟩
          · cases queued.symm.trans same
          · cases queued.symm.trans same
        queued := fun _ => by rw [queued]; rfl
        accounted := fun blocker member => absurd (unblocked ▸ member) (Finset.notMem_empty blocker) }
    · exact sound.nodes id other present
  queued id listed := contains_push drv node (sound.queued id listed)
  covered failed := by
    refine (sound.covered failed).trans (transitiveDependents_mono (fun dep => ?_) failed)
    simp only [setAt]
    split
    · exact Finset.subset_insert _ _
    · exact Finset.Subset.refl _

theorem Sound.settle (sound : Sound design) {message : DrvBuildState} {ended : DrvNode DrvId → DrvNode DrvId}
    (found : design.nodes.get drv = some node) (ends : Ends node ended) :
    Sound (design.settle drv message ended) := by
  have wider : ∀ failed, setAt design.transitiveFailureMap failed ⊆
      setAt (design.settle drv message ended).transitiveFailureMap failed := by
    intro failed
    rw [Pipeline.settle, setAt_update]
    split
    · rename_i same
      exact same ▸ sound.covered failed
    · exact Finset.Subset.refl _
  have dequeued : ∀ id ∈ (design.settle drv message ended).buildQueue, id ≠ drv ∧ id ∈ design.buildQueue ∧
      id ∉ transitiveDependents drv design.referrers := by
    intro id listed
    obtain ⟨different, listed⟩ := Finset.mem_erase.mp listed
    obtain ⟨listed, apart⟩ := Finset.mem_sdiff.mp listed
    exact ⟨different, listed, apart⟩
  have tracked : drv ∈ (design.settle drv message ended).failedDrvs := Finset.mem_insert_self _ _
  have changed : ∀ id other, (design.nodes.modify drv ended).get id = some other →
      NodeOk (design.settle drv message ended).failedDrvs (design.settle drv message ended).buildQueue
        (design.settle drv message ended).transitiveFailureMap id other := by
    intro id other present
    have grown : ∀ node, design.nodes.get id = some node → _ := fun node present =>
      (sound.nodes id node present).grow (Finset.subset_insert drv _) wider fun listed => (dequeued id listed).2.1
    rcases Table.of_modify_get found present with ⟨rfl, rfl⟩ | ⟨-, before⟩
    · exact (grown node found).ends ends tracked fun listed => (dequeued _ listed).1 rfl
    · exact grown other before
  refine ⟨fun id other present => ?_, fun id listed => ?_, fun failed => ?_⟩
  · rw [Pipeline.settle, rewrite_get] at present
    split at present
    · rename_i reached
      obtain ⟨before, standing, rfl⟩ := Option.map_eq_some_iff.mp present
      refine (changed id before standing).block tracked ?_ fun listed => (dequeued id listed).2.2 reached
      rw [Pipeline.settle, setAt_update, if_pos rfl]
      exact reached
    · exact changed id other present
  · rw [Pipeline.settle, contains_rewrite, contains_modify]
    exact sound.queued id (dequeued id listed).2.1
  · rw [Pipeline.settle, setAt_update]
    split
    · rename_i same
      rw [same]
      exact Finset.Subset.refl _
    · exact sound.covered failed

omit [DecidableEq DrvId] in
theorem Clears.ok (clears : Clears node drv build change action) :
    (change node).blockingFailures ⊆ node.blockingFailures ∧
      (drv ∈ build → (change node).state = .queued) ∧
      ((change node).state = .queued ∨ (change node).state = .completed .success) := by
  cases clears with
  | success dequeued => exact ⟨Finset.Subset.refl _, fun listed => absurd listed dequeued, .inr rfl⟩
  | rebuild failed => exact ⟨Finset.empty_subset _, fun _ => rfl, .inl rfl⟩

theorem Sound.clear (sound : Sound design) (found : design.nodes.get drv = some node)
    (fewer : build ⊆ design.buildQueue) (clears : Clears node drv build change action) :
    Sound { Pipeline.clear { design with nodes := design.nodes.modify drv change } drv with
      ingressQueue := ingress, buildQueue := build, recorderQueue := recorder } where
  nodes id other present := by
    rw [Pipeline.clear, rewrite_get, Table.modify_get] at present
    by_cases same : id = drv
    · subst same
      obtain ⟨fewerBlockers, queued, settled⟩ := clears.ok
      have ok := sound.nodes id node found
      rw [if_pos rfl, found, Option.map_some] at present
      split at present
      · obtain rfl := Option.some.inj present
        have either := unblock_state id (change node)
        refine ok.freed ?_ (fun listed => ?_) (Finset.erase_subset_erase id fewerBlockers)
        · rcases either with requeued | same
          · exact .inl requeued
          · exact same ▸ settled
        · exact either.elim (fun requeued => requeued) fun same => same.trans (queued listed)
      · rename_i apart
        obtain rfl := Option.some.inj present
        refine ok.freed settled queued fun blocker member => ?_
        have before := fewerBlockers member
        refine Finset.mem_erase.mpr ⟨fun same => apart ?_, before⟩
        exact same ▸ (ok.accounted blocker before).2
    rw [if_neg same] at present
    split at present
    · obtain ⟨before, standing, rfl⟩ := Option.map_eq_some_iff.mp present
      exact ((sound.nodes id before standing).unblock same).grow (Finset.Subset.refl _) (fun _ => Finset.Subset.refl _) (@fewer id)
    · rename_i apart
      exact ((sound.nodes id other present).keep same apart).grow (Finset.Subset.refl _) (fun _ => Finset.Subset.refl _) (@fewer id)
  queued id listed := by
    rw [Pipeline.clear, contains_rewrite, contains_modify]
    exact sound.queued id (fewer listed)
  covered failed := by
    rw [Pipeline.clear, setAt_update]
    split
    · exact Finset.empty_subset _
    · exact sound.covered failed

theorem Sound.crash (sound : Sound design) {ids : Finset DrvId} :
    Sound { design with
      nodes := rewrite design.nodes ids fun node => { node with state := .queued }
      ingressQueue := ingress, buildQueue := ∅, recorderQueue := ∅ } where
  nodes id other present := by
    rw [rewrite_get] at present
    split at present
    · obtain ⟨before, standing, rfl⟩ := Option.map_eq_some_iff.mp present
      exact (sound.nodes id before standing).relive rfl fun same => by cases same
    · exact (sound.nodes id other present).grow (Finset.Subset.refl _) (fun _ => Finset.Subset.refl _)
        fun listed => absurd listed (Finset.notMem_empty id)
  queued id listed := absurd listed (Finset.notMem_empty id)
  covered := sound.covered

theorem Effect.sound (effect : Effect design action next) (sound : Sound design) : Sound next := by
  cases effect with
  | discover new known fresh => exact sound.discover fresh
  | queues fewer =>
    exact {
      nodes := fun id node present => (sound.nodes id node present).grow (Finset.Subset.refl _)
        (fun _ => Finset.Subset.refl _) (@fewer id)
      queued := fun id listed => sound.queued id (fewer listed)
      covered := sound.covered }
  | route found live ready within =>
    refine sound.put found within fun ok => ok.relive ?_ ?_
    · split <;> rfl
    · intro again
      split at again
      · rename_i waiting
        exact ok.retried waiting
      · cases again
  | start found listed waiting =>
    exact sound.put found ((Finset.erase_subset _ _).trans (Finset.subset_insert _ _)) fun ok => ok.relive rfl fun same => by cases same
  | retry found live first =>
    exact sound.put found (Finset.subset_insert _ _) fun ok => ok.relive rfl fun _ => Nat.le_add_left 1 _
  | settle found live ends => exact sound.settle found ends
  | @succeed drv node ingress recorder found untracked =>
    refine sound.put found ((Finset.erase_subset _ _).trans (Finset.subset_insert _ _)) fun ok => ?_
    exact {
      blocked same := by cases same
      retried same := by cases same
      tracked := fun ended => by
        rcases ended with same | ⟨kind, same⟩
        · cases same
        · cases same
      queued := fun listed => absurd listed (Finset.notMem_erase drv _)
      accounted := ok.accounted }
  | clear found tracked fewer clears => exact sound.clear found fewer clears
  | crash transient => exact sound.crash

theorem sound_init : Sound (Pipeline.init : Pipeline DrvId) where
  nodes _ _ present := by cases present
  queued id listed := absurd listed (Finset.notMem_empty id)
  covered _ := Finset.empty_subset _

omit [DecidableEq DrvId] in
theorem wired_init : Wired (Pipeline.init : Pipeline DrvId) where
  known _ dep member := absurd member (Finset.notMem_empty dep)
  listed _ dep member := absurd member (Finset.notMem_empty dep)
  ranked := ⟨fun _ => 0, fun _ dep member => absurd member (Finset.notMem_empty dep)⟩

/-- What the specification declares and its actions keep, and why a blocked drv
can be trusted to be unblocked: what blocks it is a tracked failure that knows of it. -/
structure Safe (design : Pipeline DrvId) : Prop where
  transitiveFailureHasBlocker : design.InvTransitiveFailureHasBlocker
  failedInSet : design.InvFailedInSet
  buildQueueNotTerminal : design.InvBuildQueueNotTerminal
  dag : design.InvDag
  referrersConsistent : design.InvReferrersConsistent
  nonRetryableInterruptedTracked : design.InvNonRetryableInterruptedTracked
  failedRetryHasAttempts : design.InvFailedRetryHasAttempts
  accounted : ∀ id node, design.nodes.get id = some node → ∀ blocker ∈ node.blockingFailures,
    blocker ∈ design.failedDrvs ∧ id ∈ setAt design.transitiveFailureMap blocker

theorem Wired.dag (wired : Wired design) : design.InvDag := by
  intro id _ cycle
  obtain ⟨rank, ranked⟩ := wired.ranked
  have descends : ∀ {dep}, Relation.TransGen (fun drv dep => dep ∈ setAt design.deps drv) id dep → rank dep < rank id := by
    intro dep path
    induction path with
    | single member => exact ranked id _ member
    | tail _ member ih => exact (ranked _ _ member).trans ih
  exact absurd (descends (transGen_of_mem_transitiveDependents cycle)) (Nat.lt_irrefl _)

/-- In every run of the design, with any number of drvs and its actions in any
order, all but two of the declared invariants hold in every state. -/
theorem run_safe {actions : List (Action DrvId)} (run : AnyRun Pipeline.step .init actions design) : Safe design := by
  have sound := run.invariant sound_init fun _ _ _ sound _ taken => (Pipeline.step_effect taken).sound sound
  have wired := run.invariant wired_init fun _ _ _ wired _ taken => (Pipeline.step_effect taken).wired wired
  exact {
    transitiveFailureHasBlocker := fun id node found same =>
      Finset.card_pos.mpr (Finset.nonempty_iff_ne_empty.mpr ((sound.nodes id node found).blocked same))
    failedInSet := fun id node found failed _ => (sound.nodes id node found).tracked (.inl failed)
    buildQueueNotTerminal := fun id listed => by
      obtain ⟨node, found⟩ := Option.isSome_iff_exists.mp (sound.queued id listed)
      exact ⟨node, found, (sound.nodes id node found).queued listed⟩
    dag := wired.dag
    referrersConsistent := fun id dependencies known dep member => by
      have listed := wired.listed id dep (by rw [setAt, known]; exact member)
      rw [setAt] at listed
      cases recorded : design.referrers dep with
      | none =>
        rw [recorded] at listed
        exact absurd listed (Finset.notMem_empty id)
      | some ids =>
        rw [recorded] at listed
        exact ⟨ids, rfl, listed⟩
    nonRetryableInterruptedTracked := fun id node kind found same _ => (sound.nodes id node found).tracked (.inr ⟨kind, same⟩)
    failedRetryHasAttempts := fun id node found again => (sound.nodes id node found).retried again
    accounted := fun id node found => (sound.nodes id node found).accounted }

/-- A drv fails twice under one that depends on it. -/
def failing : List (Action Nat) :=
  [.evalDiscover 0 "x86_64-linux" false ∅, .evalDiscover 1 "x86_64-linux" false {0}, .ingressProcess 0 true,
    .startBuild 0, .buildComplete 0 .failure, .recordFailureFirst 0, .ingressProcess 0 true, .startBuild 0,
    .buildInterrupted 0 .timeout, .recordInterruptedRetryablePermanent 0 .timeout]

theorem failing_safe : ∃ design, AnyRun Pipeline.step .init failing design ∧ Safe design ∧
    design.nodes.get 1 = some ⟨.transitiveFailure, false, "x86_64-linux", {0}, 0⟩ := by
  have ends : (exec Pipeline.step .init failing).bind (·.nodes.get 1) =
      some ⟨.transitiveFailure, false, "x86_64-linux", {0}, 0⟩ := by decide +kernel
  obtain ⟨design, performed, found⟩ := Option.bind_eq_some_iff.mp ends
  exact ⟨design, run_of_exec performed, run_safe (run_of_exec performed), found⟩

end EkaCI.Design
