import EkaCI.Design.Order
import EkaCI.Graph.Mirror
import EkaCI.Scheduler.System

/-! The graph service against the design: it is told of every action of a run of
the design as the scheduler's services tell it, and holds the same. The two part
where the service has no rule of the design or the design has a bound of its own,
so the steps of a run are asked to stay clear of that. -/

namespace EkaCI

open Lib

/-- What the graph keeps that changes with a build: the state and what blocks it. -/
def GraphNode.held {DrvId : Type} (node : GraphNode DrvId) : DrvBuildState × Finset DrvId :=
  (node.buildState, node.blockingFailures)

namespace Design

variable {DrvId : Type} [DecidableEq DrvId]

omit [DecidableEq DrvId] in
def DrvNode.held (node : DrvNode DrvId) : DrvBuildState × Finset DrvId := (node.state, node.blockingFailures)

/-- An action with what the specification leaves out of it. -/
structure Round (DrvId : Type) where
  action : Action DrvId
  now : Instant
  /-- The references of a new drv, in the order they are handed over. -/
  refs : List DrvId
  requiredSystemFeatures : Option String

/-- The design and the graph service, side by side. -/
structure Joint (DrvId : Type) where
  design : Pipeline DrvId
  service : GraphService DrvId

/-- A drv ends for good. -/
def settleCommands (drv : DrvId) (state : DrvBuildState) : List (GraphCommand DrvId) :=
  [.updateState drv state, .propagateFailure drv]

/-- Whether any builder has the features that a drv asks for. -/
def canBuild (builders : BuilderFeatureSnapshot) (service : GraphService DrvId) (drv : DrvId) : Bool :=
  builders.canBuild ((service.sharedView.get drv).bind (·.requiredSystemFeatures))

/-- What the services tell the graph when they take an action. Ingress goes by
the shared view, and leaves a spent attempt visible. -/
def commands (builders : BuilderFeatureSnapshot) (service : GraphService DrvId) (round : Round DrvId) :
    List (GraphCommand DrvId) :=
  match round.action with
  | .evalDiscover drv system isFod _ =>
    [.insertDrvs [⟨drv, system, false, round.requiredSystemFeatures, isFod, .queued⟩] (round.refs.map (drv, ·))]
  | .ingressProcess drv _ =>
    if service.sharedView.isBuildable drv ∧ canBuild builders service drv ∧
        service.sharedView.getBuildState drv ≠ some .failedRetry then
      [.updateState drv .buildable]
    else []
  | .startBuild drv => [.updateState drv .building]
  | .recordSuccess drv => [.updateState drv (.completed .success), .clearFailure drv]
  | .recordFailureFirst drv => [.updateState drv .failedRetry]
  | .recordInterruptedRetryableFirst drv _ => [.updateState drv .failedRetry]
  | .recordFailurePermanent drv => settleCommands drv (.completed .failure)
  | .recordInterruptedRetryablePermanent drv _ => settleCommands drv (.completed .failure)
  | .recordInterruptedNonRetryable drv kind => settleCommands drv (.interrupted kind)
  | .rebuildFailed drv => [.updateState drv .queued]
  | _ => []

/-- The service handles commands one after the other. -/
def tell (service : GraphService DrvId) (now : Instant) (commands : List (GraphCommand DrvId)) : GraphService DrvId :=
  commands.foldl (fun service command => (service.process now command).2) service

def Joint.start (capacity : Nat) (positive : 0 < capacity) (now : Instant) : Joint DrvId :=
  ⟨.init, .new .empty capacity positive now⟩

def Joint.step (builders : BuilderFeatureSnapshot) (joint : Joint DrvId) (round : Round DrvId) : Option (Joint DrvId) :=
  (joint.design.step round.action).map fun next =>
    ⟨next, tell joint.service round.now (commands builders joint.service round)⟩

/-- The twenty rounds find every dependent, and none of them is finished. -/
def Reaches (design : Pipeline DrvId) (drv : DrvId) : Prop :=
  widen design.referrers (transitiveDependents drv design.referrers) = transitiveDependents drv design.referrers ∧
    ∀ id ∈ transitiveDependents drv design.referrers,
      (design.nodes.get id).any (·.state.isPropagationImmune) = false

instance (design : Pipeline DrvId) (drv : DrvId) : Decidable (Reaches design drv) :=
  inferInstanceAs (Decidable (_ ∧ _))

/-- What an action needs for the graph service to follow the design. A new drv
must find room in the cache. What ingress finds ready must not be finished, for
the service has no rule against building it again, nor ask for what no builder
has, which the design knows nothing of; and the service never takes back what a
failure has blocked when that is to be built again. -/
def Suits (builders : BuilderFeatureSnapshot) (joint : Joint DrvId) (round : Round DrvId) : Prop :=
  match round.action with
  | .evalDiscover _ _ _ dependencies => round.refs.toFinset = dependencies ∧
      joint.service.graph.nodes.keys.length < joint.service.graph.nodes.cap
  | .ingressProcess drv _ => isBuildable drv joint.design.deps joint.design.nodes →
      (joint.design.nodes.get drv).any (·.state.isTerminal) = false ∧ canBuild builders joint.service drv = true
  | .recordFailurePermanent drv => Reaches joint.design drv
  | .recordInterruptedRetryablePermanent drv _ => Reaches joint.design drv
  | .recordInterruptedNonRetryable drv _ => Reaches joint.design drv
  | .rebuildFailed _ => False
  | .crashRecovery => False
  | _ => True

instance (builders : BuilderFeatureSnapshot) (joint : Joint DrvId) (round : Round DrvId) :
    Decidable (Suits builders joint round) := by
  unfold Suits
  split <;> infer_instance

/-- An action suits the service, and it has not come to forget a failure. -/
def Conforms (builders : BuilderFeatureSnapshot) (joint : Joint DrvId) (round : Round DrvId) : Prop :=
  joint.service.graph.staleFailures round.now = [] ∧ Suits builders joint round

instance (builders : BuilderFeatureSnapshot) (joint : Joint DrvId) (round : Round DrvId) :
    Decidable (Conforms builders joint round) :=
  inferInstanceAs (Decidable (_ ∧ _))

/-- Nothing is filed under a drv that is not there. -/
structure Filed (design : Pipeline DrvId) : Prop where
  untracked : ∀ drv, drv ∉ design.failedDrvs → setAt design.transitiveFailureMap drv = ∅
  known : ∀ id, (design.deps id).isSome = design.nodes.contains id
  referred : ∀ dep, ∀ id ∈ setAt design.referrers dep, dep ∈ setAt design.deps id

section Filed

variable {design next : Pipeline DrvId} {action : Action DrvId}

omit [DecidableEq DrvId] in
theorem Filed.same (filed : Filed design) {nodes : Table DrvId (DrvNode DrvId)}
    {ingress build : Finset DrvId} {recorder : Finset (DrvId × DrvBuildState)}
    (same : ∀ id, nodes.contains id = design.nodes.contains id) :
    Filed ⟨nodes, design.deps, design.referrers, design.failedDrvs, design.transitiveFailureMap, ingress, build, recorder⟩ :=
  ⟨filed.untracked, fun id => (filed.known id).trans (same id).symm, filed.referred⟩

theorem Filed.discover (filed : Filed design) {drv : DrvId} {node : DrvNode DrvId} {dependencies ingress : Finset DrvId}
    (new : design.nodes.contains drv = false) :
    Filed { design with
      nodes := design.nodes.push drv node
      deps := Function.update design.deps drv (some dependencies)
      referrers := fun dep =>
        if dep ∈ dependencies then some (insert drv (setAt design.referrers dep)) else design.referrers dep
      ingressQueue := ingress } where
  untracked := filed.untracked
  known id := by
    dsimp only
    rw [Function.update_apply, Table.contains, Table.push_get]
    split
    · rfl
    · exact filed.known id
  referred dep id referred := by
    have absent : design.deps drv = none := by
      have missing := filed.known drv
      rw [new] at missing
      exact Option.not_isSome_iff_eq_none.mp (by simp [missing])
    have old : ∀ dep, id ∈ setAt design.referrers dep → id ≠ drv := by
      intro dep listed same
      have linked := filed.referred dep id listed
      rw [same, setAt, absent] at linked
      exact absurd linked (Finset.notMem_empty dep)
    simp only [setAt_update]
    simp only [setAt] at referred
    split at referred
    · rename_i member
      rcases Finset.mem_insert.mp referred with same | listed
      · rw [if_pos same]
        exact member
      · rw [if_neg (old dep listed)]
        exact filed.referred dep id listed
    · rw [if_neg (old dep referred)]
      exact filed.referred dep id referred

theorem Effect.filed (effect : Effect design action next) (filed : Filed design) : Filed next := by
  cases effect with
  | discover new known fresh => exact filed.discover new
  | queues fewer => exact filed.same fun _ => rfl
  | route | start | retry => exact filed.same (contains_modify _ _ _)
  | @settle drv node message ended found live ends =>
    refine ⟨fun other untracked => ?_, fun id => ?_, filed.referred⟩
    · obtain ⟨different, untracked⟩ := not_or.mp fun listed => untracked (Finset.mem_insert.mpr listed)
      simp only [Pipeline.settle, setAt_update]
      rw [if_neg different]
      exact filed.untracked other untracked
    · exact (filed.known id).trans ((contains_rewrite ..).trans (contains_modify ..)).symm
  | succeed => exact filed.same (contains_modify _ _ _)
  | @clear drv node change ingress build recorder found tracked fewer clears =>
    refine ⟨fun other untracked => ?_, fun id => ?_, filed.referred⟩
    · simp only [Pipeline.clear, setAt_update]
      split
      · rfl
      · rename_i different
        exact filed.untracked other fun listed => untracked (Finset.mem_erase.mpr ⟨different, listed⟩)
    · exact (filed.known id).trans ((contains_rewrite ..).trans (contains_modify ..)).symm
  | crash => exact filed.same (contains_rewrite _ _ _)

omit [DecidableEq DrvId] in
theorem filed_init : Filed (Pipeline.init : Pipeline DrvId) where
  untracked _ _ := rfl
  known _ := rfl
  referred _ id member := absurd member (Finset.notMem_empty id)

end Filed

section Dependents

variable {design : Pipeline DrvId} {drv id : DrvId}

theorem mem_transitiveDependents {root : DrvId} {refMap : DrvId → Option (Finset DrvId)}
    (complete : widen refMap (transitiveDependents root refMap) = transitiveDependents root refMap) :
    id ∈ transitiveDependents root refMap ↔
      Relation.TransGen (fun drv dependent => dependent ∈ setAt refMap drv) root id := by
  refine ⟨transGen_of_mem_transitiveDependents, fun path => ?_⟩
  have direct : ∀ count : Nat, setAt refMap root ⊆ (widen refMap)^[count] (setAt refMap root) := by
    intro count
    induction count with
    | zero => exact Finset.Subset.refl _
    | succ count ih =>
      rw [Function.iterate_succ_apply']
      exact ih.trans Finset.subset_union_left
  induction path with
  | single edge => exact direct 20 edge
  | tail _ edge ih =>
    rw [← complete]
    exact mem_widen.mpr (.inr ⟨_, ih, edge⟩)

theorem Wired.acyclic (wired : Wired design) (filed : Filed design) :
    drv ∉ transitiveDependents drv design.referrers := by
  intro cycle
  obtain ⟨rank, ranked⟩ := wired.ranked
  have climbs : ∀ {id}, Relation.TransGen (fun drv dependent => dependent ∈ setAt design.referrers drv) drv id →
      rank drv < rank id := by
    intro id path
    induction path with
    | single edge => exact ranked _ _ (filed.referred _ _ edge)
    | tail _ edge ih => exact ih.trans (ranked _ _ (filed.referred _ _ edge))
  exact absurd (climbs (transGen_of_mem_transitiveDependents cycle)) (Nat.lt_irrefl _)

end Dependents

section Tracking

variable {graph next : BuildGraph DrvId} {now : Instant} {drv : DrvId} {state : DrvBuildState}

omit [DecidableEq DrvId] in
theorem staleFailures_eq_nil : graph.staleFailures now = [] ↔
    ∀ id recorded, graph.failedDrvs.get id = some recorded → ¬ recorded < now - graph.failureTtl := by
  rw [BuildGraph.staleFailures, List.filter_eq_nil_iff]
  constructor
  · intro recent id recorded found
    have kept := recent id (Table.mem_keys_of_get found)
    simpa [found] using kept
  · intro recent id _
    cases found : graph.failedDrvs.get id with
    | none => simp
    | some recorded => simpa using recent id recorded found

theorem updateState_ttl : (graph.updateState now drv state).failureTtl = graph.failureTtl := by
  unfold BuildGraph.updateState
  split <;> rfl

theorem updateState_failedDrvs (lasting : state ≠ .completed .failure) {id : DrvId}
    (member : id ∈ (graph.updateState now drv state).failedDrvs.keys) : id ∈ graph.failedDrvs.keys := by
  unfold BuildGraph.updateState at member
  split at member
  · exact member
  · dsimp only at member
    split at member
    · exact absurd rfl lasting
    · rw [Table.erase_keys] at member
      exact List.mem_of_mem_erase member
    · exact member

theorem mem_updateState_failedDrvs {id : DrvId} (member : id ∈ (graph.updateState now drv state).failedDrvs.keys) :
    id = drv ∨ id ∈ graph.failedDrvs.keys := by
  by_cases failed : state = .completed .failure
  · rw [failed] at member
    unfold BuildGraph.updateState at member
    split at member
    · exact .inr member
    · rw [Table.push_keys] at member
      rcases List.mem_cons.mp member with same | before
      · exact .inl same
      · exact .inr (List.mem_of_mem_erase before)
  · exact .inr (updateState_failedDrvs failed member)

theorem succeeded_untracked {node : GraphNode DrvId} (resident : graph.getNode drv = some node) :
    drv ∉ (graph.updateState now drv (.completed .success)).failedDrvs.keys := by
  rw [BuildGraph.updateState, resident]
  exact Table.get_none_iff.mp (Table.erase_get_self graph.failedDrvs drv)

theorem updateState_recent (ttl : 0 ≤ graph.failureTtl) (recent : graph.staleFailures now = []) :
    (graph.updateState now drv state).staleFailures now = [] := by
  rw [staleFailures_eq_nil] at recent ⊢
  intro id recorded found
  rw [updateState_ttl]
  unfold BuildGraph.updateState at found
  split at found
  · exact recent id recorded found
  · dsimp only at found
    split at found
    · rw [Table.push_get] at found
      split at found
      · obtain rfl := Option.some.inj found
        exact Int.not_lt.mpr (Int.sub_le_self _ ttl)
      · exact recent id recorded found
    · rw [Table.erase_get] at found
      split at found
      · cases found
      · exact recent id recorded found
    · exact recent id recorded found

theorem clearFailure_tracking : (graph.clearFailure drv).2.failedDrvs = graph.failedDrvs ∧
    (graph.clearFailure drv).2.failureTtl = graph.failureTtl := by
  unfold BuildGraph.clearFailure
  split
  · exact ⟨rfl, rfl⟩
  · rename_i blockedSet _
    refine List.foldlRecOn blockedSet _ (motive := fun cleared : List DrvId × BuildGraph DrvId =>
      cleared.2.failedDrvs = graph.failedDrvs ∧ cleared.2.failureTtl = graph.failureTtl) ⟨rfl, rfl⟩ ?_
    intro cleared held blockedId _
    unfold BuildGraph.unblock
    dsimp only
    split
    · exact held
    · split <;> exact held

theorem extend_tracking {drv : Drv DrvId} (live : drv.buildState ≠ .completed .failure) (refs : List (DrvId × DrvId)) :
    (graph.extend now [drv] refs).failedDrvs = graph.failedDrvs ∧
      (graph.extend now [drv] refs).failureTtl = graph.failureTtl := by
  refine List.foldlRecOn refs _ (motive := fun next : BuildGraph DrvId =>
    next.failedDrvs = graph.failedDrvs ∧ next.failureTtl = graph.failureTtl) ?_ fun _ held _ _ => held
  exact ⟨if_neg live, rfl⟩

end Tracking

structure Agrees (design : Pipeline DrvId) (graph : BuildGraph DrvId) : Prop where
  nodes : ∀ id, (graph.getNode id).map GraphNode.held = (design.nodes.get id).map DrvNode.held
  dependencies : ∀ id dep, dep ∈ graph.getDependencies id ↔ dep ∈ setAt design.deps id
  dependents : ∀ id dependent, graph.Dependent id dependent ↔ dependent ∈ setAt design.referrers id
  blocks : ∀ failed id, id ∈ graph.blockedBy failed ↔ id ∈ setAt design.transitiveFailureMap failed
  tracked : ∀ id ∈ graph.failedDrvs.keys, id ∈ design.failedDrvs
  ttl : 0 ≤ graph.failureTtl

section Agrees

variable {design : Pipeline DrvId} {graph : BuildGraph DrvId} {drv : DrvId} {now : Instant} {state : DrvBuildState}

omit [DecidableEq DrvId] in
theorem map_held {left : Option (GraphNode DrvId)} {right : Option (DrvNode DrvId)}
    {change : GraphNode DrvId → GraphNode DrvId} {design : DrvNode DrvId → DrvNode DrvId}
    (same : left.map GraphNode.held = right.map DrvNode.held)
    (kept : ∀ node spec, right = some spec → node.held = spec.held → (change node).held = (design spec).held) :
    (left.map change).map GraphNode.held = (right.map design).map DrvNode.held := by
  cases left with
  | none =>
    cases right with
    | none => rfl
    | some spec => cases same
  | some node =>
    cases right with
    | none => cases same
    | some spec => exact congrArg some (kept node spec rfl (Option.some.inj same))

theorem Agrees.strictDependent (agrees : Agrees design graph) (wired : Wired design) (filed : Filed design)
    (complete : widen design.referrers (transitiveDependents drv design.referrers) =
      transitiveDependents drv design.referrers) (id : DrvId) :
    graph.StrictDependent drv id ↔ id ∈ transitiveDependents drv design.referrers := by
  have edges : graph.Dependent = fun drv dependent => dependent ∈ setAt design.referrers drv := by
    funext drv dependent
    exact propext (agrees.dependents drv dependent)
  rw [BuildGraph.StrictDependent, edges, ← mem_transitiveDependents complete]
  refine ⟨And.right, fun member => ⟨fun same => ?_, member⟩⟩
  rw [same] at member
  exact wired.acyclic filed member

omit [DecidableEq DrvId] in
theorem Agrees.stateOf (agrees : Agrees design graph) (id : DrvId) :
    graph.stateOf id = (design.nodes.get id).map (·.state) := by
  have same := congrArg (Option.map Prod.fst) (agrees.nodes id)
  rw [Option.map_map, Option.map_map] at same
  exact same

omit [DecidableEq DrvId] in
theorem Agrees.blockers (agrees : Agrees design graph) (id : DrvId) :
    graph.getFailedDependencies id = ((design.nodes.get id).map (·.blockingFailures)).getD ∅ := by
  have same := congrArg (Option.map Prod.snd) (agrees.nodes id)
  rw [Option.map_map, Option.map_map] at same
  exact congrArg (Option.getD · ∅) same

omit [DecidableEq DrvId] in
theorem Agrees.isBuildable (agrees : Agrees design graph) (filed : Filed design) (id : DrvId) :
    graph.isBuildable id = true ↔ isBuildable id design.deps design.nodes := by
  have known := filed.known id
  have nodes := agrees.nodes id
  have listed := agrees.dependencies id
  simp only [BuildGraph.getDependencies] at listed
  rw [Design.isBuildable, BuildGraph.isBuildable]
  cases found : graph.getNode id with
  | none =>
    rw [found] at nodes
    have absent : design.nodes.get id = none := Option.map_eq_none_iff.mp nodes.symm
    rw [Table.contains, absent] at known
    have unfiled : design.deps id = none := Option.not_isSome_iff_eq_none.mp (by simp [known])
    simp [unfiled]
  | some node =>
    rw [found] at nodes listed
    obtain ⟨spec, present, -⟩ := Option.map_eq_some_iff.mp nodes.symm
    rw [Table.contains, present] at known
    obtain ⟨dependencies, filed⟩ := Option.isSome_iff_exists.mp known
    simp only [setAt, filed, Option.map_some, Option.getD_some] at listed
    simp only [filed, Option.mem_def, Option.some.injEq, exists_eq_left', List.all_eq_true, decide_eq_true_eq,
      agrees.stateOf, listed]

theorem Agrees.updateState (agrees : Agrees design graph) {change : DrvNode DrvId → DrvNode DrvId}
    {ingress build : Finset DrvId} {recorder : Finset (DrvId × DrvBuildState)}
    (becomes : ∀ spec, design.nodes.get drv = some spec → (change spec).held = (state, spec.blockingFailures))
    (lasting : state ≠ .completed .failure) :
    Agrees { design with
      nodes := design.nodes.modify drv change
      ingressQueue := ingress, buildQueue := build, recorderQueue := recorder } (graph.updateState now drv state) where
  nodes id := by
    rw [BuildGraph.updateState_getNode, Table.modify_get]
    split
    · rename_i same
      subst same
      refine map_held (agrees.nodes id) fun node spec found held => ?_
      rw [becomes spec found]
      have blockers : node.blockingFailures = spec.blockingFailures := congrArg Prod.snd held
      exact Prod.ext rfl blockers
    · exact agrees.nodes id
  dependencies id dep := by
    rw [BuildGraph.updateState_getDependencies]
    exact agrees.dependencies id dep
  dependents id dependent := by
    rw [BuildGraph.Dependent, BuildGraph.updateState_topology.dependents]
    exact agrees.dependents id dependent
  blocks failed id := by
    rw [BuildGraph.updateState_blockedBy]
    exact agrees.blocks failed id
  tracked id member := agrees.tracked id (updateState_failedDrvs lasting member)
  ttl := agrees.ttl.trans_eq updateState_ttl.symm

theorem Agrees.settle (agrees : Agrees design graph) (wired : Wired design) (filed : Filed design)
    {message : DrvBuildState} {ended : DrvNode DrvId → DrvNode DrvId}
    (ends : ∀ spec, (ended spec).held = (state, spec.blockingFailures)) (reaches : Reaches design drv) :
    Agrees (design.settle drv message ended) ((graph.updateState now drv state).propagateFailure drv).2 := by
  obtain ⟨complete, unfinished⟩ := reaches
  have topology := @BuildGraph.updateState_topology _ _ graph now drv state
  have reached (id : DrvId) : (graph.updateState now drv state).StrictDependent drv id ↔
      id ∈ transitiveDependents drv design.referrers :=
    (topology.strictDependent drv id).trans (agrees.strictDependent wired filed complete id)
  constructor
  · intro id
    rw [BuildGraph.propagateFailure_getNode, BuildGraph.updateState_getNode, Pipeline.settle, rewrite_get, Table.modify_get]
    simp only [reached]
    by_cases member : id ∈ transitiveDependents drv design.referrers
    · have different : id ≠ drv := fun same => wired.acyclic filed (same ▸ member)
      rw [if_pos member, if_pos member, if_neg different, if_neg different]
      refine map_held (agrees.nodes id) fun node spec found held => ?_
      have exposed := unfinished id member
      rw [found, Option.any_some] at exposed
      have blockers : node.blockingFailures = spec.blockingFailures := congrArg Prod.snd held
      rw [DrvNode.block, exposed, GraphNode.block, GraphNode.held, blockers]
      rfl
    · rw [if_neg member, if_neg member]
      split
      · rename_i same
        refine map_held (agrees.nodes id) fun node spec _ held => ?_
        rw [ends]
        have blockers : node.blockingFailures = spec.blockingFailures := congrArg Prod.snd held
        exact Prod.ext rfl blockers
      · exact agrees.nodes id
  · intro id dep
    rw [BuildGraph.propagateFailure_getDependencies, BuildGraph.updateState_getDependencies]
    exact agrees.dependencies id dep
  · intro id dependent
    rw [BuildGraph.Dependent, ((BuildGraph.propagateFailure_topology _ drv).trans topology).dependents]
    exact agrees.dependents id dependent
  · intro failed id
    rw [BuildGraph.propagateFailure_blockedBy, Pipeline.settle, setAt_update]
    split
    · rw [BuildGraph.mem_getAllTransitiveDependents, reached]
      rfl
    · rw [BuildGraph.updateState_blockedBy]
      exact agrees.blocks failed id
  · intro id member
    rw [(BuildGraph.propagateFailure_frame _ drv).2.2.1] at member
    rcases mem_updateState_failedDrvs member with same | before
    · exact Finset.mem_insert.mpr (.inl same)
    · exact Finset.mem_insert_of_mem (agrees.tracked id before)
  · rw [(BuildGraph.propagateFailure_frame _ drv).2.2.2.1, updateState_ttl]
    exact agrees.ttl

omit [DecidableEq DrvId] in
theorem Agrees.resident (agrees : Agrees design graph) {spec : DrvNode DrvId} (found : design.nodes.get drv = some spec) :
    ∃ node, graph.getNode drv = some node := by
  have same := agrees.nodes drv
  rw [found] at same
  obtain ⟨node, resident, -⟩ := Option.map_eq_some_iff.mp same
  exact ⟨node, resident⟩

theorem Agrees.succeed (agrees : Agrees design graph) {spec : DrvNode DrvId}
    (found : design.nodes.get drv = some spec) {ingress build : Finset DrvId} {recorder : Finset (DrvId × DrvBuildState)} :
    Agrees { Pipeline.clear { design with nodes := design.nodes.modify drv DrvNode.succeed } drv with
        ingressQueue := ingress, buildQueue := build, recorderQueue := recorder }
      ((graph.updateState now drv (.completed .success)).clearFailure drv).2 := by
  have updated : Agrees { design with nodes := design.nodes.modify drv DrvNode.succeed }
      (graph.updateState now drv (.completed .success)) := agrees.updateState (fun _ _ => rfl) (by simp)
  constructor
  · intro id
    rw [BuildGraph.clearFailure_getNode, Pipeline.clear, rewrite_get]
    simp only [updated.blocks]
    split
    · refine map_held (updated.nodes id) fun node spec _ held => ?_
      have states : node.buildState = spec.state := congrArg Prod.fst held
      have blockers : node.blockingFailures = spec.blockingFailures := congrArg Prod.snd held
      simp only [GraphNode.unblock, DrvNode.unblock, GraphNode.held, DrvNode.held, blockers]
      split
      · rfl
      · rw [states]
    · exact updated.nodes id
  · intro id dep
    rw [BuildGraph.clearFailure_getDependencies]
    exact updated.dependencies id dep
  · intro id dependent
    rw [BuildGraph.Dependent, (BuildGraph.clearFailure_topology _ drv).dependents]
    exact updated.dependents id dependent
  · intro failed id
    rw [BuildGraph.clearFailure_blockedBy, Pipeline.clear, setAt_update]
    split
    · simp
    · exact updated.blocks failed id
  · intro id member
    rw [clearFailure_tracking.1] at member
    refine Finset.mem_erase.mpr ⟨fun same => ?_, updated.tracked id member⟩
    subst same
    obtain ⟨node, resident⟩ := agrees.resident found
    exact succeeded_untracked resident member
  · rw [clearFailure_tracking.2]
    exact updated.ttl

omit [DecidableEq DrvId] in
theorem Agrees.congr (agrees : Agrees design graph) {other : Pipeline DrvId}
    (nodes : ∀ id, other.nodes.get id = design.nodes.get id) (deps : other.deps = design.deps)
    (referrers : other.referrers = design.referrers)
    (map : ∀ id, setAt other.transitiveFailureMap id = setAt design.transitiveFailureMap id)
    (failed : design.failedDrvs ⊆ other.failedDrvs) : Agrees other graph where
  nodes id := (nodes id).symm ▸ agrees.nodes id
  dependencies id dep := deps.symm ▸ agrees.dependencies id dep
  dependents id dependent := referrers.symm ▸ agrees.dependents id dependent
  blocks failed id := map failed ▸ agrees.blocks failed id
  tracked id member := failed (agrees.tracked id member)
  ttl := agrees.ttl

omit [DecidableEq DrvId] in
theorem getNode_held (id : DrvId) : (graph.getNode id).map GraphNode.held =
    (graph.stateOf id).map fun state => (state, graph.getFailedDependencies id) := by
  rw [BuildGraph.stateOf, BuildGraph.getFailedDependencies]
  cases graph.getNode id <;> rfl

theorem Agrees.discover (agrees : Agrees design graph) {system : String} {isFod : Bool}
    {features : Option String} {refs : List DrvId} {ingress : Finset DrvId}
    (new : design.nodes.contains drv = false) (known : ∀ dep ∈ refs.toFinset, design.nodes.contains dep = true)
    (room : graph.nodes.keys.length < graph.nodes.cap) :
    Agrees { design with
        nodes := design.nodes.push drv ⟨.queued, isFod, system, ∅, 0⟩
        deps := Function.update design.deps drv (some refs.toFinset)
        referrers := fun dep =>
          if dep ∈ refs.toFinset then some (insert drv (setAt design.referrers dep)) else design.referrers dep
        ingressQueue := ingress }
      (graph.extend now [⟨drv, system, false, features, isFod, .queued⟩] (refs.map (drv, ·))) := by
  have absent : graph.getNode drv = none := by
    have nodes := agrees.nodes drv
    have missing : design.nodes.get drv = none := Option.not_isSome_iff_eq_none.mp (by simpa [Table.contains] using new)
    rw [missing] at nodes
    exact Option.map_eq_none_iff.mp nodes
  have unlisted : drv ∉ graph.nodes.keys := by
    rw [LruCache.mem_keys_iff, ← BuildGraph.getNode, absent]
    simp
  have held : BuildGraph.Extended graph [⟨drv, system, false, features, isFod, .queued⟩] (refs.map (drv, ·))
      (graph.extend now [⟨drv, system, false, features, isFod, .queued⟩] (refs.map (drv, ·))) :=
    BuildGraph.extend_extended (refs.map (drv, ·)) room (List.nodup_singleton drv) (by simpa using unlisted)
  have listed (source target : DrvId) : (source, target) ∈ refs.map (drv, ·) ↔ source = drv ∧ target ∈ refs := by
    simp [eq_comm, and_comm]
  constructor
  · intro id
    rw [getNode_held, held.blockers, Table.push_get]
    split
    · rename_i same
      subst same
      rw [held.inserted _ (List.mem_singleton_self _), BuildGraph.getFailedDependencies, absent]
      rfl
    · rename_i different
      rw [held.kept id (by simpa using different), ← getNode_held]
      exact agrees.nodes id
  · intro id dep
    rw [BuildGraph.extend, BuildGraph.addEdges_getDependencies, listed, setAt_update, BuildGraph.getDependencies]
    simp only [List.foldl_cons, List.foldl_nil, BuildGraph.insertNode_getNode_of_room room]
    split
    · rename_i same
      subst same
      have present : id ∈ (graph.insertNode now ⟨id, system, false, features, isFod, .queued⟩).2.nodes.keys :=
        LruCache.mem_keys_iff.mpr ⟨_, BuildGraph.insertNode_getNode_self⟩
      simp [GraphNode.fromDrv, present]
    · rename_i different
      simp only [different, false_and, and_false, or_false]
      exact agrees.dependencies id dep
  · intro id dependent
    rw [held.dependent, held.resident, listed, agrees.dependents]
    simp only [setAt]
    split
    · rename_i member
      obtain ⟨spec, found⟩ := Option.isSome_iff_exists.mp (known id member)
      obtain ⟨node, resident⟩ := agrees.resident found
      have resident : id ∈ graph.nodes.keys := LruCache.mem_keys_iff.mpr ⟨node, resident⟩
      simp only [resident, true_or, List.mem_toFinset.mp member, and_true, true_and, Option.getD_some, Finset.mem_insert]
      exact or_comm
    · rename_i unlisted
      simp only [List.mem_toFinset] at unlisted
      simp only [unlisted, and_false, or_false]
  · intro failed id
    rw [BuildGraph.blockedBy, held.map]
    exact agrees.blocks failed id
  · intro id member
    rw [(extend_tracking (by simp) _).1] at member
    exact agrees.tracked id member
  · rw [(extend_tracking (by simp) _).2]
    exact agrees.ttl

end Agrees

section Tell

variable {service : GraphService DrvId} {now : Instant} {drv : DrvId} {state : DrvBuildState}

theorem process_graph {command : GraphCommand DrvId}
    (recent : (service.handleCommand now command).2.graph.staleFailures now = []) :
    (service.process now command).2.graph = (service.handleCommand now command).2.graph := by
  unfold GraphService.process GraphService.maintain
  dsimp only
  split
  · rw [BuildGraph.evictStaleFailures]
    simp only [GraphService.pruneStaleTrackingEntries, recent, List.foldl_nil]
  · rfl

theorem updated_graph (ttl : 0 ≤ service.graph.failureTtl) (recent : service.graph.staleFailures now = []) :
    (service.process now (.updateState drv state)).2.graph = service.graph.updateState now drv state :=
  process_graph (updateState_recent ttl recent)

omit [DecidableEq DrvId] in
theorem stale_of_tracking {graph next : BuildGraph DrvId} (failed : next.failedDrvs = graph.failedDrvs)
    (ttl : next.failureTtl = graph.failureTtl) : next.staleFailures now = graph.staleFailures now := by
  rw [BuildGraph.staleFailures, BuildGraph.staleFailures, failed, ttl]

theorem tell_settle (ttl : 0 ≤ service.graph.failureTtl) (recent : service.graph.staleFailures now = []) :
    (tell service now (settleCommands drv state)).graph =
      ((service.graph.updateState now drv state).propagateFailure drv).2 := by
  have updated := @updated_graph _ _ service now drv state ttl recent
  have frame := BuildGraph.propagateFailure_frame (service.graph.updateState now drv state) drv
  rw [← updated]
  refine process_graph ((stale_of_tracking ?_ ?_).trans (@updateState_recent _ _ service.graph now drv state ttl recent))
  · exact (congrArg (fun graph => (BuildGraph.propagateFailure graph drv).2.failedDrvs) updated).trans frame.2.2.1
  · exact (congrArg (fun graph => (BuildGraph.propagateFailure graph drv).2.failureTtl) updated).trans frame.2.2.2.1

theorem tell_succeed (ttl : 0 ≤ service.graph.failureTtl) (recent : service.graph.staleFailures now = []) :
    (tell service now [.updateState drv (.completed .success), .clearFailure drv]).graph =
      ((service.graph.updateState now drv (.completed .success)).clearFailure drv).2 := by
  have updated := @updated_graph _ _ service now drv (.completed .success) ttl recent
  rw [← updated]
  refine process_graph ((stale_of_tracking ?_ ?_).trans
    (@updateState_recent _ _ service.graph now drv (.completed .success) ttl recent))
  · exact clearFailure_tracking.1.trans (congrArg BuildGraph.failedDrvs updated)
  · exact clearFailure_tracking.2.trans (congrArg BuildGraph.failureTtl updated)

theorem tell_insert {new : Drv DrvId} {refs : List (DrvId × DrvId)} (live : new.buildState ≠ .completed .failure)
    (recent : service.graph.staleFailures now = []) :
    (tell service now [.insertDrvs [new] refs]).graph = service.graph.extend now [new] refs := by
  have graph : (service.handleCommand now (.insertDrvs [new] refs)).2.graph = service.graph.extend now [new] refs :=
    (GraphService.insertDrvs_graph service now [new] refs).1
  rw [← graph]
  refine process_graph ?_
  rw [graph, stale_of_tracking (extend_tracking live refs).1 (extend_tracking live refs).2]
  exact recent

theorem tell_mirrors {list : List (GraphCommand DrvId)} (writes : ∀ command ∈ list, command.isQuery = false)
    (mirrors : service.Mirrors) : (tell service now list).Mirrors := by
  refine List.foldlRecOn list _ (motive := GraphService.Mirrors) mirrors ?_
  intro service mirrors command member
  have keeps : service.KeepsMirror (.command now command) := by
    intro asks
    rw [writes command member] at asks
    cases asks
  exact mirrors.handle keeps

omit [DecidableEq DrvId] in
theorem commands_write (builders : BuilderFeatureSnapshot) (round : Round DrvId) :
    ∀ command ∈ commands builders service round, command.isQuery = false := by
  obtain ⟨action, now, refs, features⟩ := round
  cases action with
  | ingressProcess drv sent =>
    simp only [commands]
    split <;> simp [GraphCommand.isQuery]
  | _ => simp [commands, settleCommands, GraphCommand.isQuery]

end Tell

/-- The graph service holds what the design holds, and the shared view shows it. -/
structure Follows (joint : Joint DrvId) : Prop where
  wired : Wired joint.design
  filed : Filed joint.design
  agrees : Agrees joint.design joint.service.graph
  mirrors : joint.service.Mirrors

section Step

variable {builders : BuilderFeatureSnapshot} {joint next : Joint DrvId} {round : Round DrvId} {design : Pipeline DrvId} {drv : DrvId} {now : Instant}

omit [DecidableEq DrvId] in
theorem Follows.viewed (follows : Follows joint) (id : DrvId) :
    joint.service.sharedView.getBuildState id = (joint.design.nodes.get id).map (·.state) :=
  (follows.mirrors.states id).trans (follows.agrees.stateOf id)

omit [DecidableEq DrvId] in
theorem Follows.ready (follows : Follows joint) (id : DrvId) :
    joint.service.sharedView.isBuildable id = true ↔ isBuildable id joint.design.deps joint.design.nodes := by
  rw [follows.mirrors.buildable]
  exact follows.agrees.isBuildable follows.filed id

omit [DecidableEq DrvId] in
theorem Agrees.queues {graph : BuildGraph DrvId} (agrees : Agrees joint.design graph)
    {ingress build : Finset DrvId} {recorder : Finset (DrvId × DrvBuildState)} :
    Agrees { joint.design with ingressQueue := ingress, buildQueue := build, recorderQueue := recorder } graph :=
  agrees.congr (fun _ => rfl) rfl rfl (fun _ => rfl) (Finset.Subset.refl _)

theorem agrees_ingressProcess {sent : Bool} {refs : List DrvId} {features : Option String} (follows : Follows joint)
    (conforms : Conforms builders joint ⟨.ingressProcess drv sent, now, refs, features⟩)
    (taken : joint.design.ingressProcess drv sent = some design) :
    Agrees design (tell joint.service now (commands builders joint.service ⟨.ingressProcess drv sent, now, refs, features⟩)).graph := by
  obtain ⟨recent, suits⟩ := conforms
  obtain ⟨-, taken⟩ := Option.ite_none_right_eq_some.mp taken
  obtain ⟨node, found, rfl⟩ := Option.map_eq_some_iff.mp taken
  simp only [Suits, found, Option.any_some] at suits
  simp only [commands, follows.ready, follows.viewed, found, Option.map_some, ne_eq, Option.some.injEq]
  by_cases ready : isBuildable drv joint.design.deps joint.design.nodes
  · obtain ⟨live, able⟩ := suits ready
    simp only [live, able, ready, true_and, if_true, Bool.false_eq_true, if_false]
    by_cases spent : node.state = .failedRetry
    · rw [if_neg (not_not.mpr spent)]
      refine follows.agrees.congr (fun id => ?_) rfl rfl (fun _ => rfl) (Finset.Subset.refl _)
      rw [Table.modify_get]
      split
      · rename_i same
        subst same
        rw [found, Option.map_some, if_pos spent, ← spent]
      · rfl
    · rw [if_pos spent]
      have told : (tell joint.service now [.updateState drv .buildable]).graph =
          joint.service.graph.updateState now drv .buildable := updated_graph follows.agrees.ttl recent
      rw [told]
      refine follows.agrees.updateState (fun spec present => ?_) (by simp)
      obtain rfl := Option.some.inj (found.symm.trans present)
      rw [if_neg spent]
      rfl
  · simp only [ready, false_and, if_false, ite_self]
    exact follows.agrees.queues

theorem agrees_recordSuccess {refs : List DrvId} {features : Option String} (follows : Follows joint)
    (conforms : Conforms builders joint ⟨.recordSuccess drv, now, refs, features⟩)
    (taken : joint.design.recordSuccess drv = some design) :
    Agrees design (tell joint.service now (commands builders joint.service ⟨.recordSuccess drv, now, refs, features⟩)).graph := by
  obtain ⟨-, taken⟩ := Option.ite_none_right_eq_some.mp taken
  obtain ⟨node, found, rfl⟩ := Option.map_eq_some_iff.mp taken
  have told := @tell_succeed _ _ joint.service now drv follows.agrees.ttl conforms.1
  rw [commands, told]
  by_cases tracked : drv ∈ joint.design.failedDrvs
  · simp only [tracked, if_true]
    exact follows.agrees.succeed found
  · simp only [tracked, if_false]
    -- what is filed under a drv that has not failed is nothing to clear
    have unblocked := follows.filed.untracked drv tracked
    have cleared := @Agrees.succeed _ _ _ _ drv now follows.agrees node found ∅ ∅ ∅
    refine cleared.congr (fun id => ?_) rfl rfl (fun id => ?_) (Finset.erase_subset _ _)
    · simp only [Pipeline.clear]
      rw [rewrite_get, if_neg (unblocked ▸ Finset.notMem_empty id)]
    · simp only [Pipeline.clear]
      rw [setAt_update]
      split
      · rename_i same
        rw [same]
        exact unblocked
      · rfl

theorem agrees_retry {message : DrvBuildState} {refs : List DrvId} {features : Option String} {action : Action DrvId}
    (follows : Follows joint) (conforms : Conforms builders joint ⟨action, now, refs, features⟩) :
    Agrees (joint.design.retry drv message) (tell joint.service now [.updateState drv .failedRetry]).graph := by
  have told : (tell joint.service now [.updateState drv .failedRetry]).graph =
      joint.service.graph.updateState now drv .failedRetry := updated_graph follows.agrees.ttl conforms.1
  rw [told]
  exact follows.agrees.updateState (fun _ _ => rfl) (by simp)

theorem agrees_settle {message state : DrvBuildState} {ended : DrvNode DrvId → DrvNode DrvId}
    (follows : Follows joint) (recent : joint.service.graph.staleFailures now = [])
    (ends : ∀ spec, (ended spec).held = (state, spec.blockingFailures)) (reaches : Reaches joint.design drv) :
    Agrees (joint.design.settle drv message ended) (tell joint.service now (settleCommands drv state)).graph := by
  rw [tell_settle follows.agrees.ttl recent]
  exact follows.agrees.settle follows.wired follows.filed ends reaches

theorem Joint.step_agrees (follows : Follows joint) (conforms : Conforms builders joint round)
    (taken : joint.design.step round.action = some design) :
    Agrees design (tell joint.service round.now (commands builders joint.service round)).graph := by
  obtain ⟨action, now, refs, features⟩ := round
  obtain ⟨recent, suits⟩ := conforms
  cases action with
  | evalDiscover drv system isFod dependencies =>
    obtain ⟨same, room⟩ := suits
    obtain rfl : refs.toFinset = dependencies := same
    obtain ⟨⟨new, known⟩, taken⟩ := Option.ite_none_right_eq_some.mp taken
    obtain rfl := Option.some.inj taken
    have live : (⟨drv, system, false, features, isFod, .queued⟩ : Drv DrvId).buildState ≠ .completed .failure := by simp
    rw [commands, tell_insert live recent]
    exact follows.agrees.discover new known room
  | ingressProcess drv sent => exact agrees_ingressProcess follows ⟨recent, suits⟩ taken
  | sweepBuildable drv =>
    obtain ⟨node, -, -, rfl⟩ := guarded_eq_some.mp taken
    exact follows.agrees.queues
  | startBuild drv =>
    obtain ⟨-, taken⟩ := Option.ite_none_right_eq_some.mp taken
    obtain ⟨node, -, -, rfl⟩ := guarded_eq_some.mp taken
    have told : (tell joint.service now [.updateState drv .building]).graph =
        joint.service.graph.updateState now drv .building := updated_graph follows.agrees.ttl recent
    rw [commands, told]
    exact follows.agrees.updateState (fun _ _ => rfl) (by simp)
  | dropStaleBuild drv =>
    obtain ⟨-, taken⟩ := Option.ite_none_right_eq_some.mp taken
    obtain ⟨node, -, taken⟩ := Option.bind_eq_some_iff.mp taken
    obtain ⟨-, taken⟩ := Option.ite_none_left_eq_some.mp taken
    obtain rfl := Option.some.inj taken
    exact follows.agrees.queues
  | buildComplete drv result =>
    obtain ⟨node, -, -, rfl⟩ := guarded_eq_some.mp taken
    exact follows.agrees.queues
  | buildInterrupted drv kind =>
    obtain ⟨node, -, -, rfl⟩ := guarded_eq_some.mp taken
    exact follows.agrees.queues
  | recordSuccess drv => exact agrees_recordSuccess follows ⟨recent, suits⟩ taken
  | recordFailureFirst drv =>
    obtain ⟨-, taken⟩ := Option.ite_none_right_eq_some.mp taken
    obtain ⟨node, -, -, rfl⟩ := guarded_eq_some.mp taken
    exact agrees_retry follows ⟨recent, suits⟩
  | recordFailurePermanent drv =>
    obtain ⟨-, taken⟩ := Option.ite_none_right_eq_some.mp taken
    obtain ⟨node, -, -, rfl⟩ := guarded_eq_some.mp taken
    exact agrees_settle follows recent (fun _ => rfl) suits
  | recordInterruptedRetryableFirst drv kind =>
    obtain ⟨-, taken⟩ := Option.ite_none_right_eq_some.mp taken
    obtain ⟨node, -, -, rfl⟩ := guarded_eq_some.mp taken
    exact agrees_retry follows ⟨recent, suits⟩
  | recordInterruptedRetryablePermanent drv kind =>
    obtain ⟨-, taken⟩ := Option.ite_none_right_eq_some.mp taken
    obtain ⟨node, -, -, rfl⟩ := guarded_eq_some.mp taken
    exact agrees_settle follows recent (fun _ => rfl) suits
  | recordInterruptedNonRetryable drv kind =>
    obtain ⟨-, taken⟩ := Option.ite_none_right_eq_some.mp taken
    obtain ⟨node, -, -, rfl⟩ := guarded_eq_some.mp taken
    exact agrees_settle follows recent (fun _ => rfl) suits
  | substitutionHit drv =>
    obtain ⟨node, -, -, rfl⟩ := guarded_eq_some.mp taken
    exact follows.agrees.queues
  | rebuildFailed drv => exact suits.elim
  | crashRecovery => exact suits.elim

theorem Joint.step_follows (follows : Follows joint) (conforms : Conforms builders joint round)
    (taken : joint.step builders round = some next) : Follows next := by
  obtain ⟨design, moved, rfl⟩ := Option.map_eq_some_iff.mp taken
  have effect := Pipeline.step_effect moved
  exact {
    wired := effect.wired follows.wired
    filed := effect.filed follows.filed
    agrees := Joint.step_agrees follows conforms moved
    mirrors := tell_mirrors (commands_write builders round) follows.mirrors }

theorem follows_start {capacity : Nat} {positive : 0 < capacity} :
    Follows (Joint.start capacity positive now : Joint DrvId) where
  wired := wired_init
  filed := filed_init
  agrees := {
    nodes := fun _ => rfl
    dependencies := fun _ _ => Iff.rfl
    dependents := fun _ _ => Iff.rfl
    blocks := fun _ _ => Iff.rfl
    tracked := List.forall_mem_nil _
    ttl := (by decide : 0 ≤ BuildGraph.defaultFailureTtl) }
  mirrors := GraphService.new_mirrors ..

end Step

/-- What the service holds is what the design holds: in the graph, in the view
that the other services read, and in what is filed of failures. -/
structure Refines (joint : Joint DrvId) : Prop where
  states : ∀ id, joint.service.graph.stateOf id = (joint.design.nodes.get id).map (·.state)
  viewed : ∀ id, joint.service.sharedView.getBuildState id = (joint.design.nodes.get id).map (·.state)
  ready : ∀ id, joint.service.sharedView.isBuildable id = true ↔ isBuildable id joint.design.deps joint.design.nodes
  blockers : ∀ id, joint.service.graph.getFailedDependencies id =
    ((joint.design.nodes.get id).map (·.blockingFailures)).getD ∅
  dependents : ∀ id dependent, joint.service.graph.Dependent id dependent ↔ dependent ∈ setAt joint.design.referrers id
  blocks : ∀ failed id, id ∈ joint.service.graph.blockedBy failed ↔ id ∈ setAt joint.design.transitiveFailureMap failed
  tracked : ∀ id ∈ joint.service.graph.failedDrvs.keys, id ∈ joint.design.failedDrvs

section Run

variable {builders : BuilderFeatureSnapshot} {capacity : Nat} {positive : 0 < capacity} {start : Instant} {rounds : List (Round DrvId)} {joint : Joint DrvId}

/-- The service refines the design along every run of it that conforms. -/
theorem run_refines (run : Run (Joint.step builders) (Conforms builders) (.start capacity positive start) rounds joint) : Refines joint := by
  have follows : Follows joint :=
    run.invariant follows_start fun _ _ _ follows conforms taken => Joint.step_follows follows conforms taken
  exact {
    states := follows.agrees.stateOf
    viewed := follows.viewed
    ready := follows.ready
    blockers := follows.agrees.blockers
    dependents := follows.agrees.dependents
    blocks := follows.agrees.blocks
    tracked := follows.agrees.tracked }

theorem run_design {good : Joint DrvId → Round DrvId → Prop} {fine : Pipeline DrvId → Action DrvId → Prop}
    (run : Run (Joint.step builders) good (.start capacity positive start) rounds joint)
    (allows : ∀ joint round, good joint round → fine joint.design round.action) :
    Run Pipeline.step fine .init (rounds.map (·.action)) joint.design :=
  run.image Joint.design (·.action) fun _ _ _ meets taken => by
    obtain ⟨design, moved, rfl⟩ := Option.map_eq_some_iff.mp taken
    exact ⟨allows _ _ meets, moved⟩

/-- A single builder without special features. -/
def plainBuilders : BuilderFeatureSnapshot := System.soloBuilders.builderFeatures

/-- A round at time 0 about drvs without special features. -/
def Round.plain (action : Action Nat) (refs : List Nat) : Round Nat := ⟨action, 0, refs, none⟩

/-- A drv fails twice under one that depends on it, as the graph is told. -/
def failingRounds : List (Round Nat) :=
  [.plain (.evalDiscover 0 "x86_64-linux" false ∅) [], .plain (.evalDiscover 1 "x86_64-linux" false {0}) [0]] ++
    (failing.drop 2).map (Round.plain · [])

theorem failing_refines : ∃ joint, Run (Joint.step plainBuilders) (Conforms plainBuilders) (.start 2 Nat.zero_lt_two 0) failingRounds joint ∧
    Refines joint ∧ joint.service.sharedView.getBuildState 1 = some .transitiveFailure := by
  have ends : (checkRun (Joint.step plainBuilders) (Conforms plainBuilders) (.start 2 Nat.zero_lt_two 0) failingRounds).bind
      (·.service.sharedView.getBuildState 1) = some .transitiveFailure := by decide +kernel
  obtain ⟨joint, checked, blocked⟩ := Option.bind_eq_some_iff.mp ends
  have run := run_of_checkRun checked
  exact ⟨joint, run, run_refines run, blocked⟩

/-- What the specification promises of the design holds of the service: whoever
is blocked is filed under what blocks it, and in a run that spares what has
completed a drv is only being built when the view says that it is ready. -/
theorem run_kept (run : Run (Joint.step builders)
      (fun joint round => Conforms builders joint round ∧ Spares joint.design round.action)
    (.start capacity positive start) rounds joint) (id : DrvId) :
    (joint.service.sharedView.getBuildState id = some .transitiveFailure →
      ∃ failed ∈ joint.service.graph.getFailedDependencies id, id ∈ joint.service.graph.blockedBy failed) ∧
    (joint.service.sharedView.getBuildState id = some .building → joint.service.sharedView.isBuildable id = true) := by
  have follows : Follows joint :=
    run.invariant follows_start fun _ _ _ follows good taken => Joint.step_follows follows good.1 taken
  have safe : Safe joint.design := run_safe (run_design run fun _ _ _ => trivial)
  constructor
  · intro blocked
    rw [follows.viewed] at blocked
    obtain ⟨node, found, blocked⟩ := Option.map_eq_some_iff.mp blocked
    obtain ⟨failed, member⟩ := Finset.card_pos.mp (safe.transitiveFailureHasBlocker id node found blocked)
    refine ⟨failed, ?_, (follows.agrees.blocks failed id).mpr (safe.accounted id node found failed member).2⟩
    rw [follows.agrees.blockers, found]
    exact member
  · intro building
    rw [follows.viewed] at building
    obtain ⟨node, found, building⟩ := Option.map_eq_some_iff.mp building
    have ordered := run_ordered (run_design run fun _ _ good => good.2)
    exact (follows.ready id).mpr (ordered.1 id node found building)

/-- A drv is built once the one it depends on has succeeded. -/
def succeedingRounds : List (Round Nat) :=
  [.plain (.evalDiscover 0 "x86_64-linux" false ∅) [], .plain (.evalDiscover 1 "x86_64-linux" false {0}) [0]] ++
    [.ingressProcess 0 true, .startBuild 0, .buildComplete 0 .success, .recordSuccess 0, .ingressProcess 1 true,
      .startBuild 1].map (Round.plain · [])

theorem succeeding_kept : ∃ joint : Joint Nat, joint.service.sharedView.getBuildState 1 = some .building ∧
    joint.service.sharedView.isBuildable 1 = true := by
  have ends : (checkRun (Joint.step plainBuilders)
      (fun joint round => Conforms plainBuilders joint round ∧ Spares joint.design round.action) (.start 2 Nat.zero_lt_two 0) succeedingRounds).bind (·.service.sharedView.getBuildState 1) = some .building := by
    decide +kernel
  obtain ⟨joint, checked, building⟩ := Option.bind_eq_some_iff.mp ends
  exact ⟨joint, building, (run_kept (run_of_checkRun checked) 1).2 building⟩

end Run

end Design

end EkaCI
