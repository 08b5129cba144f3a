import EkaCI.Graph.Tracking
import EkaCI.Scheduler.Life
import EkaCI.Scheduler.RecorderCalls

/-! The graph in step with the database: what holds between the two while commands
wait, which steps keep it so, and that what the graph service applies is among
them. -/

namespace EkaCI

open Lib

variable {DrvId : Type}

def GraphCommand.newDrvs : GraphCommand DrvId → List (Drv DrvId)
  | .insertDrvs drvs _ => drvs
  | _ => []

def GraphCommand.newRefs : GraphCommand DrvId → List (DrvId × DrvId)
  | .insertDrvs _ refs => refs
  | _ => []

variable [DecidableEq DrvId]

namespace System

/-- The states that the graph is still to be told of a drv. -/
def updatesOf (system : System DrvId) (drvId : DrvId) : List DrvBuildState :=
  system.graphQueue.filterMap fun entry => entry.1.updateOf drvId

/-- A permanent failure of the drv is recorded or about to be. -/
def mayFail (system : System DrvId) (drvId : DrvId) : Bool :=
  system.db.rowState drvId = some (.completed .failure) || .completed .failure ∈ system.updatesOf drvId ||
    system.recorder = .awaitPropagate drvId

/-- What may be applied. An update is of a drv that nothing blocks, and takes no
failure from a drv that blocks others. A propagation reaches no drv that blocks
others. New drvs are not loaded yet, agree with their rows, and depend on no
failure. A query reloads nothing. -/
def staysBacked (system : System DrvId) : GraphCommand DrvId → Bool
  | .updateState drvId newState => system.service.graph.getFailedDependencies drvId = ∅ &&
      (newState = .completed .failure || system.service.graph.blocksNone drvId)
  | .propagateFailure failedDrv =>
      (system.service.graph.getAllTransitiveDependents failedDrv).all system.service.graph.blocksNone
  | .clearFailure _ => true
  | .insertDrvs drvs refs =>
      system.service.fits (.insertDrvs drvs refs) && (drvs.map (·.drvPath)).Nodup &&
      (drvs.all fun drv => drv.drvPath ∉ system.service.graph.nodes.keys &&
        (system.updatesOf drv.drvPath ≠ [] ||
          (system.db.rowState drv.drvPath).map (·.normalize) = some drv.buildState.normalize)) &&
      refs.all fun edge => edge.1 ∈ drvs.map (·.drvPath) &&
        (edge.2 ∈ system.service.graph.nodes.keys || edge.2 ∈ drvs.map (·.drvPath)) &&
        !system.mayFail edge.2 && system.service.graph.getFailedDependencies edge.2 = ∅
  | command => system.service.inserts command = []

/-- What may be recorded. Success unblocks nobody, and a failure that a restart
does not propagate again blocks nobody. -/
def recordsRecoverable (system : System DrvId) (task : RecorderTask DrvId) : Bool :=
  let ended := ((system.db.rowState task.derivation).getD .queued).isTerminal
  let leaf := system.service.graph.getAllTransitiveDependents task.derivation = []
  match task.result with
  | .completed .success => system.service.graph.blocksNone task.derivation
  | .interrupted kind => kind.isRetryable || ended || leaf
  | .unsatisfiableRequirements => ended || leaf
  | _ => true

/-- Under this condition a restart loses nothing. The recorder's updates of the
graph find room in its channel. -/
def keepsRecoverable (system : System DrvId) : Action DrvId → Bool
  | .applyCommand _ => system.graphQueue.head?.all fun entry => system.staysBacked entry.1
  | .record room => system.recorderQueue.head?.all fun task => room && system.recordsRecoverable task
  | _ => true

/-- The row of the drv is a permanent failure by the time its propagation is applied. -/
def failsBefore (drvId : DrvId) : Option DrvBuildState → List (GraphCommand DrvId × Caller) → Bool
  | _, [] => false
  | row, (command, _) :: rest =>
    if command = .propagateFailure drvId then row = some (.completed .failure)
    else failsBefore drvId (match command.updateOf drvId with
      | some newState => row.map fun _ => newState
      | none => row) rest

/-- What the database has is in the graph or on its way, and nothing else is. -/
structure Delivers (system : System DrvId) : Prop where
  loaded : ∀ drvId ∈ system.db.drvs.keys, drvId ∈ system.service.graph.nodes.keys ∨
    ∃ entry ∈ system.graphQueue, drvId ∈ entry.1.newDrvs.map (·.drvPath)
  linked : ∀ edge ∈ system.db.refs, system.service.graph.Dependent edge.2 edge.1 ∨
    ∃ entry ∈ system.graphQueue, edge ∈ entry.1.newRefs
  drvs : ∀ entry ∈ system.graphQueue, ∀ drv ∈ entry.1.newDrvs, drv.drvPath ∈ system.db.drvs.keys
  refs : ∀ entry ∈ system.graphQueue, ∀ edge ∈ entry.1.newRefs, edge ∈ system.db.refs

/-- The graph is in step with the database, as far as the commands that wait allow. -/
structure InStep (system : System DrvId) : Prop where
  calls : system.RecorderCalls
  backed : system.service.graph.Backed system.db
  delivers : system.Delivers
  covered : ∀ failed, system.db.rowState failed = some (.completed .failure) ∨
      .completed .failure ∈ system.updatesOf failed →
    system.service.graph.Covers failed ∨ system.recorder = .awaitPropagate failed
  free : ∀ drvId ∈ system.service.graph.nodes.keys, system.service.graph.getFailedDependencies drvId = ∅ →
    system.updatesOf drvId = [] →
      (system.service.graph.stateOf drvId).map (·.normalize) = (system.db.rowState drvId).map (·.normalize)
  propagating : ∀ drvId, system.recorder = .awaitPropagate drvId →
    (∀ other, ¬ system.service.graph.StrictDependent drvId other) ∨
      failsBefore drvId (system.db.rowState drvId) system.graphQueue = true
  answered : ∀ drvId blocked, system.recorder = .propagated drvId blocked → ∀ other ∈ blocked,
    drvId ∈ system.service.graph.getFailedDependencies other ∧
      system.db.rowState other = some .transitiveFailure
  clearing : ∀ drvId, system.recorder = .awaitClear drvId → system.service.graph.blocksNone drvId = true

section Messages

variable {system next : System DrvId} {queue more : List (GraphCommand DrvId × Caller)} {drvId : DrvId}
  {row : Option DrvBuildState}

theorem failsBefore_append (fails : failsBefore drvId row queue = true) :
    failsBefore drvId row (queue ++ more) = true := by
  induction queue generalizing row with
  | nil => cases fails
  | cons entry rest ih =>
    rw [List.cons_append, failsBefore]
    rw [failsBefore] at fails
    split
    · rename_i reached
      rwa [if_pos reached] at fails
    · rename_i other
      rw [if_neg other] at fails
      exact ih fails

theorem failsBefore_none : failsBefore drvId none queue = false := by
  induction queue with
  | nil => rfl
  | cons entry rest ih =>
    rw [failsBefore]
    split
    · rfl
    · cases entry.1.updateOf drvId <;> exact ih

theorem failsBefore_announced {known : DrvBuildState} (caller sender : Caller)
    (unsent : ∀ entry ∈ queue, entry.1 ≠ .propagateFailure drvId) :
    failsBefore drvId (some known) (queue ++ [(.updateState drvId (.completed .failure), caller),
      (.propagateFailure drvId, sender)]) = true := by
  induction queue generalizing known with
  | nil => simp [failsBefore, GraphCommand.updateOf]
  | cons entry rest ih =>
    have others := fun other member => unsent other (List.mem_cons_of_mem _ member)
    rw [List.cons_append, failsBefore, if_neg (unsent entry (List.mem_cons_self ..))]
    cases entry.1.updateOf drvId with
    | none => exact ih others
    | some newState => exact ih others

/-- A command that brings nothing new and announces no permanent failure. -/
structure Quiet (command : GraphCommand DrvId) : Prop where
  drvs : command.newDrvs = []
  refs : command.newRefs = []
  updates : ∀ drvId, command.updateOf drvId ≠ some (.completed .failure)

theorem quiet_update {newState : DrvBuildState} (harmless : newState ≠ .completed .failure) :
    Quiet (.updateState drvId newState) := by
  refine ⟨rfl, rfl, fun other => ?_⟩
  simp only [GraphCommand.updateOf]
  split
  · simpa using harmless
  · simp

theorem quiet_query {command : GraphCommand DrvId} (asks : command.isQuery = true) :
    Quiet command := by
  cases command with
  | updateState | insertDrvs | propagateFailure | clearFailure => cases asks
  | _ => exact ⟨rfl, rfl, fun _ => by simp [GraphCommand.updateOf]⟩

theorem updatesOf_sent (queue : next.graphQueue = system.graphQueue ++ more) (drvId : DrvId) :
    next.updatesOf drvId = system.updatesOf drvId ++ more.filterMap fun entry => entry.1.updateOf drvId := by
  rw [updatesOf, queue, List.filterMap_append, updatesOf]

omit [DecidableEq DrvId] in
theorem Delivers.sent (delivers : system.Delivers) (graph : next.service.graph = system.service.graph)
    (rows : next.db.drvs.keys = system.db.drvs.keys) (edges : next.db.refs = system.db.refs)
    (queue : next.graphQueue = system.graphQueue ++ more)
    (nothing : ∀ entry ∈ more, entry.1.newDrvs = [] ∧ entry.1.newRefs = []) : next.Delivers := by
  constructor
  · intro drvId member
    rw [rows] at member
    rw [graph, queue]
    apply (delivers.loaded drvId member).imp_right
    rintro ⟨entry, waiting, brings⟩
    exact ⟨entry, List.mem_append_left _ waiting, brings⟩
  · intro edge member
    rw [edges] at member
    rw [graph, queue]
    apply (delivers.linked edge member).imp_right
    rintro ⟨entry, waiting, brings⟩
    exact ⟨entry, List.mem_append_left _ waiting, brings⟩
  · intro entry member drv brings
    rw [queue] at member
    rw [rows]
    rcases List.mem_append.mp member with earlier | added
    · exact delivers.drvs entry earlier drv brings
    · rw [(nothing entry added).1] at brings
      cases brings
  · intro entry member edge brings
    rw [queue] at member
    rw [edges]
    rcases List.mem_append.mp member with earlier | added
    · exact delivers.refs entry earlier edge brings
    · rw [(nothing entry added).2] at brings
      cases brings

theorem InStep.sent (valid : system.InStep) (calls : next.RecorderCalls)
    (graph : next.service.graph = system.service.graph) (db : next.db = system.db)
    (recorder : next.recorder = system.recorder) (queue : next.graphQueue = system.graphQueue ++ more)
    (quiet : ∀ entry ∈ more, Quiet entry.1) : next.InStep := by
  have updates := @updatesOf_sent _ _ system next more queue
  refine ⟨calls, ?_, ?_, fun failed failing => ?_, fun drvId => ?_, ?_, ?_, ?_⟩
  · rw [graph, db]
    exact valid.backed
  · refine valid.delivers.sent graph (by rw [db]) (by rw [db]) queue fun entry member => ?_
    exact ⟨(quiet entry member).drvs, (quiet entry member).refs⟩
  · rw [graph, recorder]
    refine valid.covered failed (failing.imp (fun row => db ▸ row) fun waiting => ?_)
    rw [updates] at waiting
    rcases List.mem_append.mp waiting with earlier | added
    · exact earlier
    · obtain ⟨entry, member, announces⟩ := List.mem_filterMap.mp added
      exact absurd announces ((quiet entry member).updates failed)
  · rw [graph, db, updates]
    intro resident unblocked settled
    exact valid.free drvId resident unblocked (List.append_eq_nil_iff.mp settled).1
  · rw [graph, db, recorder, queue]
    intro drvId waiting
    exact (valid.propagating drvId waiting).imp_right failsBefore_append
  · rw [graph, db, recorder]
    exact valid.answered
  · rw [graph, recorder]
    exact valid.clearing

theorem InStep.congr (valid : system.InStep) (calls : next.RecorderCalls)
    (graph : next.service.graph = system.service.graph) (db : next.db = system.db)
    (recorder : next.recorder = system.recorder) (queue : next.graphQueue = system.graphQueue) : next.InStep := by
  refine valid.sent calls graph db recorder (queue.trans (List.append_nil _).symm) fun _ member => ?_
  cases member

theorem InStep.trySendUpdate (valid : system.InStep) (newState : DrvBuildState) (room : Bool)
    (calls : (system.trySendUpdate drvId newState room).RecorderCalls)
    (harmless : newState ≠ .completed .failure) : (system.trySendUpdate drvId newState room).InStep := by
  refine valid.sent calls rfl rfl rfl rfl fun entry member => ?_
  split at member
  · rw [List.mem_singleton.mp member]
    exact quiet_update harmless
  · cases member

end Messages

section Apply

variable {system next : System DrvId} {now : Instant}

theorem InStep.of_nodes (valid : system.InStep) (calls : next.RecorderCalls)
    (found : ∀ drvId, next.service.graph.getNode drvId = system.service.graph.getNode drvId)
    (lists : ∀ failed drvId, drvId ∈ next.service.graph.blockedBy failed →
      drvId ∈ system.service.graph.blockedBy failed)
    (db : next.db = system.db) (recorder : next.recorder = system.recorder)
    (queue : next.graphQueue = system.graphQueue) : next.InStep := by
  obtain ⟨blockers, states, edges, keys⟩ := BuildGraph.sameNodes found
  have updates : next.updatesOf = system.updatesOf := by
    funext drvId
    rw [updatesOf, queue, updatesOf]
  refine ⟨calls, ?_, ⟨?_, ?_, ?_, ?_⟩, ?_, ?_, ?_, ?_, ?_⟩
  · rw [db]
    exact valid.backed.of_nodes found lists
  · simp only [db, keys, queue]
    exact valid.delivers.loaded
  · rw [db, edges, queue]
    exact valid.delivers.linked
  · rw [db, queue]
    exact valid.delivers.drvs
  · rw [db, queue]
    exact valid.delivers.refs
  · simp only [db, updates, BuildGraph.Covers, BuildGraph.StrictDependent, edges, blockers, recorder]
    exact valid.covered
  · simp only [keys, blockers, updates, states, db]
    exact valid.free
  · simp only [recorder, BuildGraph.StrictDependent, edges, db, queue]
    exact valid.propagating
  · rw [recorder, blockers, db]
    exact valid.answered
  · rw [recorder]
    exact fun drvId waiting => BuildGraph.blocksNone_congr (congrFun blockers) (valid.clearing drvId waiting)

theorem InStep.maintained (handled : GraphService DrvId)
    (valid : ({ next with service := handled } : System DrvId).InStep)
    (service : next.service = handled.maintain now) : next.InStep := by
  refine valid.of_nodes (valid.calls.congr rfl rfl) ?_ ?_ ?_ rfl rfl
  · rw [service]
    exact GraphService.maintain_getNode handled now
  · rw [service]
    exact fun _ _ => GraphService.maintain_blockedBy
  · rw [db, service]
    exact GraphService.maintain_db now

variable {command : GraphCommand DrvId} {caller : Caller} {rest : List (GraphCommand DrvId × Caller)}

theorem updatesOf_popped (head : system.graphQueue = (command, caller) :: rest) (queue : next.graphQueue = rest)
    (drvId : DrvId) : system.updatesOf drvId = (command.updateOf drvId).toList ++ next.updatesOf drvId := by
  rw [updatesOf, head, updatesOf, queue, List.filterMap_cons]
  cases command.updateOf drvId <;> rfl

omit [DecidableEq DrvId] in
theorem mem_of_later (head : system.graphQueue = (command, caller) :: rest) (queue : next.graphQueue = rest)
    {entry : GraphCommand DrvId × Caller} (member : entry ∈ next.graphQueue) : entry ∈ system.graphQueue := by
  rw [head]
  exact List.mem_cons_of_mem _ (queue ▸ member)

omit [DecidableEq DrvId] in
theorem Delivers.popped (delivers : system.Delivers) (head : system.graphQueue = (command, caller) :: rest)
    (queue : next.graphQueue = rest) (drvs : command.newDrvs = []) (refs : command.newRefs = [])
    (topology : BuildGraph.SameTopology next.service.graph system.service.graph)
    (rows : next.db.drvs.keys = system.db.drvs.keys) (edges : next.db.refs = system.db.refs) :
    next.Delivers := by
  constructor
  · intro drvId member
    rw [topology.keys]
    apply (delivers.loaded drvId (rows ▸ member)).imp_right
    rintro ⟨entry, waiting, brings⟩
    rw [head] at waiting
    rcases List.mem_cons.mp waiting with rfl | later
    · rw [drvs] at brings
      cases brings
    · exact ⟨entry, queue ▸ later, brings⟩
  · intro edge member
    rw [BuildGraph.Dependent, topology.dependents]
    refine (delivers.linked edge (edges ▸ member)).imp_right ?_
    rintro ⟨entry, waiting, brings⟩
    rw [head] at waiting
    rcases List.mem_cons.mp waiting with rfl | later
    · rw [refs] at brings
      cases brings
    · exact ⟨entry, queue ▸ later, brings⟩
  · intro entry member drv brings
    rw [rows]
    exact delivers.drvs entry (mem_of_later head queue member) drv brings
  · intro entry member edge brings
    rw [edges]
    exact delivers.refs entry (mem_of_later head queue member) edge brings

theorem InStep.updateState (valid : system.InStep) {drvId : DrvId} {newState : DrvBuildState}
    (head : system.graphQueue = (.updateState drvId newState, caller) :: rest)
    (stays : system.staysBacked (.updateState drvId newState) = true) (calls : next.RecorderCalls)
    (service : next.service = system.service.updateState now drvId newState)
    (queue : next.graphQueue = rest) (recorder : next.recorder = system.recorder) : next.InStep := by
  simp only [staysBacked, Bool.and_eq_true, Bool.or_eq_true, decide_eq_true_eq] at stays
  obtain ⟨unblocked, keeps⟩ := stays
  have graph : next.service.graph = system.service.graph.updateState now drvId newState := by rw [service]; rfl
  have written : next.db = system.db.updateDrvStatus drvId newState := by rw [db, service]; rfl
  have row := fun other => @Database.updateDrvStatus_rowState _ _ system.db drvId other newState
  rw [← written] at row
  have topology := @BuildGraph.updateState_topology _ _ system.service.graph now drvId newState
  rw [← graph] at topology
  have blockers : ∀ other, next.service.graph.getFailedDependencies other =
      system.service.graph.getFailedDependencies other := by
    intro other
    rw [graph, BuildGraph.updateState_getFailedDependencies]
  have updates := @updatesOf_popped _ _ system next _ caller rest head queue
  have others : ∀ other, other ≠ drvId → system.updatesOf other = next.updatesOf other := by
    intro other different
    rw [updates, GraphCommand.updateOf, if_neg (Ne.symm different)]
    rfl
  refine ⟨calls, ?_, ?_, fun failed failing => ?_, fun other resident free settled => ?_, fun other waiting => ?_,
    fun failed blocked phase other member => ?_, fun other waiting => ?_⟩
  · rw [graph, written]
    exact valid.backed.updateState unblocked keeps
  · refine valid.delivers.popped head queue rfl rfl topology ?_ ?_
    · rw [written]
      rfl
    · rw [written]
      rfl
  · have covered := valid.covered failed ?_
    · rw [recorder]
      exact covered.imp_left fun covers => covers.of_topology topology blockers
    · rw [updates]
      rcases failing with recorded | waiting
      · rw [row] at recorded
        split at recorded
        · rename_i same
          obtain ⟨_, -, failure⟩ := Option.map_eq_some_iff.mp recorded
          refine .inr (List.mem_append_left _ ?_)
          rw [GraphCommand.updateOf, if_pos same.symm, failure]
          exact List.mem_singleton_self _
        · exact .inl recorded
      · exact .inr (List.mem_append_right _ waiting)
  · rw [topology.keys] at resident
    rw [blockers] at free
    rw [graph, BuildGraph.updateState_stateOf, row]
    split
    · obtain ⟨node, found⟩ := LruCache.mem_keys_iff.mp resident
      obtain ⟨drv, stored⟩ := Table.get_of_mem_keys (valid.backed.resident other resident)
      rw [BuildGraph.stateOf, BuildGraph.getNode, found, Database.rowState, Database.getDrv, stored]
      rfl
    · rename_i different
      exact valid.free other resident free ((others other different).trans settled)
  · rw [recorder] at waiting
    refine (valid.propagating other waiting).imp (fun leaf target strict => ?_) fun fails => ?_
    · exact leaf target ((topology.strictDependent other target).mp strict)
    · rw [head, failsBefore, if_neg (by simp)] at fails
      rw [queue, row]
      by_cases same : other = drvId
      · rw [if_pos same]
        rwa [GraphCommand.updateOf, if_pos same.symm] at fails
      · rw [if_neg same]
        rwa [GraphCommand.updateOf, if_neg (Ne.symm same)] at fails
  · rw [recorder] at phase
    obtain ⟨blocker, stored⟩ := valid.answered failed blocked phase other member
    have different : other ≠ drvId := by
      rintro rfl
      rw [unblocked] at blocker
      exact Finset.notMem_empty failed blocker
    rw [blockers, row, if_neg different]
    exact ⟨blocker, stored⟩
  · rw [recorder] at waiting
    exact BuildGraph.blocksNone_congr blockers (valid.clearing other waiting)

theorem InStep.propagateFailure (valid : system.InStep) {failedDrv : DrvId}
    (head : system.graphQueue = (.propagateFailure failedDrv, caller) :: rest)
    (stays : system.staysBacked (.propagateFailure failedDrv) = true) (calls : next.RecorderCalls)
    (waited : system.recorder = .awaitPropagate failedDrv)
    (service : next.service = (system.service.propagateFailure failedDrv).2) (queue : next.graphQueue = rest)
    (recorder : next.recorder = .propagated failedDrv (system.service.graph.getAllTransitiveDependents failedDrv)) :
    next.InStep := by
  have graph : next.service.graph = (system.service.graph.propagateFailure failedDrv).2 := by rw [service]; rfl
  have written : next.db = system.db.insertTransitiveFailures failedDrv
      (system.service.graph.getAllTransitiveDependents failedDrv) := by
    rw [db, service, GraphService.propagateFailure_db]
    rfl
  have row : ∀ other, next.db.rowState other = if system.service.graph.StrictDependent failedDrv other then
      (system.db.rowState other).map fun _ => .transitiveFailure else system.db.rowState other := by
    intro other
    rw [db, service, GraphService.propagateFailure_row]
    rfl
  have topology := BuildGraph.propagateFailure_topology system.service.graph failedDrv
  rw [← graph] at topology
  have blockers : ∀ failed other, failed ∈ next.service.graph.getFailedDependencies other ↔
      failed ∈ system.service.graph.getFailedDependencies other ∨
        (failed = failedDrv ∧ system.service.graph.StrictDependent failedDrv other) := by
    intro failed other
    rw [graph, BuildGraph.mem_propagateFailure_blockers]
    refine or_congr_right (and_congr_right fun _ => and_iff_left_of_imp ?_)
    exact valid.backed.strictDependent_resident
  have updates : ∀ other, system.updatesOf other = next.updatesOf other := updatesOf_popped head queue
  refine ⟨calls, ?_, ?_, fun failed failing => ?_, fun other resident free settled => ?_, fun other waiting => ?_,
    fun failed blocked phase other member => ?_, fun other waiting => ?_⟩
  · rw [graph, written]
    refine valid.backed.propagateFailure (fun other strict => ?_) fun other strict => ?_
    · rcases valid.propagating failedDrv waited with leaf | fails
      · exact absurd strict (leaf other)
      · rw [head, failsBefore, if_pos rfl] at fails
        exact of_decide_eq_true fails
    · exact List.all_eq_true.mp stays other (BuildGraph.mem_getAllTransitiveDependents.mpr strict)
  · refine valid.delivers.popped head queue rfl rfl topology ?_ ?_
    · rw [written]
      exact (Database.insertTransitiveFailures_frame ..).1
    · rw [written]
      exact (Database.insertTransitiveFailures_frame ..).2
  · refine .inl fun other strict => ?_
    rw [topology.strictDependent] at strict
    rw [blockers]
    have covered := valid.covered failed (failing.imp (fun recorded => ?_) fun waiting => updates failed ▸ waiting)
    · rcases covered with covers | phase
      · exact .inl (covers other strict)
      · cases waited.symm.trans phase
        exact .inr ⟨rfl, strict⟩
    · rw [row] at recorded
      split at recorded
      · obtain ⟨_, -, impossible⟩ := Option.map_eq_some_iff.mp recorded
        cases impossible
      · exact recorded
  · rw [topology.keys] at resident
    have loose : ¬ system.service.graph.StrictDependent failedDrv other := by
      intro strict
      have blocked := (blockers failedDrv other).mpr (.inr ⟨rfl, strict⟩)
      rw [free] at blocked
      exact Finset.notMem_empty failedDrv blocked
    have unblocked : system.service.graph.getFailedDependencies other = ∅ := by
      refine Finset.eq_empty_of_forall_notMem fun failed member => ?_
      have blocked := (blockers failed other).mpr (.inl member)
      rw [free] at blocked
      exact Finset.notMem_empty failed blocked
    rw [graph, BuildGraph.propagateFailure_stateOf, row, if_neg loose, if_neg loose]
    exact valid.free other resident unblocked ((updates other).trans settled)
  · cases recorder.symm.trans waiting
  · cases recorder.symm.trans phase
    have strict := BuildGraph.mem_getAllTransitiveDependents.mp member
    have resident := valid.backed.resident other (valid.backed.strictDependent_resident strict)
    obtain ⟨drv, stored⟩ := Table.get_of_mem_keys resident
    rw [blockers, row, if_pos strict, Database.rowState, Database.getDrv, stored]
    exact ⟨.inr ⟨rfl, strict⟩, rfl⟩
  · cases recorder.symm.trans waiting

theorem InStep.clearFailure (valid : system.InStep) {formerlyFailed : DrvId} {unblocked : List DrvId}
    (head : system.graphQueue = (.clearFailure formerlyFailed, caller) :: rest) (calls : next.RecorderCalls)
    (waited : system.recorder = .awaitClear formerlyFailed)
    (service : next.service = (system.service.clearFailure formerlyFailed).2) (queue : next.graphQueue = rest)
    (recorder : next.recorder = .cleared formerlyFailed unblocked) : next.InStep := by
  have graph : next.service.graph = (system.service.graph.clearFailure formerlyFailed).2 := by rw [service]; rfl
  have written : next.db = system.db.clearTransitiveFailures formerlyFailed := by rw [db, service]; rfl
  have none := valid.clearing formerlyFailed waited
  have found : ∀ drvId, next.service.graph.getNode drvId = system.service.graph.getNode drvId := by
    intro drvId
    rw [graph]
    exact valid.backed.clearFailure_nodes none drvId
  obtain ⟨blockers, states, edges, keys⟩ := BuildGraph.sameNodes found
  have topology := BuildGraph.clearFailure_topology system.service.graph formerlyFailed
  rw [← graph] at topology
  have updates : ∀ other, system.updatesOf other = next.updatesOf other := updatesOf_popped head queue
  refine ⟨calls, ?_, ?_, fun failed failing => ?_, fun other resident free settled => ?_, fun other waiting => ?_,
    fun failed blocked phase => ?_, fun other waiting => ?_⟩
  · have backed := valid.backed.clearFailure none
    rw [graph, written]
    exact backed.of_rows (fun _ member => member) (fun _ member => member) fun _ _ _ row => row
  · refine valid.delivers.popped head queue rfl rfl topology ?_ ?_
    · rw [written]
      rfl
    · rw [written]
      rfl
  · rw [written, Database.clearTransitiveFailures_rowState, ← updates] at failing
    rcases valid.covered failed failing with covers | phase
    · exact .inl (covers.of_topology topology fun other => congrFun blockers other)
    · cases waited.symm.trans phase
  · rw [keys] at resident
    rw [blockers] at free
    rw [states, written, Database.clearTransitiveFailures_rowState]
    exact valid.free other resident free ((updates other).trans settled)
  · cases recorder.symm.trans waiting
  · cases recorder.symm.trans phase
  · cases recorder.symm.trans waiting

theorem InStep.query (valid : system.InStep) (head : system.graphQueue = (command, caller) :: rest)
    (asks : command.isQuery = true) (calls : next.RecorderCalls) (service : next.service = system.service)
    (queue : next.graphQueue = rest) (recorder : next.recorder = system.recorder) : next.InStep := by
  have quiet := quiet_query asks
  have silent : ∀ drvId, command.updateOf drvId = none ∧ command ≠ .propagateFailure drvId := by
    intro drvId
    cases command <;> simp_all [GraphCommand.isQuery, GraphCommand.updateOf]
  have updates : system.updatesOf = next.updatesOf := by
    funext drvId
    rw [updatesOf_popped head queue, (silent drvId).1]
    rfl
  have stored : next.db = system.db := by rw [db, service, db]
  refine ⟨calls, ?_, ?_, ?_, ?_, ?_, ?_, ?_⟩
  · rw [service, stored]
    exact valid.backed
  · refine valid.delivers.popped head queue quiet.drvs quiet.refs ?_ (by rw [stored]) (by rw [stored])
    rw [service]
    exact ⟨rfl, fun _ => rfl⟩
  · rw [service, stored, ← updates, recorder]
    exact valid.covered
  · rw [service, stored, ← updates]
    exact valid.free
  · rw [service, stored, recorder, queue]
    intro drvId waiting
    refine (valid.propagating drvId waiting).imp_right fun fails => ?_
    rwa [head, failsBefore, if_neg (silent drvId).2, (silent drvId).1] at fails
  · rw [service, stored, recorder]
    exact valid.answered
  · rw [service, recorder]
    exact valid.clearing

theorem mayFail_eq_false {drvId : DrvId} : system.mayFail drvId = false ↔
    (system.db.rowState drvId ≠ some (.completed .failure) ∧ .completed .failure ∉ system.updatesOf drvId) ∧
      system.recorder ≠ .awaitPropagate drvId := by
  simp only [mayFail, Bool.or_eq_false_iff, decide_eq_false_iff_not, ne_eq]

/-- What `staysBacked` asks of new drvs. -/
structure Fresh (system : System DrvId) (drvs : List (Drv DrvId)) (refs : List (DrvId × DrvId)) : Prop where
  room : system.service.graph.nodes.keys.length + drvs.length ≤ system.service.graph.nodes.cap
  distinct : (drvs.map (·.drvPath)).Nodup
  absent : ∀ drv ∈ drvs, drv.drvPath ∉ system.service.graph.nodes.keys
  agrees : ∀ drv ∈ drvs, system.updatesOf drv.drvPath ≠ [] ∨
    (system.db.rowState drv.drvPath).map (·.normalize) = some drv.buildState.normalize
  referrer : ∀ edge ∈ refs, edge.1 ∈ drvs.map (·.drvPath)
  reference : ∀ edge ∈ refs, edge.2 ∈ system.service.graph.nodes.keys ∨ edge.2 ∈ drvs.map (·.drvPath)
  unfailed : ∀ edge ∈ refs, system.mayFail edge.2 = false
  unblocked : ∀ edge ∈ refs, system.service.graph.getFailedDependencies edge.2 = ∅

variable {refs : List (DrvId × DrvId)} {drvs : List (Drv DrvId)}

theorem fresh_of_staysBacked (stays : system.staysBacked (.insertDrvs drvs refs) = true) : system.Fresh drvs refs := by
  simp only [staysBacked, Bool.and_eq_true, List.all_eq_true, decide_eq_true_eq, Bool.or_eq_true,
    Bool.not_eq_true'] at stays
  obtain ⟨⟨⟨fits, distinct⟩, drvs⟩, refs⟩ := stays
  exact ⟨of_decide_eq_true fits, distinct, fun drv member => (drvs drv member).1,
    fun drv member => (drvs drv member).2, fun edge member => (refs edge member).1.1.1,
    fun edge member => (refs edge member).1.1.2, fun edge member => (refs edge member).1.2,
    fun edge member => (refs edge member).2⟩

theorem Delivers.inserted (delivers : system.Delivers)
    (head : system.graphQueue = (.insertDrvs drvs refs, caller) :: rest) (queue : next.graphQueue = rest)
    (fresh : system.Fresh drvs refs)
    (extended : BuildGraph.Extended system.service.graph drvs refs next.service.graph) (stored : next.db = system.db) :
    next.Delivers := by
  constructor
  · intro drvId member
    rw [extended.resident]
    rcases delivers.loaded drvId (stored ▸ member) with resident | ⟨entry, waiting, brings⟩
    · exact .inl (.inl resident)
    · rw [head] at waiting
      rcases List.mem_cons.mp waiting with rfl | later
      · exact .inl (.inr brings)
      · exact .inr ⟨entry, queue ▸ later, brings⟩
  · intro edge member
    rw [extended.dependent]
    rcases delivers.linked edge (stored ▸ member) with linked | ⟨entry, waiting, brings⟩
    · exact .inl (.inl linked)
    · rw [head] at waiting
      rcases List.mem_cons.mp waiting with rfl | later
      · exact .inl (.inr ⟨(extended.resident edge.2).mpr (fresh.reference edge brings), brings⟩)
      · exact .inr ⟨entry, queue ▸ later, brings⟩
  · intro entry member drv brings
    rw [stored]
    exact delivers.drvs entry (mem_of_later head queue member) drv brings
  · intro entry member edge brings
    rw [stored]
    exact delivers.refs entry (mem_of_later head queue member) edge brings

theorem InStep.insertDrvs (valid : system.InStep) (head : system.graphQueue = (.insertDrvs drvs refs, caller) :: rest)
    (stays : system.staysBacked (.insertDrvs drvs refs) = true) (calls : next.RecorderCalls)
    (service : next.service = system.service.insertDrvs now drvs refs) (queue : next.graphQueue = rest)
    (recorder : next.recorder = system.recorder) : next.InStep := by
  have fresh := fresh_of_staysBacked stays
  have extended : BuildGraph.Extended system.service.graph drvs refs next.service.graph := by
    rw [service, (GraphService.insertDrvs_graph ..).1]
    exact BuildGraph.extend_extended refs fresh.room fresh.distinct fresh.absent
  have stored : next.db = system.db := by rw [db, service, (GraphService.insertDrvs_graph ..).2, db]
  have updates : ∀ other, system.updatesOf other = next.updatesOf other := updatesOf_popped head queue
  have waiting : (.insertDrvs drvs refs, caller) ∈ system.graphQueue := head ▸ List.mem_cons_self ..
  refine ⟨calls, ?_, valid.delivers.inserted head queue fresh extended stored, fun failed failing => ?_,
    fun other resident free settled => ?_, fun other phase => ?_, ?_, fun other phase => ?_⟩
  · rw [stored]
    refine extended.backed valid.backed fresh.absent ?_ fun edge member => ?_
    · exact valid.delivers.drvs _ waiting
    · exact ⟨valid.delivers.refs _ waiting edge member, fresh.referrer edge member⟩
  · rw [stored, ← updates] at failing
    rw [recorder]
    refine (valid.covered failed failing).imp_left fun covers => ?_
    refine extended.covers covers fun edge member => ⟨?_, fresh.unblocked edge member⟩
    rintro rfl
    obtain ⟨unfailed, -⟩ := mayFail_eq_false.mp (fresh.unfailed edge member)
    exact failing.elim unfailed.1 unfailed.2
  · rw [stored]
    rw [← updates] at settled
    rw [extended.blockers] at free
    by_cases new : other ∈ drvs.map (·.drvPath)
    · obtain ⟨drv, member, rfl⟩ := List.mem_map.mp new
      rw [extended.inserted drv member, (fresh.agrees drv member).resolve_left (fun more => more settled)]
      rfl
    · rw [extended.kept other new]
      exact valid.free other (((extended.resident other).mp resident).resolve_right new) free settled
  · rw [recorder] at phase
    refine (valid.propagating other phase).imp (fun leaf target strict => ?_) fun fails => ?_
    · refine leaf target (extended.strictDependent_of_apart (fun edge member => ⟨?_, leaf edge.2⟩) strict)
      rintro rfl
      exact (mayFail_eq_false.mp (fresh.unfailed edge member)).2 phase
    · rw [stored, queue]
      rwa [head, failsBefore, if_neg (by simp)] at fails
  · rw [recorder, stored]
    simp only [extended.blockers]
    exact valid.answered
  · rw [recorder] at phase
    exact BuildGraph.blocksNone_congr extended.blockers (valid.clearing other phase)

theorem applyCommand_recorder (calls : system.RecorderCalls)
    (head : system.graphQueue = (command, caller) :: rest) (others : command.isRecorders = false) :
    ({ system with graphQueue := rest }.applyCommand now command caller).recorder = system.recorder := by
  have sender : caller ≠ .recorder := by
    intro same
    have call := (calls.call_of_head head (.inl same)).2
    cases phase : system.recorder <;> rw [phase] at call <;> cases call <;> cases others
  cases caller with
  | recorder => exact absurd rfl sender
  | _ => rfl

theorem InStep.apply (valid : system.InStep) (head : system.graphQueue = (command, caller) :: rest)
    (stays : system.staysBacked command = true) :
    ({ system with graphQueue := rest }.applyCommand now command caller).InStep := by
  have calls := @RecorderCalls.apply _ _ system now _ _ _ valid.calls head
  refine InStep.maintained (system.service.handleCommand now command).2 ?_ rfl
  cases command with
  | updateState drvId newState =>
    exact valid.updateState head stays (calls.congr rfl rfl) rfl rfl (applyCommand_recorder valid.calls head rfl)
  | insertDrvs drvs refs =>
    exact valid.insertDrvs head stays (calls.congr rfl rfl) rfl rfl (applyCommand_recorder valid.calls head rfl)
  | propagateFailure failedDrv =>
    obtain ⟨rfl, call⟩ := valid.calls.call_of_head head (.inr rfl)
    have waited : system.recorder = .awaitPropagate failedDrv := by
      cases phase : system.recorder <;> rw [phase] at call <;> cases call
      rfl
    refine valid.propagateFailure head stays (calls.congr rfl rfl) waited rfl rfl ?_
    simp only [applyCommand, waited]
    rfl
  | clearFailure formerlyFailed =>
    obtain ⟨rfl, call⟩ := valid.calls.call_of_head head (.inr rfl)
    have waited : system.recorder = .awaitClear formerlyFailed := by
      cases phase : system.recorder <;> rw [phase] at call <;> cases call
      rfl
    have cleared : ({ system with graphQueue := rest }.applyCommand now (.clearFailure formerlyFailed)
        .recorder).recorder = .cleared formerlyFailed (system.service.graph.clearFailure formerlyFailed).1 := by
      simp only [applyCommand, waited]
      rfl
    exact valid.clearFailure head (calls.congr rfl rfl) waited rfl rfl cleared
  | _ =>
    refine valid.query head rfl (calls.congr rfl rfl) ?_ rfl (applyCommand_recorder valid.calls head rfl)
    exact GraphService.handleCommand_of_loaded rfl (of_decide_eq_true stays)

end Apply

end System

end EkaCI
