import EkaCI.Graph.Startup
import EkaCI.Scheduler.Transition

/-! The safety nets for drvs whose messages were dropped: the enqueue at start-up
and the periodic sweep. A pass of the sweep is a function here, each check run
to its end; it is what the steps of the ingress worker and the graph service
amount to when nothing else is under way. -/

namespace EkaCI

open Lib

variable {DrvId : Type}

/-- The drvs that get a `CheckBuildable` task at start-up. -/
def GraphService.enqueueBuildableBuilds (service : GraphService DrvId) : Finset DrvId :=
  service.graph.getDrvsByState .buildable

/-- A pass of the sweep: the graph service and what has been sent. -/
structure Sweep (DrvId : Type) where
  service : GraphService DrvId
  requests : List (Drv DrvId)
  reports : List (RecorderTask DrvId)

namespace Sweep

/-- A build request for the drv was sent, or that nobody can build it was reported. -/
def Sends (sweep : Sweep DrvId) (drvId : DrvId) : Prop :=
  drvId ∈ sweep.requests.map (·.drvPath) ∨ ⟨drvId, .unsatisfiableRequirements⟩ ∈ sweep.reports

/-- What the services of a system hold of a pass. -/
def ofSystem (system : System DrvId) : Sweep DrvId :=
  ⟨system.service, system.buildQueue, system.recorderQueue⟩

variable [DecidableEq DrvId]

instance (sweep : Sweep DrvId) (drvId : DrvId) : Decidable (sweep.Sends drvId) :=
  inferInstanceAs (Decidable (_ ∨ _))

/-- Check one drv, with room in the build channel. -/
def handleCheckBuildableTask (config : SchedulerConfig) (now : Instant) (sweep : Sweep DrvId)
    (drvId : DrvId) : Sweep DrvId :=
  let view := sweep.service.sharedView
  if view.isBuildable drvId then
    match view.get drvId with
    | none => sweep
    | some node =>
      if config.builderFeatures.canBuild node.requiredSystemFeatures = false then
        { sweep with reports := sweep.reports ++ [⟨drvId, .unsatisfiableRequirements⟩] }
      else
        { sweep with
          service := if node.buildState = .failedRetry then sweep.service
            else (sweep.service.process now (.updateState drvId .buildable)).2
          requests := sweep.requests ++ [node.toDrv drvId] }
  else sweep

/-- One pass over the candidates. -/
def sweepBuildableDrvs (config : SchedulerConfig) (now : Instant) (service : GraphService DrvId)
    (candidates : List DrvId) : Sweep DrvId :=
  candidates.foldl (handleCheckBuildableTask config now) ⟨service, [], []⟩

section Check

variable {config : SchedulerConfig} {now : Instant} {sweep : Sweep DrvId} {drvId other : DrvId}

theorem sends_of_isBuildable (ready : sweep.service.sharedView.isBuildable drvId = true) :
    (sweep.handleCheckBuildableTask config now drvId).Sends drvId := by
  obtain ⟨node, found, -⟩ := SharedView.isBuildable_iff.mp ready
  simp only [handleCheckBuildableTask, ready, if_true, found]
  split
  · exact .inr (List.mem_append_right _ (List.mem_singleton_self _))
  · refine .inl ?_
    rw [List.map_append]
    exact List.mem_append_right _ (List.mem_singleton_self drvId)

theorem sends_handleCheckBuildableTask :
    (sweep.Sends other → (sweep.handleCheckBuildableTask config now drvId).Sends other) ∧
      ((sweep.handleCheckBuildableTask config now drvId).Sends other → sweep.Sends other ∨ other = drvId) := by
  unfold handleCheckBuildableTask
  dsimp only
  split
  · split
    · exact ⟨id, .inl⟩
    · split
      · constructor
        · exact Or.imp_right (List.mem_append_left _)
        · rintro (sent | reported)
          · exact .inl (.inl sent)
          · rcases List.mem_append.mp reported with earlier | added
            · exact .inl (.inr earlier)
            · rw [List.mem_singleton, RecorderTask.mk.injEq] at added
              exact .inr added.1
      · simp only [Sends, List.map_append, List.mem_append]
        constructor
        · exact Or.imp_left .inl
        · rintro ((earlier | added) | reported)
          · exact .inl (.inl earlier)
          · exact .inr (List.mem_singleton.mp added)
          · exact .inl (.inr reported)
  · exact ⟨id, .inl⟩

theorem handleCheckBuildableTask_view (config : SchedulerConfig) (now : Instant) (sweep : Sweep DrvId)
    (drvId : DrvId) :
    (sweep.handleCheckBuildableTask config now drvId).service.sharedView = sweep.service.sharedView ∨
      (sweep.handleCheckBuildableTask config now drvId).service.sharedView =
        sweep.service.sharedView.setState drvId .buildable := by
  unfold handleCheckBuildableTask
  dsimp only
  split
  · split
    · exact .inl rfl
    · split
      · exact .inl rfl
      · split
        · exact .inl rfl
        · exact .inr (GraphService.process_view ..)
  · exact .inl rfl

end Check

section Pass

variable {config : SchedulerConfig} {now : Instant} {drvId : DrvId} {candidates : List DrvId}

/-- A drv whose state the sweep looks for. -/
def Listed (view : SharedView DrvId) (drvId : DrvId) : Prop :=
  view.getBuildState drvId = some .queued ∨ view.getBuildState drvId = some .buildable

omit [DecidableEq DrvId] in
theorem listed_of_mem_sweepCandidates {view : SharedView DrvId}
    (member : drvId ∈ System.sweepCandidates view) : Listed view drvId := by
  have found := (List.mem_filter.mp member).2
  simp only [Bool.or_eq_true, Bool.and_eq_true, decide_eq_true_eq] at found
  exact found.imp_left (·.1)

omit [DecidableEq DrvId] in
theorem mem_sweepCandidates {view : SharedView DrvId} (listed : Listed view drvId)
    (ready : view.isBuildable drvId = true) : drvId ∈ System.sweepCandidates view := by
  obtain ⟨node, held, -⟩ := SharedView.isBuildable_iff.mp ready
  refine List.mem_filter.mpr ⟨Table.mem_keys_of_get held, ?_⟩
  rcases listed with queued | buildable
  · simp [queued, ready]
  · simp [buildable]

variable (sweep : Sweep DrvId)

theorem sends_of_foldl (sent : (candidates.foldl (handleCheckBuildableTask config now) sweep).Sends drvId) :
    sweep.Sends drvId ∨ drvId ∈ candidates := by
  induction candidates generalizing sweep with
  | nil => exact .inl sent
  | cons candidate rest ih =>
    rcases ih _ sent with earlier | later
    · rcases sends_handleCheckBuildableTask.2 earlier with before | same
      · exact .inl before
      · exact .inr (same ▸ List.mem_cons_self ..)
    · exact .inr (List.mem_cons_of_mem _ later)

theorem foldl_sends_mono (sent : sweep.Sends drvId) :
    (candidates.foldl (handleCheckBuildableTask config now) sweep).Sends drvId := by
  induction candidates generalizing sweep with
  | nil => exact sent
  | cons candidate rest ih => exact ih _ (sends_handleCheckBuildableTask.1 sent)

/-- A pass that starts with a drv ready checks it while it still is: of the
drvs whose entries the pass rewrites, none is a finished dependency. -/
theorem foldl_sends (member : drvId ∈ candidates) (ready : sweep.service.sharedView.isBuildable drvId = true)
    (listed : ∀ candidate ∈ candidates, Listed sweep.service.sharedView candidate) :
    (candidates.foldl (handleCheckBuildableTask config now) sweep).Sends drvId := by
  induction candidates generalizing sweep with
  | nil => cases member
  | cons candidate rest ih =>
    have view := handleCheckBuildableTask_view config now sweep candidate
    rcases List.mem_cons.mp member with same | later
    · subst same
      rw [List.foldl_cons]
      exact foldl_sends_mono _ (sends_of_isBuildable ready)
    · refine ih _ later ?_ fun other inside => ?_
      · rcases view with same | written
        · rw [same]
          exact ready
        · rw [written]
          refine SharedView.isBuildable_setState (fun done => ?_) ready
          rcases listed candidate (List.mem_cons_self ..) with queued | buildable
          · cases done.symm.trans queued
          · cases done.symm.trans buildable
      · have before := listed other (List.mem_cons_of_mem _ inside)
        rcases view with same | written
        · rw [same]
          exact before
        · rw [written, Listed, SharedView.setState_getBuildState]
          split
          · refine .inr ?_
            rcases before with queued | buildable
            · rw [queued, Option.map_some]
            · rw [buildable, Option.map_some]
          · exact before

/-- Whatever the database a service started on and whatever has happened since:
of the drvs that wait for nothing, the enqueue at start-up and one pass of the
sweep catch those that are queued or buildable, and miss a spent attempt. -/
theorem caught_iff (config : SchedulerConfig) (db : Database DrvId) (capacity : Nat) (positive : 0 < capacity)
    (started now : Instant) (service : GraphService DrvId) {candidates : List DrvId}
    (found : candidates.Perm (System.sweepCandidates service.sharedView)) {drvId : DrvId}
    {state : DrvBuildState} (stuck : service.sharedView.getBuildState drvId = some state)
    (unfinished : state.isTerminal = false) (idle : state ≠ .building)
    (ready : service.sharedView.isBuildable drvId = true) :
    drvId ∈ (GraphService.new db capacity positive started).enqueueBuildableBuilds ∨
        (sweepBuildableDrvs config now service candidates).Sends drvId ↔
      state ≠ .failedRetry ∧ state ≠ .blocked := by
  constructor
  · rintro (enqueued | sent)
    · have none : (GraphService.new db capacity positive started).enqueueBuildableBuilds = ∅ :=
        BuildGraph.fromDatabase_buildable
      rw [none] at enqueued
      exact absurd enqueued (Finset.notMem_empty drvId)
    · rcases sends_of_foldl _ sent with before | member
      · simp [Sends] at before
      · have listed := listed_of_mem_sweepCandidates (found.mem_iff.mp member)
        rw [Listed, stuck, Option.some.injEq, Option.some.injEq] at listed
        rcases listed with queued | buildable
        · simp [queued]
        · simp [buildable]
  · intro ⟨unspent, unblocked⟩
    have listed : Listed service.sharedView drvId := by
      rw [Listed, stuck]
      cases state <;> simp_all [DrvBuildState.isTerminal]
    refine .inr (foldl_sends _ (found.mem_iff.mpr (mem_sweepCandidates listed ready)) ready ?_)
    exact fun candidate member => listed_of_mem_sweepCandidates (found.mem_iff.mp member)

/-- A database with a single drv. -/
def loneDatabase (state : DrvBuildState) : Database Nat :=
  Database.empty.insertDrvsAndReferences [.plain 0 state] []

theorem queued_caught :
    let service := GraphService.new (loneDatabase .queued) 1 (by decide) 0
    service.sharedView.getBuildState 0 = some .queued ∧
      (0 ∈ service.enqueueBuildableBuilds ∨ (sweepBuildableDrvs System.soloBuilders 0 service [0]).Sends 0) := by
  have stuck : (GraphService.new (loneDatabase .queued) 1 (by decide) 0).sharedView.getBuildState 0 =
      some .queued := by decide
  refine ⟨stuck, (caught_iff System.soloBuilders (loneDatabase .queued) 1 (by decide) 0 0 _
    (List.Perm.refl [0]) stuck rfl (by decide) (by decide)).mpr (by decide)⟩

/-- A spent attempt survives the restart, and neither net catches it. -/
theorem spentAttempt_missed :
    let service := GraphService.new (loneDatabase .failedRetry) 1 (by decide) 0
    service.sharedView.getBuildState 0 = some .failedRetry ∧ service.sharedView.isBuildable 0 = true ∧
      ¬ (0 ∈ service.enqueueBuildableBuilds ∨ (sweepBuildableDrvs System.soloBuilders 0 service
        (System.sweepCandidates service.sharedView)).Sends 0) := by
  decide

end Pass

end Sweep

namespace System

variable [DecidableEq DrvId]

/-- Between two checks of a sweep, with nothing for the graph to do. -/
structure Sweeping (system : System DrvId) (rest : List DrvId) : Prop where
  idle : system.ingress = .idle
  quiet : system.graphQueue = []
  remaining : system.sweepRest = rest

theorem sweepNext_run (config : SchedulerConfig) {system : System DrvId} {drvId : DrvId} {rest : List DrvId} (now : Instant)
    (sweeping : system.Sweeping (drvId :: rest)) :
    ∃ actions final, AnyRun (step config) system actions final ∧ final.Sweeping rest ∧
      Sweep.ofSystem final = (Sweep.ofSystem system).handleCheckBuildableTask config now drvId := by
  obtain ⟨idle, quiet, remaining⟩ := sweeping
  have next : step config system (.sweepNext true) =
      some ({ system with sweepRest := rest }.checkBuildable config drvId true) := by
    simp only [step, idle, remaining]
  have checked := checkBuildable_checked config { system with sweepRest := rest } drvId true
  generalize { system with sweepRest := rest }.checkBuildable config drvId true = after at next checked
  have single : AnyRun (step config) system [.sweepNext true] after := .cons trivial next .start
  cases checked with
  | skip waiting =>
    refine ⟨_, _, single, ⟨idle, quiet, rfl⟩, ?_⟩
    have same : system.service.sharedView.isBuildable drvId = false := waiting
    simp [Sweep.ofSystem, Sweep.handleCheckBuildableTask, same]
  | unsatisfiable ready found cannot =>
    refine ⟨_, _, single, ⟨idle, quiet, rfl⟩, ?_⟩
    have ready : system.service.sharedView.isBuildable drvId = true := ready
    have found : system.service.sharedView.get drvId = _ := found
    simp [Sweep.ofSystem, Sweep.handleCheckBuildableTask, report, ready, found, cannot]
  | retry ready found can spent =>
    refine ⟨_, _, single, ⟨idle, quiet, rfl⟩, ?_⟩
    have ready : system.service.sharedView.isBuildable drvId = true := ready
    have found : system.service.sharedView.get drvId = _ := found
    simp [Sweep.ofSystem, Sweep.handleCheckBuildableTask, offerBuild, ready, found, can, spent]
  | @update node ready found can unspent =>
    let answered : System DrvId := { system with
      sweepRest := rest
      graphQueue := []
      ingress := .updated drvId node
      service := (system.service.process now (.updateState drvId .buildable)).2 }
    let final : System DrvId := { answered with
      ingress := .idle
      buildQueue := system.buildQueue ++ [node.toDrv drvId] }
    have offered : AnyRun (step config) answered [.sendBuild true] final := .cons trivial rfl .start
    refine ⟨[.sweepNext true, .applyCommand now, .sendBuild true], final,
      .cons trivial next (.cons trivial ?_ offered), ⟨rfl, rfl, rfl⟩, ?_⟩
    · simp only [step, send, quiet, List.nil_append]
      rfl
    have ready : system.service.sharedView.isBuildable drvId = true := ready
    have found : system.service.sharedView.get drvId = some node := found
    simp [Sweep.ofSystem, Sweep.handleCheckBuildableTask, final, answered, ready, found, can, unspent]

theorem sweep_run (config : SchedulerConfig) {system : System DrvId} (now : Instant) {candidates : List DrvId}
    (sweeping : system.Sweeping candidates) :
    ∃ actions final, AnyRun (step config) system actions final ∧ final.Sweeping [] ∧
      Sweep.ofSystem final =
        candidates.foldl (Sweep.handleCheckBuildableTask config now) (Sweep.ofSystem system) := by
  induction candidates generalizing system with
  | nil => exact ⟨[], system, .start, sweeping, rfl⟩
  | cons candidate rest ih =>
    obtain ⟨first, middle, checked, sweeping, same⟩ := sweepNext_run config now sweeping
    obtain ⟨later, final, swept, done, equal⟩ := ih sweeping
    refine ⟨first ++ later, final, checked.append swept, done, ?_⟩
    rw [equal, same, List.foldl_cons]

end System

end EkaCI
