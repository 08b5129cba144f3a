import EkaCI.Scheduler.System

/-! The queue of one platform. Requests that no builder of the platform can run are
reported; the others are routed to the pool of the fixed-output builder, of the
local builder or of the remote builders, by which of these there are and by two
flags of the request. -/

namespace EkaCI

open Lib

variable {DrvId : Type}

structure Builder where
  isLocal : Bool
  maxJobs : Nat
  remoteUri : Option String
  builderName : String
  supportedFeatures : List String
  mandatoryFeatures : List String
  deriving DecidableEq

namespace Builder

/-- The feature filter. A builder with mandatory features only takes drvs that
require one of them. -/
def canHandle (builder : Builder) (drv : Drv DrvId) : Bool :=
  let required := requiredFeatures drv.requiredSystemFeatures
  (builder.mandatoryFeatures.isEmpty || required.any fun feature => builder.mandatoryFeatures.contains feature) &&
    required.all fun feature => builder.supportedFeatures.contains feature

end Builder

structure PlatformQueue where
  builders : Table String Builder
  localBuilder : Option Builder
  fodBuilder : Option Builder

inductive Pool where
  | fod
  | localhost
  | remote
  deriving DecidableEq

/-- What becomes of a request. -/
inductive Handling (DrvId : Type) where
  /-- It is dropped, with a report if there is a recorder to report to. -/
  | orphan (report : Option (RecorderTask DrvId))
  | routed (pool : Pool)
  deriving DecidableEq

namespace PlatformQueue

def new : PlatformQueue := ⟨.empty, none, none⟩

/-- A remote builder is only added if it can be reached. -/
def addBuilder (queue : PlatformQueue) (builder : Builder) (reachable : Bool) : PlatformQueue :=
  if builder.isLocal then { queue with localBuilder := some builder }
  else if builder.remoteUri.isSome && reachable then
    { queue with builders := queue.builders.push builder.builderName builder }
  else queue

def addFodBuilder (queue : PlatformQueue) (builder : Builder) : PlatformQueue :=
  { queue with fodBuilder := some builder }

def pool (queue : PlatformQueue) : Pool → List Builder
  | .fod => queue.fodBuilder.toList
  | .localhost => queue.localBuilder.toList
  | .remote => queue.builders.values

def allBuilders (queue : PlatformQueue) : List Builder :=
  queue.pool .fod ++ queue.pool .localhost ++ queue.pool .remote

def canHandleDrv (queue : PlatformQueue) (drv : Drv DrvId) : Bool :=
  queue.allBuilders.any (·.canHandle drv)

/-- Requests that no builder can handle are failed at once. All builders share
the recorder, so there is one as soon as there is a builder. -/
def checkOrphan (queue : PlatformQueue) (work : Drv DrvId) : Bool × Option (RecorderTask DrvId) :=
  if queue.canHandleDrv work then (false, none)
  else if queue.allBuilders.isEmpty then (true, none)
  else (true, some ⟨work.drvPath, .unsatisfiableRequirements⟩)

def hasFod (queue : PlatformQueue) : Bool := queue.fodBuilder.isSome

def hasLocal (queue : PlatformQueue) : Bool := queue.localBuilder.isSome

def hasRemote (queue : PlatformQueue) : Bool := !queue.builders.keys.isEmpty

/-- The six cases; without a local and a remote builder the queue closes at once. -/
def routing (queue : PlatformQueue) : Option (Drv DrvId → Pool) :=
  if queue.hasFod && queue.hasLocal && queue.hasRemote then
    some fun work => if work.isFod then .fod else if work.preferLocalBuild then .localhost else .remote
  else if queue.hasFod && queue.hasLocal then
    some fun work => if work.isFod then .fod else .localhost
  else if queue.hasFod && queue.hasRemote then
    some fun work => if work.isFod then .fod else .remote
  else if queue.hasLocal && queue.hasRemote then
    some fun work => if work.preferLocalBuild then .localhost else .remote
  else if queue.hasRemote then some fun _ => .remote
  else if queue.hasLocal then some fun _ => .localhost
  else none

/-- One turn of the loop. -/
def handle (queue : PlatformQueue) (route : Drv DrvId → Pool) (work : Drv DrvId) : Handling DrvId :=
  match queue.checkOrphan work with
  | (true, report) => .orphan report
  | (false, _) => .routed (route work)

/-- The requests that are taken from the queue, with what becomes of each. -/
def loopAllBuilds (queue : PlatformQueue) (requests : List (Drv DrvId)) : List (Drv DrvId × Handling DrvId) :=
  match queue.routing with
  | none => []
  | some route => requests.map fun work => (work, queue.handle route work)

/-- The request reaches a pool with a builder that passes the feature filter. -/
def ReachesBuilder (queue : PlatformQueue) (requests : List (Drv DrvId)) (work : Drv DrvId) : Prop :=
  ∃ pool, (work, .routed pool) ∈ queue.loopAllBuilds requests ∧
    ∃ builder ∈ queue.pool pool, builder.canHandle work = true

/-- Requests that are not rejected reach a builder that can run them, and those
that reach none are reported. -/
structure Delivers (queue : PlatformQueue) (requests : List (Drv DrvId)) : Prop where
  accepted : ∀ work ∈ requests, (queue.checkOrphan work).1 = false → queue.ReachesBuilder requests work
  reported : ∀ work ∈ requests, ¬ queue.ReachesBuilder requests work →
    (work, .orphan (some ⟨work.drvPath, .unsatisfiableRequirements⟩)) ∈ queue.loopAllBuilds requests

/-- The requests that end up where no builder can run them. -/
inductive Misrouted (queue : PlatformQueue) (work : Drv DrvId) : Prop where
  /-- There is neither a local nor a remote builder. -/
  | closed (noLocal : queue.localBuilder = none) (noRemote : queue.builders.keys = [])
  /-- A fixed-output drv that the fixed-output builder cannot handle, but another builder can. -/
  | fod (fod : Builder) (there : queue.fodBuilder = some fod) (isFod : work.isFod = true)
      (cannot : fod.canHandle work = false)
      (other : ∃ builder ∈ queue.pool .localhost ++ queue.pool .remote, builder.canHandle work = true)
  /-- A drv for the local builder that only another builder can handle. -/
  | localhost (localhost : Builder) (there : queue.localBuilder = some localhost)
      (notFod : work.isFod = true → queue.fodBuilder = none)
      (chosen : work.preferLocalBuild = true ∨ queue.builders.keys = [])
      (cannot : localhost.canHandle work = false)
      (other : ∃ builder ∈ queue.pool .fod ++ queue.pool .remote, builder.canHandle work = true)
  /-- A drv for the remote builders that only another builder can handle. -/
  | remote (there : queue.builders.keys ≠ []) (notFod : work.isFod = true → queue.fodBuilder = none)
      (chosen : work.preferLocalBuild = true → queue.localBuilder = none)
      (cannot : ∀ builder ∈ queue.pool .remote, builder.canHandle work = false)
      (other : ∃ builder ∈ queue.pool .fod ++ queue.pool .localhost, builder.canHandle work = true)

variable (queue : PlatformQueue) (work : Drv DrvId)

theorem routing_eq : (queue.routing : Option (Drv DrvId → Pool)) =
    if queue.hasLocal = false ∧ queue.hasRemote = false then none
    else some fun work =>
      if queue.hasFod && work.isFod then .fod
      else if queue.hasLocal && (work.preferLocalBuild || !queue.hasRemote) then .localhost
      else .remote := by
  rw [routing]
  cases queue.hasFod <;> cases queue.hasLocal <;> cases queue.hasRemote <;> simp

variable {queue work} {route : Drv DrvId → Pool} {requests : List (Drv DrvId)}

theorem canHandleDrv_iff : queue.canHandleDrv work = true ↔
    ∃ pool, ∃ builder ∈ queue.pool pool, builder.canHandle work = true := by
  simp only [canHandleDrv, allBuilders, List.any_eq_true, List.mem_append]
  constructor
  · rintro ⟨builder, (inFod | inLocal) | inRemote, can⟩
    · exact ⟨.fod, builder, inFod, can⟩
    · exact ⟨.localhost, builder, inLocal, can⟩
    · exact ⟨.remote, builder, inRemote, can⟩
  · rintro ⟨pool, builder, member, can⟩
    refine ⟨builder, ?_, can⟩
    cases pool with
    | fod => exact .inl (.inl member)
    | localhost => exact .inl (.inr member)
    | remote => exact .inr member

theorem exists_pool {first second : Pool}
    (other : ∃ builder ∈ queue.pool first ++ queue.pool second, builder.canHandle work = true) :
    ∃ pool, ∃ builder ∈ queue.pool pool, builder.canHandle work = true := by
  obtain ⟨builder, member, can⟩ := other
  obtain inFirst | inSecond := List.mem_append.mp member
  · exact ⟨first, builder, inFirst, can⟩
  · exact ⟨second, builder, inSecond, can⟩

theorem hasFod_eq_false : queue.hasFod = false ↔ queue.fodBuilder = none := by
  rw [hasFod, Option.isSome_eq_false_iff, Option.isNone_iff_eq_none]

theorem hasLocal_eq_false : queue.hasLocal = false ↔ queue.localBuilder = none := by
  rw [hasLocal, Option.isSome_eq_false_iff, Option.isNone_iff_eq_none]

theorem hasRemote_eq_false : queue.hasRemote = false ↔ queue.builders.keys = [] := by
  rw [hasRemote, Bool.not_eq_false', List.isEmpty_iff]

theorem routing_eq_none : (queue.routing : Option (Drv DrvId → Pool)) = none ↔
    queue.localBuilder = none ∧ queue.builders.keys = [] := by
  rw [routing_eq, ← hasLocal_eq_false, ← hasRemote_eq_false]
  split <;> simp_all

theorem served (routed : queue.routing = some route) :
    ¬ (queue.localBuilder = none ∧ queue.builders.keys = []) := by
  intro none
  exact absurd (routed.symm.trans (routing_eq_none.mpr none)) nofun

theorem routing_eq_some (routed : queue.routing = some route) (work : Drv DrvId) : route work =
    if queue.hasFod && work.isFod then .fod
    else if queue.hasLocal && (work.preferLocalBuild || !queue.hasRemote) then .localhost
    else .remote := by
  rw [routing_eq] at routed
  split at routed
  · cases routed
  · cases Option.some.inj routed
    rfl

theorem route_cases (routed : queue.routing = some route) (work : Drv DrvId) :
    (route work = .fod ∧ work.isFod = true ∧ ∃ fod, queue.fodBuilder = some fod) ∨
    (route work = .localhost ∧ (work.isFod = true → queue.fodBuilder = none) ∧
      (work.preferLocalBuild = true ∨ queue.builders.keys = []) ∧ ∃ localhost, queue.localBuilder = some localhost) ∨
    (route work = .remote ∧ (work.isFod = true → queue.fodBuilder = none) ∧
      (work.preferLocalBuild = true → queue.localBuilder = none) ∧ queue.builders.keys ≠ []) := by
  rw [routing_eq_some routed work]
  split
  · rename_i isFod
    obtain ⟨hasFod, isFod⟩ := Bool.and_eq_true_iff.mp isFod
    exact .inl ⟨rfl, isFod, Option.isSome_iff_exists.mp hasFod⟩
  · rename_i other
    have notFod (isFod : work.isFod = true) : queue.fodBuilder = none :=
      hasFod_eq_false.mp (by simpa [isFod] using other)
    split
    · rename_i preferred
      obtain ⟨hasLocal, preferred⟩ := Bool.and_eq_true_iff.mp preferred
      refine .inr (.inl ⟨rfl, notFod, ?_, Option.isSome_iff_exists.mp hasLocal⟩)
      rw [← hasRemote_eq_false, ← Bool.not_eq_true']
      exact Bool.or_eq_true_iff.mp preferred
    · rename_i distant
      refine .inr (.inr ⟨rfl, notFod, fun preferred => ?_, fun noRemote => ?_⟩)
      · exact hasLocal_eq_false.mp (by simpa [preferred] using distant)
      · have noLocal : queue.hasLocal = false := by simpa [hasRemote_eq_false.mpr noRemote] using distant
        exact served routed ⟨hasLocal_eq_false.mp noLocal, noRemote⟩

theorem Misrouted.cannot (misrouted : queue.Misrouted work) (routed : queue.routing = some route) :
    ∀ builder ∈ queue.pool (route work), builder.canHandle work = false := by
  have choice := route_cases routed work
  cases misrouted with
  | closed noLocal noRemote => exact absurd ⟨noLocal, noRemote⟩ (served routed)
  | fod fod there isFod cannot other =>
    obtain ⟨same, -⟩ | ⟨-, notFod, -⟩ | ⟨-, notFod, -⟩ := choice
    · simpa [same, pool, there] using cannot
    · exact absurd (there.symm.trans (notFod isFod)) nofun
    · exact absurd (there.symm.trans (notFod isFod)) nofun
  | localhost localhost there notFod chosen cannot other =>
    obtain ⟨-, isFod, fod, present⟩ | ⟨same, -⟩ | ⟨-, -, preferred, someRemote⟩ := choice
    · exact absurd (present.symm.trans (notFod isFod)) nofun
    · simpa [same, pool, there] using cannot
    · obtain prefers | noRemote := chosen
      · exact absurd (there.symm.trans (preferred prefers)) nofun
      · exact absurd noRemote someRemote
  | remote there notFod chosen cannot other =>
    obtain ⟨-, isFod, fod, present⟩ | ⟨-, -, preferred, localhost, present⟩ | ⟨same, -⟩ := choice
    · exact absurd (present.symm.trans (notFod isFod)) nofun
    · obtain prefers | noRemote := preferred
      · exact absurd (present.symm.trans (chosen prefers)) nofun
      · exact absurd noRemote there
    · rw [same]
      exact cannot

theorem Misrouted.can (misrouted : queue.Misrouted work) (routed : queue.routing = some route) :
    queue.canHandleDrv work = true := by
  cases misrouted with
  | closed noLocal noRemote => exact absurd ⟨noLocal, noRemote⟩ (served routed)
  | fod _ _ _ _ other | localhost _ _ _ _ _ other | remote _ _ _ _ other =>
    exact canHandleDrv_iff.mpr (exists_pool other)

theorem other_can {first second third : Pool} (can : queue.canHandleDrv work = true)
    (cannot : ∀ builder ∈ queue.pool first, builder.canHandle work = false)
    (pools : ∀ pool, pool = first ∨ pool = second ∨ pool = third) :
    ∃ builder ∈ queue.pool second ++ queue.pool third, builder.canHandle work = true := by
  obtain ⟨pool, builder, member, can⟩ := canHandleDrv_iff.mp can
  obtain rfl | rfl | rfl := pools pool
  · exact absurd (can.symm.trans (cannot builder member)) nofun
  · exact ⟨builder, List.mem_append_left _ member, can⟩
  · exact ⟨builder, List.mem_append_right _ member, can⟩

theorem misrouted_iff (routed : queue.routing = some route) : queue.Misrouted work ↔
    queue.canHandleDrv work = true ∧ ∀ builder ∈ queue.pool (route work), builder.canHandle work = false := by
  constructor
  · exact fun misrouted => ⟨misrouted.can routed, misrouted.cannot routed⟩
  · rintro ⟨can, cannot⟩
    obtain ⟨same, isFod, fod, there⟩ | ⟨same, notFod, preferred, localhost, there⟩ |
      ⟨same, notFod, preferred, there⟩ := route_cases routed work <;> rw [same] at cannot
    · refine .fod fod there isFod (cannot fod (Option.mem_toList.mpr there)) (other_can can cannot fun pool => ?_)
      cases pool <;> simp
    · refine .localhost localhost there notFod preferred (cannot localhost (Option.mem_toList.mpr there))
        (other_can can cannot fun pool => ?_)
      cases pool <;> simp
    · refine .remote there notFod preferred cannot (other_can can cannot fun pool => ?_)
      cases pool <;> simp

theorem mem_loopAllBuilds (routed : queue.routing = some route) {handling : Handling DrvId} :
    (work, handling) ∈ queue.loopAllBuilds requests ↔ work ∈ requests ∧ queue.handle route work = handling := by
  rw [loopAllBuilds, routed]
  simp only [List.mem_map, Prod.mk.injEq]
  constructor
  · rintro ⟨other, member, rfl, rfl⟩
    exact ⟨member, rfl⟩
  · rintro ⟨member, rfl⟩
    exact ⟨work, member, rfl, rfl⟩

theorem handle_of_canHandleDrv (route : Drv DrvId → Pool) (can : queue.canHandleDrv work = true) :
    queue.handle route work = .routed (route work) := by
  rw [handle, checkOrphan, if_pos can]

theorem handle_of_orphan (routed : queue.routing = some route) (cannot : queue.canHandleDrv work = false) :
    queue.handle route work = .orphan (some ⟨work.drvPath, .unsatisfiableRequirements⟩) := by
  have listed : queue.allBuilders.isEmpty = false := by
    refine Bool.eq_false_iff.mpr fun empty => served routed ?_
    obtain ⟨others, noRemote⟩ := List.append_eq_nil_iff.mp (List.isEmpty_iff.mp empty)
    refine ⟨?_, Table.keys_eq_nil_of_values noRemote⟩
    exact Option.toList_eq_nil_iff.mp (List.append_eq_nil_iff.mp others).2
  rw [handle, checkOrphan, cannot, listed]
  rfl

theorem reachesBuilder_iff (routed : queue.routing = some route) (member : work ∈ requests) :
    queue.ReachesBuilder requests work ↔ ∃ builder ∈ queue.pool (route work), builder.canHandle work = true := by
  constructor
  · rintro ⟨pool, handled, builder, inPool, can⟩
    have handled := ((mem_loopAllBuilds routed).mp handled).2
    rw [handle_of_canHandleDrv route (canHandleDrv_iff.mpr ⟨pool, builder, inPool, can⟩)] at handled
    cases handled
    exact ⟨builder, inPool, can⟩
  · rintro ⟨builder, inPool, can⟩
    have handled := handle_of_canHandleDrv route (canHandleDrv_iff.mpr ⟨_, builder, inPool, can⟩)
    exact ⟨route work, (mem_loopAllBuilds routed).mpr ⟨member, handled⟩, builder, inPool, can⟩

theorem checkOrphan_eq_false : (queue.checkOrphan work).1 = false ↔ queue.canHandleDrv work = true := by
  rw [checkOrphan]
  split
  · rename_i can
    exact iff_of_true rfl can
  · rename_i cannot
    refine iff_of_false ?_ cannot
    split <;> nofun

theorem delivers_iff_of_routed (routed : queue.routing = some route) :
    queue.Delivers requests ↔ ∀ work ∈ requests, ¬ queue.Misrouted work := by
  constructor
  · intro delivers work member misrouted
    obtain ⟨can, cannot⟩ := (misrouted_iff routed).mp misrouted
    obtain ⟨builder, inPool, able⟩ := (reachesBuilder_iff routed member).mp
      (delivers.accepted work member (checkOrphan_eq_false.mpr can))
    exact absurd (able.symm.trans (cannot builder inPool)) nofun
  · intro straight
    -- what some builder can handle, a builder of its pool can
    have reaches (work) (member : work ∈ requests) (can : queue.canHandleDrv work = true) :
        queue.ReachesBuilder requests work := by
      rw [reachesBuilder_iff routed member]
      by_contra none
      refine straight work member ((misrouted_iff routed).mpr ⟨can, fun builder inPool => ?_⟩)
      exact Bool.eq_false_iff.mpr fun able => none ⟨builder, inPool, able⟩
    refine ⟨fun work member accepted => reaches work member (checkOrphan_eq_false.mp accepted), ?_⟩
    intro work member unreached
    have cannot := Bool.eq_false_iff.mpr fun can => unreached (reaches work member can)
    exact (mem_loopAllBuilds routed).mpr ⟨member, handle_of_orphan routed cannot⟩

/-- Accepted requests reach a builder that can run them, and the others are
reported, exactly if no request is misrouted. -/
theorem delivers_iff (queue : PlatformQueue) (requests : List (Drv DrvId)) :
    queue.Delivers requests ↔ ∀ work ∈ requests, ¬ queue.Misrouted work := by
  cases routed : (queue.routing : Option (Drv DrvId → Pool)) with
  | some route => exact delivers_iff_of_routed routed
  | none =>
    obtain ⟨noLocal, noRemote⟩ := routing_eq_none.mp routed
    have silent : queue.loopAllBuilds requests = [] := by rw [loopAllBuilds, routed]
    constructor
    · intro delivers work member
      have unreached : ¬ queue.ReachesBuilder requests work := by
        rintro ⟨pool, handled, -⟩
        rw [silent] at handled
        cases handled
      have reported := delivers.reported work member unreached
      rw [silent] at reported
      cases reported
    · intro straight
      refine ⟨fun work member => ?_, fun work member => ?_⟩ <;>
        exact absurd (.closed noLocal noRemote) (straight work member)

/-- A platform whose local builders have a feature that its remote builder lacks. -/
def kvmAtHome : PlatformQueue :=
  let localhost : Builder := ⟨true, 40, none, "localhost", ["kvm"], []⟩
  let remote : Builder := ⟨false, 8, some "ssh://remote", "'ssh://remote x86_64-linux'", [], []⟩
  ((new.addBuilder localhost true).addBuilder remote true).addFodBuilder
    { localhost with maxJobs := 10, builderName := "localhost-fod" }

def needsKvm : Drv Nat := { Drv.plain 0 .buildable with requiredSystemFeatures := some "kvm" }

/-- The local builders could run the request, but it waits for the remote one. -/
theorem needsKvm_not_delivered : ¬ kvmAtHome.Delivers [needsKvm] := by
  intro delivers
  obtain ⟨pool, handled, builder, inPool, able⟩ := delivers.accepted needsKvm (by decide) (by decide)
  have routed : kvmAtHome.loopAllBuilds [needsKvm] = [(needsKvm, .routed .remote)] := by decide
  rw [routed, List.mem_singleton] at handled
  cases handled
  have unable : ∀ builder ∈ kvmAtHome.pool .remote, builder.canHandle needsKvm = false := by decide
  exact absurd (able.symm.trans (unable builder inPool)) nofun

/-! ### The early check

Whether a builder can run a drv is asked three times: by the ingress service of a
snapshot of the features, by the platform's queue of features that it has extracted,
and by the loop over a pool of each of its builders. -/

end PlatformQueue

/-- The supported and the mandatory features. -/
def Builder.features (builder : Builder) : List String × List String :=
  (builder.supportedFeatures, builder.mandatoryFeatures)

def BuilderFeatureSnapshot.ofBuilders (builders : List Builder) : BuilderFeatureSnapshot :=
  ⟨builders.map Builder.features⟩

/-- The check of the platform's queue; unlike that of the snapshot it also looks at
the builders when nothing is required. -/
def canHandleDrv (allBuilderFeatures : List (List String × List String)) (drv : Drv DrvId) : Bool :=
  let required := requiredFeatures drv.requiredSystemFeatures
  allBuilderFeatures.any fun features =>
    if !features.2.isEmpty && !(required.any fun feature => features.2.contains feature) then false
    else required.all fun feature => features.1.contains feature

structure ChecksAgree (builders : List Builder) (drv : Drv DrvId) : Prop where
  early : (BuilderFeatureSnapshot.ofBuilders builders).canBuild drv.requiredSystemFeatures = true ↔
    canHandleDrv (builders.map Builder.features) drv = true
  filter : canHandleDrv (builders.map Builder.features) drv = true ↔ ∃ builder ∈ builders, builder.canHandle drv = true

section EarlyCheck

variable {builders : List Builder} {drv : Drv DrvId}

theorem canHandleDrv_iff : canHandleDrv (builders.map Builder.features) drv = true ↔
    ∃ builder ∈ builders, builder.canHandle drv = true := by
  simp only [canHandleDrv, List.any_map, List.any_eq_true, Function.comp_apply]
  apply exists_congr
  intro builder
  apply and_congr_right
  intro _
  rw [Builder.canHandle, Builder.features]
  cases builder.mandatoryFeatures.isEmpty <;>
    cases (requiredFeatures drv.requiredSystemFeatures).any fun feature => builder.mandatoryFeatures.contains feature <;> simp

theorem PlatformQueue.canHandleDrv_eq (queue : PlatformQueue) :
    queue.canHandleDrv drv = EkaCI.canHandleDrv (queue.allBuilders.map Builder.features) drv := by
  rw [Bool.eq_iff_iff, EkaCI.canHandleDrv_iff, PlatformQueue.canHandleDrv, List.any_eq_true]

theorem requiredFeatures_isEmpty {features : Option String} :
    (requiredFeatures features).isEmpty = true ↔ features = none := by
  cases features with
  | none => simp [requiredFeatures]
  | some text => simp [requiredFeatures, List.splitOn_ne_nil]

/-- The snapshot lets a drv pass that requires nothing, and is as strict as the
filter with any other. -/
theorem canBuild_iff : (BuilderFeatureSnapshot.ofBuilders builders).canBuild drv.requiredSystemFeatures = true ↔
    drv.requiredSystemFeatures = none ∨ ∃ builder ∈ builders, builder.canHandle drv = true := by
  rw [BuilderFeatureSnapshot.canBuild, Bool.or_eq_true, requiredFeatures_isEmpty]
  simp only [BuilderFeatureSnapshot.ofBuilders, List.any_map, List.any_eq_true, Function.comp_apply,
    Builder.canHandle, Builder.features]

theorem canHandle_of_none {builder : Builder} (absent : drv.requiredSystemFeatures = none) :
    builder.canHandle drv = true ↔ builder.mandatoryFeatures = [] := by
  simp [Builder.canHandle, requiredFeatures, absent]

/-- The checks differ exactly about drvs without required features where every
builder has mandatory ones, or where there is no builder. -/
theorem checksAgree_iff (builders : List Builder) (drv : Drv DrvId) : ChecksAgree builders drv ↔
    drv.requiredSystemFeatures ≠ none ∨ ∃ builder ∈ builders, builder.mandatoryFeatures = [] := by
  have agree : ChecksAgree builders drv ↔
      (drv.requiredSystemFeatures = none → ∃ builder ∈ builders, builder.canHandle drv = true) := by
    constructor
    · intro agree absent
      exact canHandleDrv_iff.mp (agree.early.mp (canBuild_iff.mpr (.inl absent)))
    · intro found
      refine ⟨?_, canHandleDrv_iff⟩
      rw [canBuild_iff, canHandleDrv_iff]
      exact ⟨fun passed => passed.elim found id, .inr⟩
  rw [agree, imp_iff_not_or]
  apply or_congr_right'
  intro requires
  simp only [canHandle_of_none (not_not.mp requires)]

/-- The only builder is kept for what needs kvm. -/
theorem kvmOnly_not_checksAgree :
    ¬ ChecksAgree [⟨false, 8, some "ssh://kvm", "'ssh://kvm x86_64-linux'", ["kvm"], ["kvm"]⟩]
      (Drv.plain 0 .buildable : Drv Nat) := by
  intro agree
  exact absurd (agree.early.mp (by decide)) (by decide)

end EarlyCheck

end EkaCI
