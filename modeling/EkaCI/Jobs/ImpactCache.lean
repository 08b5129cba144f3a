import EkaCI.Jobs.RebuildImpact
import EkaCI.Lib.Json
import EkaCI.Lib.Run

/-! The read-through cache of the rebuild impact. An answer is kept by the two commits, the job
and the mode, not by the limit on the entries. -/

namespace EkaCI

open Lib
open Lib.Json (Members field getStr getU64 getList getOption getMembers ofOption)

namespace TopBlastRadiusEntry

def toJson (entry : TopBlastRadiusEntry) : Json :=
  .obj [("pname", ofOption .str entry.pname), ("drv_path", .str entry.drvPath.text),
    ("blast_radius", .int entry.blastRadius.toNat)]

end TopBlastRadiusEntry

def PerSystemImpact.toJson (impact : PerSystemImpact) : Json :=
  .obj [("system", .str impact.system), ("rebuild_count", .int impact.rebuildCount.toNat),
    ("top_blast_radius", .arr (impact.topBlastRadius.map TopBlastRadiusEntry.toJson))]

def RebuildImpactResponse.toJson (response : RebuildImpactResponse) : Json :=
  .obj [("head_sha", .str response.headSha), ("base_sha", .str response.baseSha), ("job", .str response.job),
    ("computed_at", .str response.computedAt), ("per_system", .arr (response.perSystem.map PerSystemImpact.toJson)),
    ("total_unique_drvs", .int response.totalUniqueDrvs.toNat)]

structure CachedTopEntry where
  pname : Option String
  drvPath : String
  blastRadius : UInt64

structure CachedPerSystem where
  system : String
  rebuildCount : UInt64
  topBlastRadius : List CachedTopEntry

structure CachedResponse where
  headSha : String
  baseSha : String
  job : String
  computedAt : String
  perSystem : List CachedPerSystem
  totalUniqueDrvs : UInt64

/-- The `usize` of the platform. -/
def getUsize (value : Json) : Option UInt64 := (getU64 value).map UInt64.ofNat

def CachedTopEntry.fromJson (value : Json) : Option CachedTopEntry := do
  let members ← getMembers value
  let pname ← field ["pname"] (some none) (getOption getStr) members
  let drvPath ← field ["drv_path"] none getStr members
  let blastRadius ← field ["blast_radius"] none getUsize members
  return { pname, drvPath, blastRadius }

def CachedPerSystem.fromJson (value : Json) : Option CachedPerSystem := do
  let members ← getMembers value
  let system ← field ["system"] none getStr members
  let rebuildCount ← field ["rebuild_count"] none getUsize members
  let topBlastRadius ← field ["top_blast_radius"] none (getList CachedTopEntry.fromJson) members
  return { system, rebuildCount, topBlastRadius }

def CachedResponse.fromJson (value : Json) : Option CachedResponse := do
  let members ← getMembers value
  let headSha ← field ["head_sha"] none getStr members
  let baseSha ← field ["base_sha"] none getStr members
  let job ← field ["job"] none getStr members
  let computedAt ← field ["computed_at"] none getStr members
  let perSystem ← field ["per_system"] none (getList CachedPerSystem.fromJson) members
  let totalUniqueDrvs ← field ["total_unique_drvs"] none getUsize members
  return { headSha, baseSha, job, computedAt, perSystem, totalUniqueDrvs }

/-- An entry whose path is not valid is dropped. -/
def CachedTopEntry.intoEntry (entry : CachedTopEntry) : Option TopBlastRadiusEntry :=
  (DrvIdentifier.tryFrom entry.drvPath).map fun drvPath => ⟨entry.pname, drvPath, entry.blastRadius⟩

def CachedResponse.intoResponse (cached : CachedResponse) : RebuildImpactResponse where
  headSha := cached.headSha
  baseSha := cached.baseSha
  job := cached.job
  computedAt := cached.computedAt
  perSystem := cached.perSystem.map fun impact =>
    ⟨impact.system, impact.rebuildCount, impact.topBlastRadius.filterMap CachedTopEntry.intoEntry⟩
  totalUniqueDrvs := cached.totalUniqueDrvs

def readSummary (summaryJson : Json) : Option RebuildImpactResponse :=
  (CachedResponse.fromJson summaryJson).map CachedResponse.intoResponse

structure ImpactKey where
  headSha : String
  baseSha : String
  jobset : String
  fullBlastRadius : Bool
  deriving DecidableEq

structure ImpactCacheRow where
  rebuildCount : Nat
  criticalPathDrv : Option DrvIdentifier
  blastRadius : Option UInt64
  summaryJson : Json
  /-- In seconds. -/
  computedAt : Int

abbrev ImpactCache := ImpactKey → Option ImpactCacheRow

namespace ImpactCache

def lookup (cache : ImpactCache) (key : ImpactKey) : Option RebuildImpactResponse :=
  (cache key).bind fun row => readSummary row.summaryJson

end ImpactCache

/-- The larger radius, and of equal ones the smaller path. -/
def pickTop (top : Option (DrvIdentifier × UInt64)) (entry : TopBlastRadiusEntry) : Option (DrvIdentifier × UInt64) :=
  match top with
  | none => some (entry.drvPath, entry.blastRadius)
  | some (drv, radius) =>
    if radius < entry.blastRadius ∨ entry.blastRadius = radius ∧ entry.drvPath.text < drv.text then
      some (entry.drvPath, entry.blastRadius)
    else some (drv, radius)

def cacheRow (response : RebuildImpactResponse) (now : Int) : ImpactCacheRow :=
  let top := (response.perSystem.flatMap PerSystemImpact.topBlastRadius).foldl pickTop none
  { rebuildCount := (response.perSystem.map fun impact => impact.rebuildCount.toNat).sum
    criticalPathDrv := top.map Prod.fst
    blastRadius := top.map Prod.snd
    summaryJson := response.toJson
    computedAt := now }

namespace ImpactCache

def upsert (cache : ImpactCache) (response : RebuildImpactResponse) (fullBlastRadius : Bool) (now : Int) : ImpactCache :=
  Function.update cache ⟨response.headSha, response.baseSha, response.job, fullBlastRadius⟩ (some (cacheRow response now))

def cleanupOldEntries (cache : ImpactCache) (now thresholdDays : Int) : ImpactCache := fun key =>
  (cache key).filter fun row => ¬ row.computedAt < now - thresholdDays * 86400

end ImpactCache

def ImpactArgs.key (args : ImpactArgs) : ImpactKey := ⟨args.headSha, args.baseSha, args.job, args.fullBlastRadius⟩

/-- A failure to write the row is passed over. -/
def buildRebuildImpactResponseCached (graph : BuildGraph DrvIdentifier) (db : ImpactDatabase) (cache : ImpactCache)
    (args : ImpactArgs) (clock : String) (now : Int) (written : Bool) : ImpactAnswer × ImpactCache :=
  match cache.lookup args.key with
  | some hit => (.ok (some hit), cache)
  | none =>
    match buildRebuildImpactResponse graph db args clock with
    | .error error => (.error error, cache)
    | .ok none => (.ok none, cache)
    | .ok (some response) =>
      (.ok (some response), if written then cache.upsert response args.fullBlastRadius now else cache)

inductive ImpactEvent where
  | call (args : ImpactArgs) (clock : String) (now : Int) (written : Bool)
  | cleanup (now thresholdDays : Int)

/-- The cache, and the calls so far with their answers. -/
structure ImpactHistory where
  cache : ImpactCache
  answered : List (ImpactArgs × ImpactAnswer)

namespace ImpactHistory

def start : ImpactHistory := ⟨fun _ => none, []⟩

def record (history : ImpactHistory) (cache : ImpactCache) (args : ImpactArgs) (answer : ImpactAnswer) : ImpactHistory :=
  ⟨cache, history.answered ++ [(args, answer)]⟩

def step (graph : BuildGraph DrvIdentifier) (db : ImpactDatabase) (history : ImpactHistory) :
    ImpactEvent → Option ImpactHistory
  | .call args clock now written =>
    let (answer, cache) := buildRebuildImpactResponseCached graph db history.cache args clock now written
    some (history.record cache args answer)
  | .cleanup now thresholdDays => some { history with cache := history.cache.cleanupOldEntries now thresholdDays }

end ImpactHistory

theorem getList_map {A B : Type} {read : Json → Option B} {write : A → Json} {kept : A → B}
    (reads : ∀ value, read (write value) = some (kept value)) (values : List A) :
    getList read (.arr (values.map write)) = some (values.map kept) := by
  rw [getList]
  induction values with
  | nil => rfl
  | cons value rest ih =>
    rw [List.map_cons, List.mapM_cons, reads value, ih]
    rfl

theorem getUsize_toNat (number : UInt64) : getUsize (.int number.toNat) = some number := by
  have bounded : (0 : Int) ≤ number.toNat ∧ (number.toNat : Int) < 18446744073709551616 := by
    have small := number.toNat_lt
    omega
  rw [getUsize, getU64, if_pos bounded, Int.toNat_natCast, Option.map_some, UInt64.ofNat_toNat]

def TopBlastRadiusEntry.cached (entry : TopBlastRadiusEntry) : CachedTopEntry :=
  ⟨entry.pname, entry.drvPath.text, entry.blastRadius⟩

def PerSystemImpact.cached (impact : PerSystemImpact) : CachedPerSystem :=
  ⟨impact.system, impact.rebuildCount, impact.topBlastRadius.map TopBlastRadiusEntry.cached⟩

theorem field_single {A : Type} {names : List String} {absent : Option A} {read : Json → Option A} {members : Members}
    {name : String} {value : Json} (single : members.filter (·.1 ∈ names) = [(name, value)]) :
    field names absent read members = read value := by
  rw [field, single]

theorem fromJson_entry (entry : TopBlastRadiusEntry) : CachedTopEntry.fromJson entry.toJson = some entry.cached := by
  obtain ⟨pname, drvPath, blastRadius⟩ := entry
  rw [CachedTopEntry.fromJson, TopBlastRadiusEntry.toJson, getMembers, Option.bind_eq_bind, Option.bind_some,
    field_single rfl, field_single rfl, field_single rfl, getUsize_toNat]
  cases pname <;> rfl

theorem fromJson_impact (impact : PerSystemImpact) : CachedPerSystem.fromJson impact.toJson = some impact.cached := by
  rw [CachedPerSystem.fromJson, PerSystemImpact.toJson, getMembers, Option.bind_eq_bind, Option.bind_some,
    field_single rfl, field_single rfl, field_single rfl, getUsize_toNat, getList_map fromJson_entry]
  rfl

theorem intoEntry_cached (entry : TopBlastRadiusEntry) : entry.cached.intoEntry = some entry := by
  rw [CachedTopEntry.intoEntry, TopBlastRadiusEntry.cached, DrvIdentifier.tryFrom_text]
  rfl

theorem readSummary_toJson (response : RebuildImpactResponse) : readSummary response.toJson = some response := by
  obtain ⟨headSha, baseSha, job, computedAt, perSystem, totalUniqueDrvs⟩ := response
  have entries (impact : PerSystemImpact) :
      (impact.topBlastRadius.map TopBlastRadiusEntry.cached).filterMap CachedTopEntry.intoEntry =
        impact.topBlastRadius := by
    rw [List.filterMap_map, Function.comp_def]
    simp only [intoEntry_cached]
    exact List.filterMap_some
  have impacts : (perSystem.map PerSystemImpact.cached).map (fun impact => (⟨impact.system, impact.rebuildCount,
      impact.topBlastRadius.filterMap CachedTopEntry.intoEntry⟩ : PerSystemImpact)) = perSystem := by
    rw [List.map_map]
    conv_rhs => rw [← List.map_id perSystem]
    refine List.map_congr_left fun impact _ => ?_
    simp only [Function.comp_apply, PerSystemImpact.cached, entries]
    rfl
  have read : CachedResponse.fromJson (RebuildImpactResponse.toJson
      ⟨headSha, baseSha, job, computedAt, perSystem, totalUniqueDrvs⟩) =
        some ⟨headSha, baseSha, job, computedAt, perSystem.map PerSystemImpact.cached, totalUniqueDrvs⟩ := by
    rw [CachedResponse.fromJson, RebuildImpactResponse.toJson, getMembers, Option.bind_eq_bind, Option.bind_some,
      field_single rfl, field_single rfl, field_single rfl, field_single rfl, field_single rfl, field_single rfl,
      getUsize_toNat, getList_map fromJson_impact]
    rfl
  rw [readSummary, read, Option.map_some, CachedResponse.intoResponse]
  dsimp only
  rw [impacts]

/-- The drv with the largest radius, and of several the one with the smallest path. -/
def IsTop (entries : List TopBlastRadiusEntry) : Option (DrvIdentifier × UInt64) → Prop
  | none => entries = []
  | some (drv, radius) => (∃ entry ∈ entries, entry.drvPath = drv ∧ entry.blastRadius = radius) ∧
      ∀ entry ∈ entries, entry.blastRadius < radius ∨ entry.blastRadius = radius ∧ drv.text ≤ entry.drvPath.text

theorem isTop_pickTop {entries : List TopBlastRadiusEntry} {top : Option (DrvIdentifier × UInt64)}
    (holds : IsTop entries top) (last : TopBlastRadiusEntry) : IsTop (entries ++ [last]) (pickTop top last) := by
  cases top with
  | none =>
    cases holds
    refine ⟨⟨last, List.mem_singleton_self last, rfl, rfl⟩, fun entry member => ?_⟩
    rw [List.mem_singleton.mp member]
    exact .inr ⟨rfl, le_refl _⟩
  | some top =>
    obtain ⟨drv, radius⟩ := top
    obtain ⟨⟨chosen, member, path, size⟩, best⟩ := holds
    rw [pickTop]
    split
    · rename_i better
      refine ⟨⟨last, List.mem_append_right _ (List.mem_singleton_self last), rfl, rfl⟩, fun entry member => ?_⟩
      cases List.mem_append.mp member with
      | inr now =>
        rw [List.mem_singleton.mp now]
        exact .inr ⟨rfl, le_refl _⟩
      | inl before =>
        obtain larger | ⟨same, smaller⟩ := better
        · obtain less | ⟨equal, _⟩ := best entry before
          · exact .inl (UInt64.lt_trans less larger)
          · exact .inl (equal ▸ larger)
        · obtain less | ⟨equal, order⟩ := best entry before
          · exact .inl (same ▸ less)
          · exact .inr ⟨equal.trans same.symm, le_trans (le_of_lt smaller) order⟩
    · rename_i notBetter
      refine ⟨⟨chosen, List.mem_append_left _ member, path, size⟩, fun entry member => ?_⟩
      cases List.mem_append.mp member with
      | inl before => exact best entry before
      | inr now =>
        rw [List.mem_singleton.mp now]
        have notLarger : ¬ radius < last.blastRadius := fun larger => notBetter (.inl larger)
        by_cases same : last.blastRadius = radius
        · exact .inr ⟨same, not_lt.mp fun smaller => notBetter (.inr ⟨same, smaller⟩)⟩
        · exact .inl (UInt64.lt_of_le_of_ne (UInt64.not_lt.mp notLarger) same)

theorem isTop_foldl (entries : List TopBlastRadiusEntry) : IsTop entries (entries.foldl pickTop none) := by
  induction entries using List.reverseRecOn with
  | nil => rfl
  | append_singleton entries last ih =>
    rw [List.foldl_append, List.foldl_cons, List.foldl_nil]
    exact isTop_pickTop ih last

theorem IsTop.of_mem_iff {first second : List TopBlastRadiusEntry} {top : Option (DrvIdentifier × UInt64)}
    (same : ∀ entry, entry ∈ first ↔ entry ∈ second) (holds : IsTop first top) : IsTop second top := by
  cases top with
  | none =>
    cases holds
    exact List.eq_nil_iff_forall_not_mem.mpr fun entry member => List.not_mem_nil ((same entry).mpr member)
  | some top =>
    obtain ⟨⟨entry, member, chosen⟩, best⟩ := holds
    exact ⟨⟨entry, (same entry).mp member, chosen⟩, fun entry member => best entry ((same entry).mpr member)⟩

/-- A row that was written for a response: it reads back as the response, and its other columns
are the same for every order of the systems. -/
structure ImpactCacheRow.StoredFor (row : ImpactCacheRow) (response : RebuildImpactResponse) : Prop where
  decodes : readSummary row.summaryJson = some response
  counts : ∀ systems : List PerSystemImpact, systems.Perm response.perSystem →
    row.rebuildCount = (systems.map fun impact => impact.rebuildCount.toNat).sum
  headline : ∃ top, row.criticalPathDrv = top.map Prod.fst ∧ row.blastRadius = top.map Prod.snd ∧
    ∀ systems : List PerSystemImpact, systems.Perm response.perSystem → IsTop (systems.flatMap PerSystemImpact.topBlastRadius) top

theorem cacheRow_storedFor (response : RebuildImpactResponse) (now : Int) : (cacheRow response now).StoredFor response where
  decodes := readSummary_toJson response
  counts _ reordered := (reordered.map _).sum_eq.symm
  headline := by
    refine ⟨_, rfl, rfl, fun systems reordered => ?_⟩
    exact (isTop_foldl _).of_mem_iff fun entry => (reordered.symm.flatMap_right _).mem_iff

/-- Every call was answered as without the cache, and every row was written for an answer to a
call of its key. -/
structure ImpactHistory.Transparent (graph : BuildGraph DrvIdentifier) (db : ImpactDatabase)
    (history : ImpactHistory) : Prop where
  answers : ∀ args answer, (args, answer) ∈ history.answered →
    ∀ clock, untimed answer = untimed (buildRebuildImpactResponse graph db args clock)
  rows : ∀ key row, history.cache key = some row → ∃ args response,
    (args, .ok (some response)) ∈ history.answered ∧ args.key = key ∧ row.StoredFor response

/-- A call for a commit, job and mode that were called for before has a limit that cuts the
lists of the systems as the earlier limits did. -/
def ImpactHistory.LimitsAgree (db : ImpactDatabase) (history : ImpactHistory) : ImpactEvent → Prop
  | .call args _ _ _ => ∀ earlier answer, (earlier, answer) ∈ history.answered → earlier.SameKey args →
      CutAlike db earlier args
  | .cleanup _ _ => True

variable {graph : BuildGraph DrvIdentifier} {db : ImpactDatabase}

theorem sameKey_of_key_eq {first second : ImpactArgs} (same : first.key = second.key) : first.SameKey second := by
  obtain ⟨head, base, job, full⟩ := ImpactKey.mk.inj same
  exact ⟨head, base, job, full⟩

theorem untimed_clock (args : ImpactArgs) (clock later : String) :
    untimed (buildRebuildImpactResponse graph db args clock) = untimed (buildRebuildImpactResponse graph db args later) :=
  (untimed_eq_iff ⟨rfl, rfl, rfl, rfl⟩ clock later).mpr fun _ _ _ _ _ _ => rfl

theorem build_names {args : ImpactArgs} {clock : String} {response : RebuildImpactResponse}
    (built : buildRebuildImpactResponse graph db args clock = .ok (some response)) :
    (⟨response.headSha, response.baseSha, response.job, args.fullBlastRadius⟩ : ImpactKey) = args.key := by
  cases found : db.headJobset args.headSha args.job with
  | none =>
    rw [buildRebuildImpactResponse, found] at built
    cases built
  | some jobset =>
    cases loaded : db.loadChangedImpactRows jobset with
    | error failure =>
      rw [buildRebuildImpactResponse, found] at built
      dsimp only at built
      rw [loaded] at built
      cases built
    | ok rows =>
      rw [build_of_rows found loaded] at built
      cases built
      rfl

theorem lookup_of_storedFor {cache : ImpactCache} {key : ImpactKey} {row : ImpactCacheRow}
    {response : RebuildImpactResponse} (present : cache key = some row) (stored : row.StoredFor response) :
    cache.lookup key = some response := by
  rw [ImpactCache.lookup, present, Option.bind_some, stored.decodes]

namespace ImpactHistory.Transparent

variable {history : ImpactHistory} {args : ImpactArgs}

theorem earlier_of_hit (holds : history.Transparent graph db) {key : ImpactKey} {hit : RebuildImpactResponse}
    (found : history.cache.lookup key = some hit) :
    ∃ earlier, (earlier, .ok (some hit)) ∈ history.answered ∧ earlier.key = key := by
  obtain ⟨row, present, read⟩ := Option.bind_eq_some_iff.mp found
  obtain ⟨earlier, response, answered, same, stored⟩ := holds.rows key row present
  rw [stored.decodes] at read
  cases read
  exact ⟨earlier, answered, same⟩

theorem answer (holds : history.Transparent graph db) {given : ImpactAnswer}
    (fresh : ∀ clock, untimed given = untimed (buildRebuildImpactResponse graph db args clock)) :
    Transparent graph db (history.record history.cache args given) where
  answers args' answer member := by
    cases List.mem_append.mp member with
    | inl before => exact holds.answers args' answer before
    | inr now =>
      cases List.mem_singleton.mp now
      exact fresh
  rows key row present := by
    obtain ⟨earlier, response, answered, named⟩ := holds.rows key row present
    exact ⟨earlier, response, List.mem_append_left _ answered, named⟩

theorem upsert (holds : history.Transparent graph db) {response : RebuildImpactResponse}
    (answered : (args, .ok (some response)) ∈ history.answered) {full : Bool}
    (named : (⟨response.headSha, response.baseSha, response.job, full⟩ : ImpactKey) = args.key) (now : Int) :
    Transparent graph db ⟨history.cache.upsert response full now, history.answered⟩ where
  answers := holds.answers
  rows key row present := by
    have present : Function.update history.cache args.key (some (cacheRow response now)) key = some row :=
      named ▸ present
    by_cases here : key = args.key
    · subst here
      rw [Function.update_self] at present
      cases present
      exact ⟨args, response, answered, rfl, cacheRow_storedFor response now⟩
    · rw [Function.update_of_ne here] at present
      exact holds.rows key row present

theorem cleanup (holds : history.Transparent graph db) (now thresholdDays : Int) :
    Transparent graph db { history with cache := history.cache.cleanupOldEntries now thresholdDays } where
  answers := holds.answers
  rows key row present := holds.rows key row (Option.filter_eq_some_iff.mp present).1

theorem step {next : ImpactHistory} (holds : history.Transparent graph db) {event : ImpactEvent}
    (agree : history.LimitsAgree db event) (taken : ImpactHistory.step graph db history event = some next) :
    next.Transparent graph db := by
  cases event with
  | cleanup now thresholdDays =>
    cases taken
    exact holds.cleanup now thresholdDays
  | call args clock now written =>
    rw [ImpactHistory.step, buildRebuildImpactResponseCached] at taken
    cases found : history.cache.lookup args.key with
    | some hit =>
      simp only [found] at taken
      cases taken
      obtain ⟨earlier, answered, same⟩ := holds.earlier_of_hit found
      have key := sameKey_of_key_eq same
      exact holds.answer fun later => (holds.answers earlier _ answered later).trans
        ((untimed_eq_iff key later later).mpr (agree earlier _ answered key))
    | none =>
      simp only [found] at taken
      cases built : buildRebuildImpactResponse graph db args clock with
      | error failure =>
        simp only [built] at taken
        cases taken
        exact holds.answer fun later => built ▸ untimed_clock args clock later
      | ok answer =>
        have answered := holds.answer fun later => built ▸ untimed_clock args clock later
        cases answer with
        | none =>
          simp only [built] at taken
          cases taken
          exact answered
        | some response =>
          simp only [built] at taken
          cases taken
          cases written with
          | false => exact answered
          | true => exact answered.upsert (List.mem_append_right _ (List.mem_singleton_self _)) (build_names built) now

end ImpactHistory.Transparent

namespace ImpactHistory

theorem start_transparent : start.Transparent graph db where
  answers _ _ member := absurd member List.not_mem_nil
  rows _ _ present := by cases present

/-- The cache cannot be told from the computation where the limits agree. -/
theorem transparent_of_run {history : ImpactHistory} {events : List ImpactEvent}
    (run : Run (step graph db) (LimitsAgree db) start events history) : history.Transparent graph db :=
  run.invariant start_transparent fun _ _ _ holds agree taken => holds.step agree taken

theorem call_again (history : ImpactHistory) {first : ImpactArgs} (second : ImpactArgs)
    {response : RebuildImpactResponse} (absent : history.cache.lookup first.key = none)
    (built : buildRebuildImpactResponse graph db first "" = .ok (some response)) (same : first.key = second.key) :
    ∃ cache, step graph db history (.call first "" 0 true) = some (history.record cache first (.ok (some response))) ∧
      step graph db (history.record cache first (.ok (some response))) (.call second "" 0 true) =
        some ((history.record cache first (.ok (some response))).record cache second (.ok (some response))) := by
  have present : history.cache.upsert response first.fullBlastRadius 0 second.key = some (cacheRow response 0) := by
    rw [ImpactCache.upsert, build_names built, same, Function.update_self]
  have found : (history.record (history.cache.upsert response first.fullBlastRadius 0) first
      (.ok (some response))).cache.lookup second.key = some response :=
    lookup_of_storedFor present (cacheRow_storedFor response 0)
  refine ⟨history.cache.upsert response first.fullBlastRadius 0, ?_, ?_⟩
  · rw [step, buildRebuildImpactResponseCached]
    simp only [absent, built]
    rfl
  · rw [step, buildRebuildImpactResponseCached]
    simp only [found]
    rfl

def newHello : DrvIdentifier := ⟨"99999999999999999999999999999999-hello-1.drv", by decide⟩

def newBye : DrvIdentifier := ⟨"88888888888888888888888888888888-bye-1.drv", by decide⟩

/-- Two jobs of one system are new at a commit. -/
def twoNew : ImpactDatabase where
  jobsets := [⟨1, "headsha", "packages", "owner", "repo"⟩]
  jobs := [⟨1, 1, "hello", .new⟩, ⟨1, 2, "bye", .new⟩]
  drvs := fun row => if row = 1 then some ⟨newHello.text, some "hello", "x86_64-linux"⟩
    else some ⟨newBye.text, some "bye", "x86_64-linux"⟩

def twoNewRows : List ImpactRow := [⟨newHello, some "hello", "x86_64-linux"⟩, ⟨newBye, some "bye", "x86_64-linux"⟩]

def askFor (limit : Nat) : ImpactArgs := ⟨"headsha", "basesha", "packages", limit, false⟩

theorem twoNew_headJobset (limit : Nat) : twoNew.headJobset (askFor limit).headSha (askFor limit).job = some 1 := by
  have named : twoNew.headJobset "headsha" "packages" = some 1 := by decide
  exact named

theorem askFor_sameKey (limit other : Nat) : (askFor limit).SameKey (askFor other) := ⟨rfl, rfl, rfl, rfl⟩

theorem twoNew_loaded : twoNew.loadChangedImpactRows 1 = .ok twoNewRows := by
  have joined : (twoNew.jobs.filter fun job => job.jobset = 1 ∧ job.difference ≠ .removed).filterMap
      (fun job => twoNew.drvs job.drvId) =
        [⟨newHello.text, some "hello", "x86_64-linux"⟩, ⟨newBye.text, some "bye", "x86_64-linux"⟩] := by
    simp [twoNew]
  rw [ImpactDatabase.loadChangedImpactRows, joined, List.mapM_cons, List.mapM_cons, List.mapM_nil, ImpactRow.ofDrv_text,
    ImpactRow.ofDrv_text]
  rfl

/-- A limit of two leaves as many entries as a limit of three. -/
theorem transparent_twoNew : ∃ history : ImpactHistory, history.Transparent (BuildGraph.new 4 (by decide)) twoNew ∧
    history.answered.map Prod.fst = [askFor 2, askFor 3] := by
  have built : buildRebuildImpactResponse (BuildGraph.new 4 (by decide)) twoNew (askFor 2) "" = _ :=
    build_of_rows (twoNew_headJobset 2) twoNew_loaded ""
  obtain ⟨cache, first, second⟩ := call_again start (askFor 3) rfl built rfl
  refine ⟨_, transparent_of_run (.cons ?_ first (.cons ?_ second .start)), rfl⟩
  · exact fun _ _ member => absurd member List.not_mem_nil
  · intro earlier answer member _ jobset rows head loaded system _
    cases List.mem_singleton.mp member
    cases (twoNew_headJobset 2).symm.trans head
    cases twoNew_loaded.symm.trans loaded
    have few := rankedCount_le (askFor 2).fullBlastRadius twoNewRows system
    have two : twoNewRows.length = 2 := rfl
    simp only [askFor] at few ⊢
    omega

/-- A limit of one is answered first, and a limit of two is then answered with one entry. -/
theorem not_transparent_twoNew : ¬ ∀ events history,
    AnyRun (step (BuildGraph.new 4 (by decide)) twoNew) start events history →
      history.Transparent (BuildGraph.new 4 (by decide)) twoNew := by
  intro claimed
  have built : buildRebuildImpactResponse (BuildGraph.new 4 (by decide)) twoNew (askFor 1) "" = _ :=
    build_of_rows (twoNew_headJobset 1) twoNew_loaded ""
  obtain ⟨cache, first, second⟩ := call_again start (askFor 2) rfl built rfl
  have holds := claimed _ _ (.cons trivial first (.cons trivial second .start))
  have one := holds.answers (askFor 1) _
    (List.mem_append_left _ (List.mem_append_right _ (List.mem_singleton_self _))) ""
  have two := holds.answers (askFor 2) _ (List.mem_append_right _ (List.mem_singleton_self _)) ""
  have same := one.symm.trans two
  have alike : CutAlike twoNew (askFor 1) (askFor 2) := (untimed_eq_iff (askFor_sameKey 1 2) "" "").mp same
  have listed : "x86_64-linux" ∈ systemKeys twoNewRows := List.mem_mergeSort.mpr (List.mem_dedup.mpr (by simp [twoNewRows]))
  have cut := alike 1 _ (twoNew_headJobset 1) twoNew_loaded "x86_64-linux" listed
  revert cut
  decide

end ImpactHistory

end EkaCI
