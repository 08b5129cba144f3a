import EkaCI.Jobs.Database

/-! Which caches a built drv is pushed to. The job configuration and the repository
whose permissions are checked come from two queries over the jobs of the drv; each
takes its own first row. -/

namespace EkaCI

structure CachePermissions where
  allowAll : Bool := true
  /-- In the form `owner/repo`. -/
  allowedRepos : List String := []
  allowedBranches : List String := []

inductive CacheType where
  | nixCopy
  | cachix
  | attic
  deriving DecidableEq

structure CacheConfig (Source : Type) where
  id : String
  cacheType : CacheType
  destination : String
  credentials : Source
  permissions : CachePermissions

structure PermissionContext where
  repoOwner : String
  repoName : String
  branch : Option String

def PermissionContext.repoFullName (context : PermissionContext) : String :=
  context.repoOwner ++ "/" ++ context.repoName

def matchesGlobPattern (value pattern : String) : Bool :=
  if pattern = "*" then true
  else if ['/', '*'].isSuffixOf pattern.toList then
    (pattern.toList.take (pattern.toList.length - 2)).isPrefixOf value.toList
  else if ['*', '/'].isPrefixOf pattern.toList then (pattern.toList.drop 2).isSuffixOf value.toList
  else value = pattern

inductive PermissionError where
  | repository (repoFullName cache : String)
  | branch (branch cache : String)
  | branchRequired (cache : String)

variable {Source DrvId : Type}

def checkCachePermission (cache : CacheConfig Source) (context : PermissionContext) : Except PermissionError Unit :=
  if cache.permissions.allowAll then .ok ()
  else if cache.permissions.allowedRepos ≠ [] ∧ context.repoFullName ∉ cache.permissions.allowedRepos then
    .error (.repository context.repoFullName cache.id)
  else if cache.permissions.allowedBranches = [] then .ok ()
  else
    match context.branch with
    | some branch =>
      if cache.permissions.allowedBranches.any (matchesGlobPattern branch) then .ok ()
      else .error (.branch branch cache.id)
    | none => .error (.branchRequired cache.id)

structure PostBuildHook where
  name : String
  command : List String
  env : List (String × String)
  deriving DecidableEq

/-- Credentials come from the environment, a file or a service: `load` says what
each source answers. -/
def buildCachePushHook (load : Source → Option (List (String × String))) (cache : CacheConfig Source) :
    Option PostBuildHook :=
  (load cache.credentials).map fun credentials =>
    { name := "push-" ++ cache.id
      command :=
        match cache.cacheType with
        | .nixCopy => ["nix", "copy", "--to", cache.destination, "$OUT_PATHS"]
        | .cachix => ["cachix", "push", cache.destination, "$OUT_PATHS"]
        | .attic => ["attic", "push", cache.destination, "$OUT_PATHS"]
      env := credentials }

/-- The part of a job configuration that the hooks read. -/
structure JobConfig where
  caches : List String

/-- The jobs with the configuration stored beside each jobset. A job row names a
jobset that is there. -/
structure HookDatabase (DrvId : Type) extends JobDatabase DrvId where
  configJson : Nat → Option String
  rowids : (jobsets.map JobSet.rowid).Nodup
  linked : ∀ job ∈ jobs, ∃ jobset ∈ jobsets, jobset.rowid = job.jobset

namespace HookDatabase

def getJobsetById (db : HookDatabase DrvId) (jobset : Nat) : Option JobSet :=
  db.jobsets.find? (·.rowid = jobset)

variable [DecidableEq DrvId]

/-- The job rows of a drv, in table order. -/
def jobsOfDrv (db : HookDatabase DrvId) (drvId : DrvId) : List (Job DrvId) :=
  db.jobs.filter (·.drvId = drvId)

/-- A query over the job rows of a drv returns them in some order. -/
abbrev Answers (db : HookDatabase DrvId) (drvId : DrvId) (rows : List (Job DrvId)) : Prop :=
  rows.Perm (db.jobsOfDrv drvId)

end HookDatabase

inductive HookError where
  | invalidConfig
  | noJobInfo
  | jobsetNotFound

structure HookTask where
  /-- Each hook with the cache that it pushes to. -/
  hooks : List (String × PostBuildHook)
  jobName : String
  commitSha : String

/-- What the recorder holds for its hooks: whether they run at all, the caches of the
server, and how it reads credentials and job configurations. -/
structure HookSettings (Source : Type) where
  hookSender : Bool
  cacheConfigs : String → Option (CacheConfig Source)
  load : Source → Option (List (String × String))
  parse : String → Option JobConfig

namespace HookSettings

/-- The branch of a jobset is not known. -/
def permissionContext (jobset : JobSet) : PermissionContext where
  repoOwner := jobset.owner
  repoName := jobset.repoName
  branch := none

/-- The hook for one listed cache. Caches that are not registered, not permitted or
without credentials are skipped. -/
def cacheHook (settings : HookSettings Source) (jobset : JobSet) (cacheId : String) : Option (String × PostBuildHook) :=
  match settings.cacheConfigs cacheId with
  | none => none
  | some cache =>
    match checkCachePermission cache (permissionContext jobset) with
    | .error _ => none
    | .ok () => (buildCachePushHook settings.load cache).map (cacheId, ·)

/-- `configRows` and `infoRows` are the answers of the two queries. -/
def executeHooksForDrv (settings : HookSettings Source) (db : HookDatabase DrvId)
    (configRows infoRows : List (Job DrvId)) : Except HookError (Option HookTask) :=
  if ¬ settings.hookSender then .ok none
  else
    match configRows.head?.bind fun row => db.configJson row.jobset with
    | none => .ok none
    | some configJson =>
      match settings.parse configJson with
      | none => .error .invalidConfig
      | some job =>
        if job.caches = [] then .ok none
        else
          match infoRows.head? with
          | none => .error .noJobInfo
          | some jobInfo =>
            match db.getJobsetById jobInfo.jobset with
            | none => .error .jobsetNotFound
            | some jobset =>
              let hooks := job.caches.filterMap (settings.cacheHook jobset)
              if hooks = [] then .ok none
              else .ok (some ⟨hooks, jobInfo.name, jobset.sha⟩)

def pushedCaches (settings : HookSettings Source) (db : HookDatabase DrvId) (configRows infoRows : List (Job DrvId)) :
    List String :=
  match settings.executeHooksForDrv db configRows infoRows with
  | .ok (some task) => task.hooks.map (·.1)
  | _ => []

/-- A jobset lists a cache in its own configuration. -/
def Lists (settings : HookSettings Source) (db : HookDatabase DrvId) (jobset : JobSet) (cacheId : String) : Prop :=
  ∃ configJson, db.configJson jobset.rowid = some configJson ∧
    ∃ job, settings.parse configJson = some job ∧ cacheId ∈ job.caches

/-- A jobset passes the permission check of a cache. -/
def Passes (cache : CacheConfig Source) (jobset : JobSet) : Prop :=
  checkCachePermission cache (permissionContext jobset) = .ok ()

variable {settings : HookSettings Source} {cacheId : String} {jobset : JobSet}

theorem mem_cacheHook :
    (∃ hook, settings.cacheHook jobset cacheId = some hook) ↔
      ∃ cache, settings.cacheConfigs cacheId = some cache ∧ Passes cache jobset ∧
        (settings.load cache.credentials).isSome = true := by
  unfold cacheHook Passes
  cases settings.cacheConfigs cacheId with
  | none => simp
  | some cache =>
    cases checked : checkCachePermission cache (permissionContext jobset) with
    | error error => simp [checked]
    | ok =>
      simp only [Option.some.injEq, exists_eq_left', checked, true_and]
      cases loaded : settings.load cache.credentials <;> simp [buildCachePushHook, loaded]

theorem cacheHook_fst {hook : String × PostBuildHook} (built : settings.cacheHook jobset cacheId = some hook) :
    hook.1 = cacheId := by
  unfold cacheHook at built
  split at built
  · cases built
  · split at built
    · cases built
    · obtain ⟨post, -, rfl⟩ := Option.map_eq_some_iff.mp built
      rfl

/-- A push needs a listing in the first row of one answer and a permission for the
first row of the other. -/
theorem mem_pushedCaches {db : HookDatabase DrvId} {configRows infoRows : List (Job DrvId)} :
    cacheId ∈ settings.pushedCaches db configRows infoRows ↔
      settings.hookSender = true ∧
        (∃ row, configRows.head? = some row ∧ ∃ configJson, db.configJson row.jobset = some configJson ∧
          ∃ job, settings.parse configJson = some job ∧ cacheId ∈ job.caches) ∧
        ∃ row, infoRows.head? = some row ∧ ∃ jobset, db.getJobsetById row.jobset = some jobset ∧
          ∃ cache, settings.cacheConfigs cacheId = some cache ∧ Passes cache jobset ∧
            (settings.load cache.credentials).isSome = true := by
  unfold pushedCaches executeHooksForDrv
  by_cases sender : settings.hookSender = true
  · rw [if_neg (not_not_intro sender)]
    cases configRows with
    | nil => simp
    | cons configRow _ =>
      simp only [List.head?_cons, Option.bind_some, Option.some.injEq, exists_eq_left']
      cases config : db.configJson configRow.jobset with
      | none => simp
      | some configJson =>
        simp only [Option.some.injEq, exists_eq_left']
        cases parsed : settings.parse configJson with
        | none => simp
        | some job =>
          simp only [Option.some.injEq, exists_eq_left']
          by_cases listed : job.caches = []
          · simp [listed]
          · rw [if_neg listed]
            cases infoRows with
            | nil => simp
            | cons infoRow _ =>
              simp only [List.head?_cons, Option.some.injEq, exists_eq_left']
              cases found : db.getJobsetById infoRow.jobset with
              | none => simp
              | some jobset =>
                simp only [Option.some.injEq, exists_eq_left', ← mem_cacheHook]
                have hooks : cacheId ∈ (job.caches.filterMap (settings.cacheHook jobset)).map (·.1) ↔
                    cacheId ∈ job.caches ∧ ∃ hook, settings.cacheHook jobset cacheId = some hook := by
                  simp only [List.mem_map, List.mem_filterMap]
                  constructor
                  · rintro ⟨hook, ⟨listedId, member, built⟩, rfl⟩
                    have same := cacheHook_fst built
                    subst same
                    exact ⟨member, hook, built⟩
                  · rintro ⟨member, hook, built⟩
                    exact ⟨hook, ⟨cacheId, member, built⟩, cacheHook_fst built⟩
                rw [← hooks]
                by_cases empty : job.caches.filterMap (settings.cacheHook jobset) = []
                · simp [empty]
                · simp [empty, sender]
  · simp [sender]

end HookSettings

namespace HookDatabase

variable [DecidableEq DrvId] {db : HookDatabase DrvId} {drvId : DrvId}

/-- A jobset contains a drv. -/
def Contains (db : HookDatabase DrvId) (drvId : DrvId) (jobset : JobSet) : Prop :=
  jobset ∈ db.jobsets ∧ ∃ row ∈ db.jobsOfDrv drvId, row.jobset = jobset.rowid

omit [DecidableEq DrvId] in
theorem getJobsetById_rowid {jobset : JobSet} (member : jobset ∈ db.jobsets) :
    db.getJobsetById jobset.rowid = some jobset := by
  cases found : db.getJobsetById jobset.rowid with
  | none => simpa using List.find?_eq_none.mp found jobset member
  | some other =>
    have same : other.rowid = jobset.rowid := by simpa using List.find?_some found
    rw [List.inj_on_of_nodup_map db.rowids (List.mem_of_find?_eq_some found) member same]

theorem contains_of_row {row : Job DrvId} (member : row ∈ db.jobsOfDrv drvId) :
    ∃ jobset, db.Contains drvId jobset ∧ row.jobset = jobset.rowid := by
  obtain ⟨jobset, present, same⟩ := db.linked row (List.mem_of_mem_filter member)
  exact ⟨jobset, ⟨present, row, member, same.symm⟩, same.symm⟩

theorem answers_cons {row : Job DrvId} (member : row ∈ db.jobsOfDrv drvId) :
    ∃ rest, db.Answers drvId (row :: rest) :=
  ⟨_, (List.perm_cons_erase member).symm⟩

theorem Answers.head {rows : List (Job DrvId)} (answers : db.Answers drvId rows) {jobset : JobSet}
    (contains : db.Contains drvId jobset) : ∃ row, rows.head? = some row := by
  obtain ⟨-, row, member, -⟩ := contains
  have present := answers.mem_iff.mpr member
  cases rows with
  | nil => cases present
  | cons first _ => exact ⟨first, rfl⟩

theorem Answers.contains_head {rows : List (Job DrvId)} (answers : db.Answers drvId rows) {row : Job DrvId}
    (first : rows.head? = some row) : ∃ jobset, db.Contains drvId jobset ∧ row.jobset = jobset.rowid :=
  contains_of_row (answers.mem_iff.mp (List.mem_of_head? first))

end HookDatabase

namespace HookSettings

variable [DecidableEq DrvId] {settings : HookSettings Source} {db : HookDatabase DrvId} {drvId : DrvId}

/-- The caches pushed to are those that some jobset with the drv lists and may use,
however the rows are ordered. -/
def PushesPermitted (settings : HookSettings Source) (db : HookDatabase DrvId) (drvId : DrvId) : Prop :=
  ∀ configRows infoRows, db.Answers drvId configRows → db.Answers drvId infoRows → ∀ cacheId,
    cacheId ∈ settings.pushedCaches db configRows infoRows ↔
      ∃ cache, settings.cacheConfigs cacheId = some cache ∧
        ∃ jobset, db.Contains drvId jobset ∧ settings.Lists db jobset cacheId ∧ Passes cache jobset

/-- Hooks run, and the credentials of the cache can be read. -/
def CanPush (settings : HookSettings Source) (cache : CacheConfig Source) : Prop :=
  settings.hookSender = true ∧ (settings.load cache.credentials).isSome = true

/-- The jobsets with the drv agree about a cache. -/
def Agree (settings : HookSettings Source) (db : HookDatabase DrvId) (drvId : DrvId) (cacheId : String)
    (cache : CacheConfig Source) : Prop :=
  (∀ jobset, db.Contains drvId jobset → settings.Lists db jobset cacheId ∧ Passes cache jobset) ∨
    (∀ jobset, db.Contains drvId jobset → ¬ settings.Lists db jobset cacheId) ∨
    ∀ jobset, db.Contains drvId jobset → ¬ Passes cache jobset

theorem mem_pushedCaches_of_answers {configRows infoRows : List (Job DrvId)} (configs : db.Answers drvId configRows)
    (infos : db.Answers drvId infoRows) {cacheId : String} {cache : CacheConfig Source}
    (registered : settings.cacheConfigs cacheId = some cache) :
    cacheId ∈ settings.pushedCaches db configRows infoRows ↔
      settings.CanPush cache ∧
        (∃ row jobset, configRows.head? = some row ∧ db.Contains drvId jobset ∧ row.jobset = jobset.rowid ∧
          settings.Lists db jobset cacheId) ∧
        ∃ row jobset, infoRows.head? = some row ∧ db.Contains drvId jobset ∧ row.jobset = jobset.rowid ∧
          Passes cache jobset := by
  rw [mem_pushedCaches]
  constructor
  · rintro ⟨sender, ⟨configRow, configFirst, lists⟩, infoRow, infoFirst, jobset, found, held, stored, passes, loads⟩
    rw [registered] at stored
    cases stored
    obtain ⟨listing, contains, same⟩ := configs.contains_head configFirst
    obtain ⟨passing, present, named⟩ := infos.contains_head infoFirst
    rw [same] at lists
    have own : jobset = passing := by
      rw [named, HookDatabase.getJobsetById_rowid present.1] at found
      exact (Option.some.inj found).symm
    subst own
    exact ⟨⟨sender, loads⟩, ⟨configRow, listing, configFirst, contains, same, lists⟩,
      infoRow, jobset, infoFirst, present, named, passes⟩
  · rintro ⟨⟨sender, loads⟩, ⟨configRow, listing, configFirst, contains, same, lists⟩,
      infoRow, passing, infoFirst, present, named, passes⟩
    refine ⟨sender, ⟨configRow, configFirst, same ▸ lists⟩, infoRow, infoFirst, passing, ?_, cache, registered, passes, loads⟩
    rw [named, HookDatabase.getJobsetById_rowid present.1]

theorem PushesPermitted.agree (exact : settings.PushesPermitted db drvId) {cacheId : String} {cache : CacheConfig Source}
    (registered : settings.cacheConfigs cacheId = some cache) (can : settings.CanPush cache) :
    settings.Agree db drvId cacheId cache := by
  -- A cache that one jobset lists and another may use is pushed in some order.
  have crossed : ∀ listing passing, db.Contains drvId listing → db.Contains drvId passing →
      settings.Lists db listing cacheId → Passes cache passing →
      ∃ jobset, db.Contains drvId jobset ∧ settings.Lists db jobset cacheId ∧ Passes cache jobset := by
    intro listing passing listed passed lists passes
    obtain ⟨listingRow, listingMember, listingSame⟩ := listed.2
    obtain ⟨passingRow, passingMember, passingSame⟩ := passed.2
    obtain ⟨configRest, configs⟩ := HookDatabase.answers_cons listingMember
    obtain ⟨infoRest, infos⟩ := HookDatabase.answers_cons passingMember
    have pushed := (mem_pushedCaches_of_answers configs infos registered).mpr
      ⟨can, ⟨listingRow, listing, rfl, listed, listingSame, lists⟩, passingRow, passing, rfl, passed, passingSame, passes⟩
    obtain ⟨stored, found, jobset, both⟩ := (exact _ _ configs infos cacheId).mp pushed
    rw [registered] at found
    cases found
    exact ⟨jobset, both⟩
  by_cases someLists : ∃ jobset, db.Contains drvId jobset ∧ settings.Lists db jobset cacheId
  · by_cases somePasses : ∃ jobset, db.Contains drvId jobset ∧ Passes cache jobset
    · obtain ⟨listing, listed, lists⟩ := someLists
      obtain ⟨passing, passed, passes⟩ := somePasses
      obtain ⟨both, present, bothLists, bothPasses⟩ := crossed listing passing listed passed lists passes
      left
      intro jobset contains
      obtain ⟨row, member, same⟩ := contains.2
      obtain ⟨rest, answers⟩ := HookDatabase.answers_cons member
      have pushed := (exact _ _ answers answers cacheId).mpr ⟨cache, registered, both, present, bothLists, bothPasses⟩
      obtain ⟨-, ⟨configRow, listing, configFirst, listed, listingSame, lists⟩, infoRow, passing, infoFirst, passed,
        passingSame, passes⟩ := (mem_pushedCaches_of_answers answers answers registered).mp pushed
      cases configFirst
      cases infoFirst
      have listingOwn : listing = jobset :=
        List.inj_on_of_nodup_map db.rowids listed.1 contains.1 (listingSame.symm.trans same)
      have passingOwn : passing = jobset :=
        List.inj_on_of_nodup_map db.rowids passed.1 contains.1 (passingSame.symm.trans same)
      exact ⟨listingOwn ▸ lists, passingOwn ▸ passes⟩
    · exact .inr (.inr fun jobset contains passes => somePasses ⟨jobset, contains, passes⟩)
  · exact .inr (.inl fun jobset contains lists => someLists ⟨jobset, contains, lists⟩)

/-- The hooks push exactly where they may if, and only if, the jobsets that share the
drv agree about every cache that can be pushed to. -/
theorem pushesPermitted_iff (settings : HookSettings Source) (db : HookDatabase DrvId) (drvId : DrvId) :
    settings.PushesPermitted db drvId ↔
      ∀ cacheId cache, settings.cacheConfigs cacheId = some cache →
        (settings.CanPush cache → settings.Agree db drvId cacheId cache) ∧
        (¬ settings.CanPush cache → ∀ jobset, db.Contains drvId jobset →
          ¬ (settings.Lists db jobset cacheId ∧ Passes cache jobset)) := by
  constructor
  · intro exact cacheId cache registered
    refine ⟨exact.agree registered, ?_⟩
    intro cannot jobset contains both
    have pushed := (exact _ _ (.refl _) (.refl _) cacheId).mpr ⟨cache, registered, jobset, contains, both⟩
    exact cannot ((mem_pushedCaches_of_answers (.refl _) (.refl _) registered).mp pushed).1
  · intro agree configRows infoRows configs infos cacheId
    constructor
    · intro pushed
      obtain ⟨-, -, -, -, -, -, cache, registered, -⟩ := mem_pushedCaches.mp pushed
      obtain ⟨can, ⟨-, listing, -, listed, -, lists⟩, -, passing, -, passed, -, passes⟩ :=
        (mem_pushedCaches_of_answers configs infos registered).mp pushed
      refine ⟨cache, registered, listing, listed, lists, ?_⟩
      rcases (agree cacheId cache registered).1 can with all | unlisted | refused
      · exact (all listing listed).2
      · exact absurd lists (unlisted listing listed)
      · exact absurd passes (refused passing passed)
    · rintro ⟨cache, registered, jobset, contains, lists, passes⟩
      by_cases can : settings.CanPush cache
      · rcases (agree cacheId cache registered).1 can with all | unlisted | refused
        · obtain ⟨configRow, configFirst⟩ := configs.head contains
          obtain ⟨infoRow, infoFirst⟩ := infos.head contains
          obtain ⟨listing, listed, listingSame⟩ := configs.contains_head configFirst
          obtain ⟨passing, passed, passingSame⟩ := infos.contains_head infoFirst
          exact (mem_pushedCaches_of_answers configs infos registered).mpr
            ⟨can, ⟨configRow, listing, configFirst, listed, listingSame, (all listing listed).1⟩,
              infoRow, passing, infoFirst, passed, passingSame, (all passing passed).2⟩
        · exact absurd lists (unlisted jobset contains)
        · exact absurd passes (refused jobset contains)
      · exact absurd ⟨lists, passes⟩ ((agree cacheId cache registered).2 can jobset contains)

/-- One cache, for one repository. -/
def oneCache : HookSettings Unit where
  hookSender := true
  cacheConfigs cacheId :=
    if cacheId = "prod" then
      some ⟨"prod", .nixCopy, "s3://prod", (), { allowAll := false, allowedRepos := ["acme/tools"] }⟩
    else none
  load _ := some []
  parse configJson := if configJson = "caches: prod" then some ⟨["prod"]⟩ else some ⟨[]⟩

/-- A fork without caches was recorded first and shares the drv. -/
def forkFirst : HookDatabase Nat where
  jobsets := [⟨1, "f0", "pkgs", "visitor", "tools"⟩, ⟨2, "a0", "pkgs", "acme", "tools"⟩]
  jobs := [⟨1, 0, "hello", .new⟩, ⟨2, 0, "hello", .new⟩]
  buildState _ := .queued
  configJson rowid := if rowid = 2 then some "caches: prod" else some "no caches"
  rowids := by decide
  linked := by decide

theorem not_pushesPermitted_forkFirst : ¬ oneCache.PushesPermitted forkFirst 0 := by
  intro exact
  have pushed := (exact _ _ (.refl _) (.refl _) "prod").mpr
    ⟨⟨"prod", .nixCopy, "s3://prod", (), { allowAll := false, allowedRepos := ["acme/tools"] }⟩, rfl,
      ⟨2, "a0", "pkgs", "acme", "tools"⟩, ⟨by decide, ⟨2, 0, "hello", .new⟩, by decide, rfl⟩,
      ⟨"caches: prod", rfl, ⟨["prod"]⟩, rfl, by decide⟩, rfl⟩
  have nothing : oneCache.pushedCaches forkFirst (forkFirst.jobsOfDrv 0) (forkFirst.jobsOfDrv 0) = [] := by decide
  rw [nothing] at pushed
  cases pushed

end HookSettings

end EkaCI
