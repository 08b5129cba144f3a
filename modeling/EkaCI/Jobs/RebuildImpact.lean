import EkaCI.Graph.Reachability
import EkaCI.Jobs.Database
import EkaCI.Nix.DrvIdentifier
import Mathlib.Data.String.Basic

/-! How much a commit makes rebuild: for each system the number of the jobs that are new or
changed, and those of them that the most derivations depend on. -/

namespace EkaCI

/-- The columns of `Drv` that are read here. -/
structure ImpactDrvRow where
  drvPath : String
  pname : Option String
  system : String

/-- A job refers to the row of its derivation by its number. -/
structure ImpactDatabase where
  jobsets : List JobSet
  jobs : List (Job Nat)
  drvs : Nat → Option ImpactDrvRow

structure ImpactRow where
  drvPath : DrvIdentifier
  pname : Option String
  system : String

structure TopBlastRadiusEntry where
  pname : Option String
  drvPath : DrvIdentifier
  blastRadius : UInt64

structure PerSystemImpact where
  system : String
  rebuildCount : UInt64
  topBlastRadius : List TopBlastRadiusEntry

structure RebuildImpactResponse where
  headSha : String
  baseSha : String
  job : String
  computedAt : String
  perSystem : List PerSystemImpact
  totalUniqueDrvs : UInt64

inductive ImpactError where
  | invalidDrvPath (drvPath : String)

/-- What a caller asks for. -/
structure ImpactArgs where
  headSha : String
  baseSha : String
  job : String
  maxTopBlastRadius : Nat
  fullBlastRadius : Bool

abbrev ImpactAnswer := Except ImpactError (Option RebuildImpactResponse)

def defaultMaxBfsSeeds : Nat := 50

def ImpactRow.ofDrv (row : ImpactDrvRow) : Except ImpactError ImpactRow :=
  match DrvIdentifier.tryFrom row.drvPath with
  | some drvPath => .ok ⟨drvPath, row.pname, row.system⟩
  | none => .error (.invalidDrvPath row.drvPath)

namespace ImpactDatabase

def headJobset (db : ImpactDatabase) (headSha job : String) : Option Nat :=
  (db.jobsets.find? fun jobset => jobset.sha = headSha ∧ jobset.job = job).map JobSet.rowid

/-- The jobs of a jobset that are new or changed, joined with their derivations. -/
def loadChangedImpactRows (db : ImpactDatabase) (jobset : Nat) : Except ImpactError (List ImpactRow) :=
  ((db.jobs.filter fun job => job.jobset = jobset ∧ job.difference ≠ .removed).filterMap fun job =>
    db.drvs job.drvId).mapM ImpactRow.ofDrv

end ImpactDatabase

section Build

variable (graph : BuildGraph DrvIdentifier)

/-- The seeds that are traversed: all of them, or the first ones in the order of their paths. -/
def eligibleSeeds (fullBlastRadius : Bool) (rows : List ImpactRow) : List ImpactRow :=
  if !fullBlastRadius ∧ defaultMaxBfsSeeds < rows.length then
    (rows.mergeSort fun first second => first.drvPath.text ≤ second.drvPath.text).take defaultMaxBfsSeeds
  else rows

/-- The larger radius first, and of equal ones the smaller path. -/
def TopBlastRadiusEntry.before (first second : TopBlastRadiusEntry) : Bool :=
  second.blastRadius < first.blastRadius ∨
    second.blastRadius = first.blastRadius ∧ first.drvPath.text ≤ second.drvPath.text

def rankedEntries (rows : List ImpactRow) : List TopBlastRadiusEntry :=
  let radii := graph.blastRadiusPerSeed (rows.map ImpactRow.drvPath)
  (rows.map fun row => ⟨row.pname, row.drvPath, UInt64.ofNat ((radii.get row.drvPath).getD 0)⟩).mergeSort
    TopBlastRadiusEntry.before

def systemImpact (args : ImpactArgs) (rows : List ImpactRow) (system : String) : PerSystemImpact :=
  let rowsForSystem := rows.filter (·.system = system)
  { system
    rebuildCount := UInt64.ofNat rowsForSystem.length
    topBlastRadius := (rankedEntries graph (eligibleSeeds args.fullBlastRadius rowsForSystem)).take
      (max args.maxTopBlastRadius 1) }

/-- The systems of the rows, each once and in order. -/
def systemKeys (rows : List ImpactRow) : List String := (rows.map ImpactRow.system).dedup.mergeSort (· ≤ ·)

/-- The time is the one of the clock at the end. -/
def buildRebuildImpactResponse (db : ImpactDatabase) (args : ImpactArgs) (now : String) : ImpactAnswer :=
  match db.headJobset args.headSha args.job with
  | none => .ok none
  | some jobset => do
    let rows ← db.loadChangedImpactRows jobset
    return some
      { headSha := args.headSha
        baseSha := args.baseSha
        job := args.job
        computedAt := now
        perSystem := (systemKeys rows).map (systemImpact graph args rows)
        totalUniqueDrvs := UInt64.ofNat (graph.reverseReachableFromSet (rows.map ImpactRow.drvPath)).length }

end Build

def RebuildImpactResponse.untimed (response : RebuildImpactResponse) : RebuildImpactResponse :=
  { response with computedAt := "" }

/-- An answer without its time. -/
def untimed (answer : ImpactAnswer) : ImpactAnswer := answer.map (Option.map RebuildImpactResponse.untimed)

/-- The arguments that answers are kept by. -/
def ImpactArgs.SameKey (first second : ImpactArgs) : Prop :=
  first.headSha = second.headSha ∧ first.baseSha = second.baseSha ∧ first.job = second.job ∧
    first.fullBlastRadius = second.fullBlastRadius

instance (first second : ImpactArgs) : Decidable (first.SameKey second) := inferInstanceAs (Decidable (_ ∧ _))

/-- The number of entries that the list of a system is cut from. -/
def rankedCount (full : Bool) (rows : List ImpactRow) (system : String) : Nat :=
  (eligibleSeeds full (rows.filter (·.system = system))).length

theorem rankedCount_le (full : Bool) (rows : List ImpactRow) (system : String) :
    rankedCount full rows system ≤ rows.length := by
  have filtered := List.length_filter_le (·.system = system) rows
  rw [rankedCount, eligibleSeeds]
  split
  · rw [List.length_take, List.length_mergeSort]
    omega
  · exact filtered

/-- The limits of two calls for the same commit leave as many entries of each system. -/
def CutAlike (db : ImpactDatabase) (first second : ImpactArgs) : Prop :=
  ∀ jobset rows, db.headJobset first.headSha first.job = some jobset → db.loadChangedImpactRows jobset = .ok rows →
    ∀ system ∈ systemKeys rows,
      min (max first.maxTopBlastRadius 1) (rankedCount first.fullBlastRadius rows system) =
        min (max second.maxTopBlastRadius 1) (rankedCount first.fullBlastRadius rows system)

variable {graph : BuildGraph DrvIdentifier} {db : ImpactDatabase}

theorem ImpactRow.ofDrv_text (drv : DrvIdentifier) (pname : Option String) (system : String) :
    ImpactRow.ofDrv ⟨drv.text, pname, system⟩ = .ok ⟨drv, pname, system⟩ := by
  simp only [ImpactRow.ofDrv, DrvIdentifier.tryFrom_text]

theorem length_rankedEntries (rows : List ImpactRow) : (rankedEntries graph rows).length = rows.length := by
  rw [rankedEntries, List.length_mergeSort, List.length_map]

theorem build_of_rows {args : ImpactArgs} {jobset : Nat} {rows : List ImpactRow}
    (head : db.headJobset args.headSha args.job = some jobset) (loaded : db.loadChangedImpactRows jobset = .ok rows)
    (now : String) :
    buildRebuildImpactResponse graph db args now = .ok (some
      { headSha := args.headSha
        baseSha := args.baseSha
        job := args.job
        computedAt := now
        perSystem := (systemKeys rows).map (systemImpact graph args rows)
        totalUniqueDrvs := UInt64.ofNat (graph.reverseReachableFromSet (rows.map ImpactRow.drvPath)).length }) := by
  rw [buildRebuildImpactResponse, head]
  dsimp only
  rw [loaded]
  rfl

theorem systemImpact_eq_iff {first second : ImpactArgs} (same : first.fullBlastRadius = second.fullBlastRadius)
    (rows : List ImpactRow) (system : String) :
    systemImpact graph first rows system = systemImpact graph second rows system ↔
      min (max first.maxTopBlastRadius 1) (rankedCount first.fullBlastRadius rows system) =
        min (max second.maxTopBlastRadius 1) (rankedCount first.fullBlastRadius rows system) := by
  rw [rankedCount, ← @length_rankedEntries graph, ← List.take_eq_take_iff, systemImpact, systemImpact, ← same]
  simp

/-- Calls that differ in nothing but their limits are answered alike exactly if the limits
make no difference. -/
theorem untimed_eq_iff {first second : ImpactArgs} (same : first.SameKey second) (now later : String) :
    untimed (buildRebuildImpactResponse graph db first now) = untimed (buildRebuildImpactResponse graph db second later) ↔
      CutAlike db first second := by
  obtain ⟨head, base, job, full⟩ := same
  cases found : db.headJobset first.headSha first.job with
  | none =>
    have other : db.headJobset second.headSha second.job = none := by rw [← head, ← job, found]
    refine iff_of_true ?_ fun jobset _ here => ?_
    · rw [buildRebuildImpactResponse, buildRebuildImpactResponse, found, other]
    · rw [found] at here
      cases here
  | some jobset =>
    have other : db.headJobset second.headSha second.job = some jobset := by rw [← head, ← job, found]
    cases loaded : db.loadChangedImpactRows jobset with
    | error failure =>
      refine iff_of_true ?_ fun jobset' rows here read => ?_
      · rw [buildRebuildImpactResponse, buildRebuildImpactResponse, found, other]
        dsimp only
        rw [loaded]
        rfl
      · rw [found] at here
        cases here
        rw [loaded] at read
        cases read
    | ok rows =>
      rw [build_of_rows found loaded, build_of_rows other loaded]
      constructor
      · intro alike jobset' rows' here read system listed
        rw [found] at here
        cases here
        rw [loaded] at read
        cases read
        have lists := congrArg RebuildImpactResponse.perSystem (Option.some.inj (Except.ok.inj alike))
        exact (systemImpact_eq_iff full rows system).mp (List.map_inj_left.mp lists system listed)
      · intro alike
        have lists : (systemKeys rows).map (systemImpact graph first rows) =
            (systemKeys rows).map (systemImpact graph second rows) :=
          List.map_inj_left.mpr fun system listed =>
            (systemImpact_eq_iff full rows system).mpr (alike jobset rows found loaded system listed)
        rw [lists, head, base, job]
        rfl

end EkaCI
