import EkaCI.Jobs.Database
import EkaCI.Jobs.PackageNames
import EkaCI.Lib.Collect
import EkaCI.Lib.Run
import EkaCI.Lib.Table

/-! The store paths that the outputs of a build refer to, and how those of a base and a
head jobset differ. They are read from nix once a drv is built, stored under the rowid of
the drv, and compared when a change is summarised. -/

namespace EkaCI

open Lib

section Unmatched

variable {P N : Type*}

/-- What only `second` has, less what shares its label with something that only `first` has. -/
def unmatched (label : P → N) (first second : Set P) : Set P :=
  {item | item ∈ second \ first ∧ ∀ other ∈ first \ second, label other ≠ label item}

theorem unmatched_eq_empty_of_subset {label : P → N} {first second : Set P} (kept : second ⊆ first) :
    unmatched label first second = ∅ :=
  Set.eq_empty_of_forall_notMem fun _ member => member.1.2 (kept member.1.1)

end Unmatched

/-- What `extract_pname` returns of a store path. -/
def pnameOfPath (storePath : String) : String := (NameParts.extractPname storePath.toList).getD storePath

theorem extractPname_eq_pnameOfPath {storePath : String} (ascii : ∀ c ∈ storePath.toList, c.utf8Size < 2) :
    NameParts.extractPname storePath.toList = some (pnameOfPath storePath) := by
  obtain ⟨pname, found⟩ := Option.isSome_iff_exists.mp (NameParts.extractPname_isSome ascii)
  rw [pnameOfPath, found, Option.getD_some]

/-- `(truly_added, truly_removed)`. -/
def filterVersionChanges (added removed : List String) : List String × List String :=
  let addedByPname := collect (added.map fun path => (pnameOfPath path, path))
  let removedByPname := collect (removed.map fun path => (pnameOfPath path, path))
  let versionChanged pname := (addedByPname pname).isSome && (removedByPname pname).isSome
  (added.filter fun path => !versionChanged (pnameOfPath path),
    removed.filter fun path => !versionChanged (pnameOfPath path))

/-- A row of `Drv`. -/
structure DrvRow where
  rowid : Nat
  drvPath : DrvIdentifier

/-- A row of `DrvRuntimeRefs`. -/
structure RuntimeRef where
  drvId : Nat
  outputName : String
  outputPath : String
  runtimeReference : String

structure DependencyComparison where
  attrPath : String
  outputName : String
  baseDepCount : Nat
  headDepCount : Nat
  addedDeps : List String
  removedDeps : List String

/-- What nix answers about the outputs of a drv path and about the references of an
output path; `none` is a failed query. -/
structure NixReports where
  getDrvOutputs : String → Option (Table String String)
  outputReferences : String → Option (List String)

/-- The jobs refer to their drv by its rowid. -/
structure RuntimeRefDatabase where
  drvs : List DrvRow
  jobs : List (Job Nat)
  runtimeRefs : List RuntimeRef

namespace RuntimeRefDatabase

def empty : RuntimeRefDatabase := ⟨[], [], []⟩

/-- `SELECT ROWID FROM Drv WHERE drv_path = ?`. -/
def drvRowid (db : RuntimeRefDatabase) (drvPath : String) : Option Nat :=
  (db.drvs.find? (·.drvPath.text = drvPath)).map (·.rowid)

def insertDrv (db : RuntimeRefDatabase) (drv : DrvIdentifier) : RuntimeRefDatabase :=
  { db with drvs := insertIgnore (·.drvPath) db.drvs ⟨db.drvs.length, drv⟩ }

/-- The statement fails when the drv has no row. -/
def insertJob (db : RuntimeRefDatabase) (jobset : Nat) (drv : DrvIdentifier) (name : String)
    (difference : JobDifference) : RuntimeRefDatabase :=
  match db.drvRowid drv.text with
  | none => db
  | some rowid =>
    let row : Job Nat := ⟨jobset, rowid, name, difference⟩
    { db with jobs := insertIgnore (fun row => (row.jobset, row.name, row.drvId)) db.jobs row }

def storeRuntimeReferences (db : RuntimeRefDatabase) (drvId : Nat) (outputName outputPath : String)
    (runtimeRefs : List String) : RuntimeRefDatabase :=
  let rows := runtimeRefs.map fun reference => RuntimeRef.mk drvId outputName outputPath reference
  { db with
    runtimeRefs := rows.foldl (insertIgnore fun row => (row.drvId, row.outputName, row.runtimeReference)) db.runtimeRefs }

/-- In table order; they are only counted and put into sets. -/
def getRuntimeReferences (db : RuntimeRefDatabase) (drvId : Nat) (outputName : String) : List String :=
  (db.runtimeRefs.filter fun row => row.drvId = drvId ∧ row.outputName = outputName).map (·.runtimeReference)

def getOutputPaths (db : RuntimeRefDatabase) (drvId : Nat) : Table String String :=
  (db.runtimeRefs.filter (·.drvId = drvId)).foldl (fun paths row => paths.push row.outputName row.outputPath) .empty

def captureRuntimeReferences (nix : NixReports) (db : RuntimeRefDatabase) (drv : DrvIdentifier) : RuntimeRefDatabase :=
  match nix.getDrvOutputs drv.storePath with
  | none => db
  | some outputs =>
    let refsByOutput := outputs.keys.filterMap fun name =>
      (outputs.get name).bind fun path => (nix.outputReferences path).map fun refs => (name, path, refs)
    if refsByOutput = [] then db
    else
      match db.drvRowid drv.storePath with
      | none => db
      | some rowid =>
        refsByOutput.foldl (fun db (name, path, refs) => db.storeRuntimeReferences rowid name path refs) db

/-- The attributes of a jobset with the drv rows that they build. -/
def jobsJoined (db : RuntimeRefDatabase) (jobset : Nat) : List (String × DrvRow) :=
  (db.jobs.filter (·.jobset = jobset)).flatMap fun job =>
    (db.drvs.filter (·.rowid = job.drvId)).map fun row => (job.name, row)

/-- One output that both drvs have. -/
def compareOutput (db : RuntimeRefDatabase) (attrPath : String) (baseDrv headDrv : Nat) (outputName : String) :
    Option DependencyComparison :=
  let baseRefs := db.getRuntimeReferences baseDrv outputName
  let headRefs := db.getRuntimeReferences headDrv outputName
  if baseRefs = [] ∨ headRefs = [] then none
  else if baseRefs.length = headRefs.length then none
  else
    let baseSet := baseRefs.dedup
    let headSet := headRefs.dedup
    let addedRaw := headSet.filter (· ∉ baseSet)
    let removedRaw := baseSet.filter (· ∉ headSet)
    let filtered := filterVersionChanges addedRaw removedRaw
    if filtered.1 ≠ [] ∨ filtered.2 ≠ [] then
      some ⟨attrPath, outputName, baseSet.length, headSet.length, filtered.1, filtered.2⟩
    else none

def compareRuntimeReferencesForJobset (db : RuntimeRefDatabase) (baseJobset headJobset : Nat) :
    List DependencyComparison :=
  (db.jobsJoined headJobset).flatMap fun (attrPath, headRow) =>
    match (db.jobsJoined baseJobset).find? (·.1 = attrPath), db.drvRowid headRow.drvPath.text with
    | some (_, baseRow), some headDrv =>
      let baseOutputs := db.getOutputPaths baseRow.rowid
      let headOutputs := db.getOutputPaths headDrv
      if baseOutputs.keys = [] ∨ headOutputs.keys = [] then []
      else
        headOutputs.keys.filterMap fun outputName =>
          if baseOutputs.contains outputName then db.compareOutput attrPath baseRow.rowid headDrv outputName else none
    | _, _ => []

end RuntimeRefDatabase

theorem isSome_collect_pname {paths : List String} {pname : String} :
    (collect (paths.map fun path => (pnameOfPath path, path)) pname).isSome = true ↔
      ∃ path ∈ paths, pnameOfPath path = pname := by
  rw [Option.isSome_iff_exists]
  constructor
  · rintro ⟨path, found⟩
    obtain ⟨other, listed, same⟩ := List.mem_map.mp (mem_of_collect found)
    exact ⟨other, listed, congrArg Prod.fst same⟩
  · rintro ⟨path, listed, rfl⟩
    exact collect_of_mem (List.mem_map_of_mem listed)

theorem mem_filterVersionChanges {added removed : List String} {path : String} :
    (path ∈ (filterVersionChanges added removed).1 ↔
        path ∈ added ∧ ∀ other ∈ removed, pnameOfPath other ≠ pnameOfPath path) ∧
      (path ∈ (filterVersionChanges added removed).2 ↔
        path ∈ removed ∧ ∀ other ∈ added, pnameOfPath other ≠ pnameOfPath path) := by
  simp only [filterVersionChanges, List.mem_filter, Bool.not_eq_true', Bool.eq_false_iff, ne_eq, Bool.and_eq_true,
    isSome_collect_pname, not_and, not_exists]
  constructor
  · refine and_congr_right fun listed => ⟨fun apart => apart ⟨path, listed, rfl⟩, fun apart _ => apart⟩
  · refine and_congr_right fun listed => ⟨fun apart other member same => ?_, fun apart ⟨other, member, same⟩ => ?_⟩
    · exact apart ⟨other, member, same⟩ path listed rfl
    · exact absurd same (apart other member)

/-- The members of a list as a set. -/
def pathSet (paths : List String) : Set String := {path | path ∈ paths}

theorem mem_pathSet {paths : List String} {path : String} : path ∈ pathSet paths ↔ path ∈ paths := Iff.rfl

theorem mem_filterVersionChanges_unmatched {baseRefs headRefs : List String} :
    let filtered := filterVersionChanges (headRefs.dedup.filter (· ∉ baseRefs.dedup))
      (baseRefs.dedup.filter (· ∉ headRefs.dedup))
    pathSet filtered.1 = unmatched pnameOfPath (pathSet baseRefs) (pathSet headRefs) ∧
      pathSet filtered.2 = unmatched pnameOfPath (pathSet headRefs) (pathSet baseRefs) := by
  constructor
  · ext path
    rw [mem_pathSet, mem_filterVersionChanges.1]
    simp [unmatched, mem_pathSet]
  · ext path
    rw [mem_pathSet, mem_filterVersionChanges.2]
    simp [unmatched, mem_pathSet]

namespace RuntimeRefDatabase

/-- What an entry says about the stored references of the two drvs. Outputs with as many
references before as after have none. -/
structure Reports (db : RuntimeRefDatabase) (entry : DependencyComparison) (baseDrv headDrv : Nat) : Prop where
  lengths : (db.getRuntimeReferences baseDrv entry.outputName).length ≠
    (db.getRuntimeReferences headDrv entry.outputName).length
  added : pathSet entry.addedDeps = unmatched pnameOfPath
    (pathSet (db.getRuntimeReferences baseDrv entry.outputName)) (pathSet (db.getRuntimeReferences headDrv entry.outputName))
  removed : pathSet entry.removedDeps = unmatched pnameOfPath
    (pathSet (db.getRuntimeReferences headDrv entry.outputName)) (pathSet (db.getRuntimeReferences baseDrv entry.outputName))

theorem compareOutput_eq_some {db : RuntimeRefDatabase} {attrPath outputName : String} {baseDrv headDrv : Nat}
    {entry : DependencyComparison} (found : db.compareOutput attrPath baseDrv headDrv outputName = some entry) :
    entry.attrPath = attrPath ∧ db.Reports entry baseDrv headDrv := by
  simp only [compareOutput] at found
  split at found
  next => cases found
  next =>
    split at found
    next => cases found
    next lengths =>
      split at found
      next =>
        cases found
        exact ⟨rfl, lengths, mem_filterVersionChanges_unmatched.1, mem_filterVersionChanges_unmatched.2⟩
      next => cases found

/-- Whatever the tables hold, an entry is about one attribute of both jobsets and tells the
stored references of its drvs apart. -/
theorem mem_compareRuntimeReferencesForJobset {db : RuntimeRefDatabase} {baseJobset headJobset : Nat}
    {entry : DependencyComparison} (listed : entry ∈ db.compareRuntimeReferencesForJobset baseJobset headJobset) :
    ∃ baseRow headRow headDrv, (entry.attrPath, baseRow) ∈ db.jobsJoined baseJobset ∧
      (entry.attrPath, headRow) ∈ db.jobsJoined headJobset ∧ db.drvRowid headRow.drvPath.text = some headDrv ∧
        db.Reports entry baseRow.rowid headDrv := by
  obtain ⟨⟨attrPath, headRow⟩, inHead, found⟩ := List.mem_flatMap.mp listed
  dsimp only at found
  split at found
  next named baseRow headDrv first known =>
    split at found
    next => cases found
    next =>
      obtain ⟨outputName, -, compared⟩ := List.mem_filterMap.mp found
      split at compared
      next =>
        obtain ⟨rfl, reports⟩ := compareOutput_eq_some compared
        obtain rfl : named = entry.attrPath := by simpa using List.find?_some first
        exact ⟨baseRow, headRow, headDrv, List.mem_of_find?_eq_some first, inHead, known, reports⟩
      next => cases compared
  next => cases found

end RuntimeRefDatabase

inductive RefAction where
  | insertDrv (drv : DrvIdentifier)
  | insertJob (jobset : Nat) (drv : DrvIdentifier) (name : String) (difference : JobDifference)
  | captureRuntimeReferences (drv : DrvIdentifier)

namespace NixReports

def Answers (nix : NixReports) (drv : DrvIdentifier) : Prop :=
  ∃ outputs, nix.getDrvOutputs drv.storePath = some outputs ∧
    ∀ name path, outputs.get name = some path → (nix.outputReferences path).isSome = true

/-- The references that nix reports for an output of a drv. -/
def reported (nix : NixReports) (drv : DrvIdentifier) (outputName : String) : Option (List String) :=
  (nix.getDrvOutputs drv.storePath).bind fun outputs => (outputs.get outputName).bind nix.outputReferences

end NixReports

namespace RuntimeRefDatabase

def step (nix : NixReports) (db : RuntimeRefDatabase) : RefAction → Option RuntimeRefDatabase
  | .insertDrv drv => some (db.insertDrv drv)
  | .insertJob jobset drv name difference => some (db.insertJob jobset drv name difference)
  | .captureRuntimeReferences drv => some (captureRuntimeReferences nix db drv)

/-- The drv is one of the attribute in the jobset. -/
def Builds (db : RuntimeRefDatabase) (jobset : Nat) (attrPath : String) (drv : DrvIdentifier) : Prop :=
  ∃ row, (attrPath, row) ∈ db.jobsJoined jobset ∧ row.drvPath = drv

/-- The references of every drv of the attribute in the jobset were captured, and nix answered. -/
def Captured (nix : NixReports) (actions : List RefAction) (db : RuntimeRefDatabase) (jobset : Nat)
    (attrPath : String) : Prop :=
  ∀ drv, db.Builds jobset attrPath drv → .captureRuntimeReferences drv ∈ actions ∧ nix.Answers drv

/-- The output belongs to the attribute in both jobsets, with these references. -/
def ReportedFor (nix : NixReports) (db : RuntimeRefDatabase) (baseJobset headJobset : Nat) (attrPath outputName : String)
    (baseRefs headRefs : List String) : Prop :=
  ∃ baseDrv headDrv, db.Builds baseJobset attrPath baseDrv ∧ db.Builds headJobset attrPath headDrv ∧
    nix.reported baseDrv outputName = some baseRefs ∧ nix.reported headDrv outputName = some headRefs

end RuntimeRefDatabase

/-- Something is left of the differences when the bumped versions are taken out. -/
def ReallyDiffer (baseRefs headRefs : List String) : Prop :=
  (unmatched pnameOfPath (pathSet baseRefs) (pathSet headRefs)).Nonempty ∨
    (unmatched pnameOfPath (pathSet headRefs) (pathSet baseRefs)).Nonempty

namespace RuntimeRefDatabase

/-- The comparison reports the attributes whose references were captured as they are. -/
def ComparesTruly (nix : NixReports) (actions : List RefAction) (db : RuntimeRefDatabase) (baseJobset headJobset : Nat) :
    Prop :=
  ∀ attrPath, db.Captured nix actions baseJobset attrPath → db.Captured nix actions headJobset attrPath →
    ∀ outputName,
      ((∃ entry ∈ db.compareRuntimeReferencesForJobset baseJobset headJobset,
          entry.attrPath = attrPath ∧ entry.outputName = outputName) ↔
        ∃ baseRefs headRefs, db.ReportedFor nix baseJobset headJobset attrPath outputName baseRefs headRefs ∧
          ReallyDiffer baseRefs headRefs) ∧
      ∀ entry ∈ db.compareRuntimeReferencesForJobset baseJobset headJobset,
        entry.attrPath = attrPath → entry.outputName = outputName →
          ∃ baseRefs headRefs, db.ReportedFor nix baseJobset headJobset attrPath outputName baseRefs headRefs ∧
            pathSet entry.addedDeps = unmatched pnameOfPath (pathSet baseRefs) (pathSet headRefs) ∧
            pathSet entry.removedDeps = unmatched pnameOfPath (pathSet headRefs) (pathSet baseRefs)

/-- No output that was captured on both sides has references that really differ. -/
def Unchanged (nix : NixReports) (actions : List RefAction) (db : RuntimeRefDatabase) (baseJobset headJobset : Nat) : Prop :=
  ∀ attrPath, db.Captured nix actions baseJobset attrPath → db.Captured nix actions headJobset attrPath →
    ∀ outputName baseRefs headRefs, db.ReportedFor nix baseJobset headJobset attrPath outputName baseRefs headRefs →
      ¬ ReallyDiffer baseRefs headRefs

theorem drvRowid_storePath (db : RuntimeRefDatabase) (drv : DrvIdentifier) : db.drvRowid drv.storePath = none := by
  rw [drvRowid, Option.map_eq_none_iff, List.find?_eq_none]
  intro row _ same
  exact drv.storePath_ne row.drvPath (of_decide_eq_true same)

theorem captureRuntimeReferences_eq (nix : NixReports) (db : RuntimeRefDatabase) (drv : DrvIdentifier) :
    captureRuntimeReferences nix db drv = db := by
  simp only [captureRuntimeReferences, drvRowid_storePath]
  split
  next => rfl
  next => exact ite_self db

variable {db : RuntimeRefDatabase} {nix : NixReports} {actions : List RefAction}

theorem runtimeRefs_step {next : RuntimeRefDatabase} {action : RefAction} (taken : db.step nix action = some next) :
    next.runtimeRefs = db.runtimeRefs := by
  cases action with
  | insertDrv drv => cases taken; rfl
  | insertJob jobset drv name difference =>
    cases taken
    rw [insertJob]
    split
    next => rfl
    next => rfl
  | captureRuntimeReferences drv =>
    cases taken
    rw [captureRuntimeReferences_eq]

theorem run_runtimeRefs (run : AnyRun (step nix) empty actions db) : db.runtimeRefs = [] := by
  apply run.invariant (p := fun db => db.runtimeRefs = []) rfl
  intro before action next none _ taken
  rw [runtimeRefs_step taken, none]

theorem compareRuntimeReferencesForJobset_eq_nil (none : db.runtimeRefs = []) (baseJobset headJobset : Nat) :
    db.compareRuntimeReferencesForJobset baseJobset headJobset = [] := by
  have noPaths : ∀ drvId, (db.getOutputPaths drvId).keys = [] := by
    intro drvId
    rw [getOutputPaths, none]
    rfl
  refine List.eq_nil_iff_forall_not_mem.mpr fun entry listed => ?_
  obtain ⟨⟨attrPath, headRow⟩, -, found⟩ := List.mem_flatMap.mp listed
  simp only [noPaths, true_or, if_true] at found
  split at found
  next => cases found
  next => cases found

theorem comparesTruly_iff (none : db.runtimeRefs = []) (baseJobset headJobset : Nat) :
    db.ComparesTruly nix actions baseJobset headJobset ↔ db.Unchanged nix actions baseJobset headJobset := by
  simp only [ComparesTruly, compareRuntimeReferencesForJobset_eq_nil none]
  constructor
  · intro truly attrPath base head outputName baseRefs headRefs reported differ
    obtain ⟨entry, listed, -⟩ := (truly attrPath base head outputName).1.mpr ⟨baseRefs, headRefs, reported, differ⟩
    cases listed
  · intro unchanged attrPath base head outputName
    refine ⟨⟨?_, ?_⟩, List.forall_mem_nil _⟩
    · rintro ⟨entry, listed, -⟩
      cases listed
    · rintro ⟨baseRefs, headRefs, reported, differ⟩
      exact absurd differ (unchanged attrPath base head outputName baseRefs headRefs reported)

/-- After every history the comparison tells the truth exactly when there is nothing to
tell. -/
theorem run_comparesTruly {nix : NixReports} {actions : List RefAction} {db : RuntimeRefDatabase}
    (run : AnyRun (step nix) empty actions db) (baseJobset headJobset : Nat) :
    db.ComparesTruly nix actions baseJobset headJobset ↔ db.Unchanged nix actions baseJobset headJobset :=
  comparesTruly_iff (run_runtimeRefs run) baseJobset headJobset

end RuntimeRefDatabase

theorem not_reallyDiffer_self (refs : List String) : ¬ ReallyDiffer refs refs := by
  have none : unmatched pnameOfPath (pathSet refs) (pathSet refs) = ∅ :=
    unmatched_eq_empty_of_subset (Set.Subset.refl (pathSet refs))
  rintro (added | removed)
  · exact Set.nonempty_iff_ne_empty.mp added none
  · exact Set.nonempty_iff_ne_empty.mp removed none

/-! Two commits of one package, of which the second also refers to `openssl`. -/

def helloReports : NixReports where
  getDrvOutputs drvPath :=
    if drvPath = "/nix/store/00000000000000000000000000000000-hello-1.drv" then
      some (Table.empty.push "out" "/nix/store/22222222222222222222222222222222-hello-1")
    else some (Table.empty.push "out" "/nix/store/33333333333333333333333333333333-hello-1")
  outputReferences outputPath :=
    if outputPath = "/nix/store/22222222222222222222222222222222-hello-1" then
      some ["/nix/store/44444444444444444444444444444444-glibc-2.38"]
    else
      some ["/nix/store/44444444444444444444444444444444-glibc-2.38",
        "/nix/store/55555555555555555555555555555555-openssl-3.0.1"]

def helloBefore : DrvIdentifier := ⟨"00000000000000000000000000000000-hello-1.drv", by decide⟩

def helloAfter : DrvIdentifier := ⟨"11111111111111111111111111111111-hello-1.drv", by decide⟩

def helloHistory : List RefAction :=
  [.insertDrv helloBefore, .insertDrv helloAfter, .insertJob 1 helloBefore "hello" .new,
    .insertJob 2 helloAfter "hello" .changed, .captureRuntimeReferences helloBefore, .captureRuntimeReferences helloAfter]

def helloDatabase : RuntimeRefDatabase where
  drvs := [⟨0, helloBefore⟩, ⟨1, helloAfter⟩]
  jobs := [⟨1, 0, "hello", .new⟩, ⟨2, 1, "hello", .changed⟩]
  runtimeRefs := []

theorem helloReports_answers (drv : DrvIdentifier) : helloReports.Answers drv := by
  have known : ∀ path, (helloReports.outputReferences path).isSome = true := by
    intro path
    simp only [helloReports]
    split
    next => rfl
    next => rfl
  simp only [NixReports.Answers]
  cases found : helloReports.getDrvOutputs drv.storePath with
  | none =>
    simp only [helloReports] at found
    split at found
    next => cases found
    next => cases found
  | some outputs => exact ⟨outputs, rfl, fun _ path _ => known path⟩

namespace RuntimeRefDatabase

/-- A jobset compared with itself. -/
theorem run_comparesTruly_self : helloDatabase.ComparesTruly helloReports helloHistory 1 1 := by
  apply (run_comparesTruly (run_of_exec rfl) 1 1).mpr
  rintro attrPath - - outputName baseRefs headRefs
    ⟨baseDrv, headDrv, ⟨baseRow, inBase, rfl⟩, ⟨headRow, inHead, rfl⟩, base, head⟩
  obtain ⟨rfl, rfl⟩ := Prod.mk.inj (List.mem_singleton.mp inBase)
  obtain ⟨-, rfl⟩ := Prod.mk.inj (List.mem_singleton.mp inHead)
  cases base.symm.trans head
  exact not_reallyDiffer_self baseRefs

/-- The new reference is missing, although both builds were captured. -/
theorem newReference_not_comparesTruly :
    AnyRun (step helloReports) empty helloHistory helloDatabase ∧
      (∀ jobset, helloDatabase.Captured helloReports helloHistory jobset "hello") ∧
        ¬ helloDatabase.ComparesTruly helloReports helloHistory 1 2 := by
  have captured : ∀ jobset, helloDatabase.Captured helloReports helloHistory jobset "hello" := by
    rintro jobset drv ⟨row, listed, rfl⟩
    refine ⟨?_, helloReports_answers row.drvPath⟩
    obtain ⟨job, -, joined⟩ := List.mem_flatMap.mp listed
    obtain ⟨stored, member, same⟩ := List.mem_map.mp joined
    have either : stored = ⟨0, helloBefore⟩ ∨ stored = ⟨1, helloAfter⟩ := by
      simpa [helloDatabase] using (List.mem_filter.mp member).1
    obtain ⟨-, rfl⟩ := Prod.mk.inj same
    rcases either with rfl | rfl <;> simp [helloHistory]
  refine ⟨run_of_exec rfl, captured, fun truly => ?_⟩
  have unchanged := (comparesTruly_iff rfl 1 2).mp truly
  refine unchanged "hello" (captured 1) (captured 2) "out" _ _
    ⟨helloBefore, helloAfter, ⟨_, List.mem_singleton_self _, rfl⟩, ⟨_, List.mem_singleton_self _, rfl⟩, rfl, rfl⟩
    (Or.inl ?_)
  refine ⟨"/nix/store/55555555555555555555555555555555-openssl-3.0.1", ⟨?_, ?_⟩, ?_⟩
  · simp [mem_pathSet]
  · simp [mem_pathSet]
  · simp +contextual [mem_pathSet]

end RuntimeRefDatabase

end EkaCI
