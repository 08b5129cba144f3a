import EkaCI.Jobs.PackageRows

/-! The package changes between a base and a head: which entries an attribute gets, and that
neither the order of the rows nor, but for its direction, the order of the two matters. -/

namespace EkaCI

open Lib

inductive PackageChange where
  | added (attrPath : String) (pname version : Option String) (drvPath : DrvIdentifier)
  | removed (attrPath : String) (pname version : Option String)
  | versionBump (attrPath pname old new : String) (drvPath : DrvIdentifier)
  | renamed (attrPath pnameOld pnameNew : String) (version : Option String) (drvPath : DrvIdentifier)
  | rebuildOnly (attrPath : String) (pname version : Option String) (drvPath : DrvIdentifier)
  | licenseChange (attrPath pname : String) (old new : List String) (drvPath : DrvIdentifier)
  | maintainerChange (attrPath pname : String) (added removed : List String) (drvPath : DrvIdentifier)
  deriving DecidableEq

def PackageChange.attrPath : PackageChange → String
  | .added attrPath .. | .removed attrPath .. | .versionBump attrPath .. | .renamed attrPath .. | .rebuildOnly attrPath ..
  | .licenseChange attrPath .. | .maintainerChange attrPath .. => attrPath

def pnameChanged (headPname basePname : Option String) : Bool :=
  match headPname, basePname with
  | some head, some base => head ≠ base
  | _, _ => false

/-- The entry where the name is not another one. -/
def sameNameChange (head : JobDrvRow) (headPname headVersion baseVersion : Option String) : PackageChange :=
  match headVersion, baseVersion with
  | some new, some old =>
    if new ≠ old then .versionBump head.attrPath (headPname.getD head.attrPath) old new head.drvPath
    else .rebuildOnly head.attrPath headPname headVersion head.drvPath
  | _, _ => .rebuildOnly head.attrPath headPname headVersion head.drvPath

def primaryChange (head : JobDrvRow) (headPname basePname headVersion baseVersion : Option String) : PackageChange :=
  match headPname, basePname with
  | some new, some old =>
    if new ≠ old then .renamed head.attrPath old new headVersion head.drvPath
    else sameNameChange head headPname headVersion baseVersion
  | _, _ => sameNameChange head headPname headVersion baseVersion

variable (parseJson : String → Option Json)

def licenseEntries (head base : JobDrvRow) : Option String → List PackageChange
  | none => []
  | some pname =>
    if head.licenseJson = base.licenseJson then []
    else
      match diffLicense parseJson head.licenseJson base.licenseJson with
      | some (old, new) => [.licenseChange head.attrPath pname old new head.drvPath]
      | none => []

def maintainerEntries (head base : JobDrvRow) : Option String → List PackageChange
  | none => []
  | some pname =>
    if head.maintainersJson = base.maintainersJson then []
    else
      match diffMaintainers parseJson head.maintainersJson base.maintainersJson with
      | some (added, removed) => [.maintainerChange head.attrPath pname added removed head.drvPath]
      | none => []

/-- One primary entry, and up to two more. -/
def classifyChanged (head base : JobDrvRow) : Option (List PackageChange) := do
  let headPname ← head.pnameOrHeuristic
  let basePname ← base.pnameOrHeuristic
  let headVersion ← head.versionOrHeuristic
  let baseVersion ← base.versionOrHeuristic
  -- Only the name of the head is asked for.
  let kept := headPname.filter fun _ => !pnameChanged headPname basePname
  return primaryChange head headPname basePname headVersion baseVersion ::
    (licenseEntries parseJson head base kept ++ maintainerEntries parseJson head base kept)

/-- What the row of the head gives. -/
def headEntries (base : List JobDrvRow) (headRow : JobDrvRow) : Option (List PackageChange) :=
  match findKey JobDrvRow.attrPath base headRow.attrPath with
  | none => do
    let pname ← headRow.pnameOrHeuristic
    let version ← headRow.versionOrHeuristic
    return [.added headRow.attrPath pname version headRow.drvPath]
  | some baseRow => if headRow.drvPath = baseRow.drvPath then some [] else classifyChanged parseJson headRow baseRow

/-- What the row of the base gives that the head has none for. -/
def baseEntries (head : List JobDrvRow) (baseRow : JobDrvRow) : Option (List PackageChange) :=
  match findKey JobDrvRow.attrPath head baseRow.attrPath with
  | none => do
    let pname ← baseRow.pnameOrHeuristic
    let version ← baseRow.versionOrHeuristic
    return [.removed baseRow.attrPath pname version]
  | some _ => some []

/-- With whether any row has metadata; `none` is a panic. -/
def computePackageChanges (head base : List JobDrvRow) : Option (List PackageChange × Bool) := do
  let headByAttr := inKeyOrder JobDrvRow.attrPath head
  let baseByAttr := inKeyOrder JobDrvRow.attrPath base
  let metadataAvailable := (head ++ base).any fun row => row.pname.isSome || row.version.isSome
  let fromHead ← giveAll (headEntries parseJson baseByAttr) headByAttr
  let fromBase ← giveAll (baseEntries headByAttr) baseByAttr
  return (fromHead ++ fromBase, metadataAvailable)

structure PackageLabel where
  pname : Option String
  version : Option String

def JobDrvRow.ReadAs (row : JobDrvRow) (label : PackageLabel) : Prop :=
  row.pnameOrHeuristic = some label.pname ∧ row.versionOrHeuristic = some label.version

/-- Both names are known, and they differ. -/
def Renames (new old : PackageLabel) : Prop := ∃ name other, new.pname = some name ∧ old.pname = some other ∧ name ≠ other

/-- Both versions are known, and they differ. -/
def Bumps (new old : PackageLabel) : Prop :=
  ∃ version other, new.version = some version ∧ old.version = some other ∧ version ≠ other

inductive Primary (head : JobDrvRow) (new old : PackageLabel) : PackageChange → Prop where
  | renamed {name other : String} (now : new.pname = some name) (before : old.pname = some other) (differ : name ≠ other) :
      Primary head new old (.renamed head.attrPath other name new.version head.drvPath)
  | versionBump {version other : String} (named : ¬ Renames new old) (now : new.version = some version)
      (before : old.version = some other) (differ : version ≠ other) :
      Primary head new old (.versionBump head.attrPath (new.pname.getD head.attrPath) other version head.drvPath)
  | rebuildOnly (named : ¬ Renames new old) (versioned : ¬ Bumps new old) :
      Primary head new old (.rebuildOnly head.attrPath new.pname new.version head.drvPath)

/-- One more entry, if the name is known and unchanged and the sets differ. -/
inductive Further (new old : PackageLabel) (head base : Finset String) (entry : String → PackageChange) :
    List PackageChange → Prop where
  | differ {name : String} (now : new.pname = some name) (before : old.pname = some name) (differ : head ≠ base) :
      Further new old head base entry [entry name]
  | same (none : ∀ name, new.pname = some name → old.pname = some name → head = base) : Further new old head base entry []

section Exact

def licenseChangeOf (head base : JobDrvRow) (pname : String) : PackageChange :=
  .licenseChange head.attrPath pname (inOrder (licenseSet parseJson base.licenseJson))
    (inOrder (licenseSet parseJson head.licenseJson)) head.drvPath

def maintainerChangeOf (head base : JobDrvRow) (pname : String) : PackageChange :=
  let now := parseMaintainerLabels parseJson head.maintainersJson
  let before := parseMaintainerLabels parseJson base.maintainersJson
  .maintainerChange head.attrPath pname (inOrder (now \ before)) (inOrder (before \ now)) head.drvPath

/-- The entries of an attribute, by the rows of the head and the base that have it. -/
inductive ExactFor : Option JobDrvRow → Option JobDrvRow → List PackageChange → Prop where
  | absent : ExactFor none none []
  | added {row : JobDrvRow} {label : PackageLabel} (read : row.ReadAs label) :
      ExactFor (some row) none [.added row.attrPath label.pname label.version row.drvPath]
  | removed {row : JobDrvRow} {label : PackageLabel} (read : row.ReadAs label) :
      ExactFor none (some row) [.removed row.attrPath label.pname label.version]
  | unchanged {head base : JobDrvRow} (same : head.drvPath = base.drvPath) : ExactFor (some head) (some base) []
  | changed {head base : JobDrvRow} {new old : PackageLabel} {primary : PackageChange}
      {licenses maintainers : List PackageChange} (differ : head.drvPath ≠ base.drvPath) (now : head.ReadAs new)
      (before : base.ReadAs old) (first : Primary head new old primary)
      (licensed : Further new old (licenseSet parseJson head.licenseJson) (licenseSet parseJson base.licenseJson)
        (licenseChangeOf parseJson head base) licenses)
      (maintained : Further new old (parseMaintainerLabels parseJson head.maintainersJson)
        (parseMaintainerLabels parseJson base.maintainersJson) (maintainerChangeOf parseJson head base) maintainers) :
      ExactFor (some head) (some base) (primary :: (licenses ++ maintainers))

/-- Every attribute gets its entries, and there are no others. -/
def Exact (head base : List JobDrvRow) (changes : List PackageChange) : Prop :=
  ∀ attr, ExactFor parseJson (findKey JobDrvRow.attrPath head attr) (findKey JobDrvRow.attrPath base attr)
    (changes.filter (·.attrPath = attr))

end Exact

/-- An entry without what only the row of the head gives. -/
inductive ChangeSides where
  | added (attrPath : String) (pname version : Option String)
  | removed (attrPath : String) (pname version : Option String)
  | versionBump (attrPath old new : String)
  | renamed (attrPath old new : String)
  | rebuildOnly (attrPath : String)
  | licenseChange (attrPath pname : String) (old new : List String)
  | maintainerChange (attrPath pname : String) (added removed : List String)
  deriving DecidableEq

def PackageChange.sides : PackageChange → ChangeSides
  | .added attrPath pname version _ => .added attrPath pname version
  | .removed attrPath pname version => .removed attrPath pname version
  | .versionBump attrPath _ old new _ => .versionBump attrPath old new
  | .renamed attrPath old new _ _ => .renamed attrPath old new
  | .rebuildOnly attrPath _ _ _ => .rebuildOnly attrPath
  | .licenseChange attrPath pname old new _ => .licenseChange attrPath pname old new
  | .maintainerChange attrPath pname gained lost _ => .maintainerChange attrPath pname gained lost

def ChangeSides.attrPath : ChangeSides → String
  | .added attrPath .. | .removed attrPath .. | .versionBump attrPath .. | .renamed attrPath .. | .rebuildOnly attrPath
  | .licenseChange attrPath .. | .maintainerChange attrPath .. => attrPath

def ChangeSides.swapped : ChangeSides → ChangeSides
  | .added attrPath pname version => .removed attrPath pname version
  | .removed attrPath pname version => .added attrPath pname version
  | .versionBump attrPath old new => .versionBump attrPath new old
  | .renamed attrPath old new => .renamed attrPath new old
  | .rebuildOnly attrPath => .rebuildOnly attrPath
  | .licenseChange attrPath pname old new => .licenseChange attrPath pname new old
  | .maintainerChange attrPath pname gained lost => .maintainerChange attrPath pname lost gained

/-- The entries are exact; the rows may come in any order; and with the base for the head the
same entries come out the other way round. -/
def ClassifiesWell (head base : List JobDrvRow) : Prop :=
  ∃ changes metadata, computePackageChanges parseJson head base = some (changes, metadata) ∧
    Exact parseJson head base changes ∧
    (∀ head' base', head.Perm head' → base.Perm base' →
      ∃ changes', computePackageChanges parseJson head' base' = some (changes', metadata) ∧ changes'.Perm changes) ∧
    ∃ others, computePackageChanges parseJson base head = some (others, metadata) ∧
      (others.map PackageChange.sides).Perm (changes.map fun change => change.sides.swapped)

def SameLabels (head base : JobDrvRow) : Prop :=
  licenseSet parseJson head.licenseJson = licenseSet parseJson base.licenseJson ∧
    parseMaintainerLabels parseJson head.maintainersJson = parseMaintainerLabels parseJson base.maintainersJson

/-- The names of both can be found, and not just one of them is known where the labels differ. -/
def JobDrvRow.ComparesWith (head base : JobDrvRow) : Prop :=
  head.drvPath = base.drvPath ∨
    head.Readable ∧ base.Readable ∧ ((head.Named ↔ base.Named) ∨ SameLabels parseJson head base)

def Classifiable (head base : List JobDrvRow) : Prop :=
  ∀ attr, match findKey JobDrvRow.attrPath head attr, findKey JobDrvRow.attrPath base attr with
    | none, none => True
    | some row, none => row.Readable
    | none, some row => row.Readable
    | some headRow, some baseRow => headRow.ComparesWith parseJson baseRow

variable {parseJson}

variable {row base head : JobDrvRow} {new old : PackageLabel} {name : String} {first second : Finset String}
  {change : PackageChange} {entries others : List PackageChange} {entry : String → PackageChange}

theorem JobDrvRow.ReadAs.unique {first second : PackageLabel} (one : row.ReadAs first) (other : row.ReadAs second) :
    first = second := by
  obtain ⟨pname, version⟩ := first
  obtain ⟨pname', version'⟩ := second
  obtain ⟨named, versioned⟩ := one
  obtain ⟨named', versioned'⟩ := other
  cases named.symm.trans named'
  cases versioned.symm.trans versioned'
  rfl

theorem exists_readAs : (∃ label, row.ReadAs label) ↔ row.Readable := by
  rw [JobDrvRow.readable_iff]
  exact ⟨fun ⟨label, named, versioned⟩ => ⟨label.pname, label.version, named, versioned⟩,
    fun ⟨pname, version, named, versioned⟩ => ⟨⟨pname, version⟩, named, versioned⟩⟩

theorem pnameChanged_iff : pnameChanged new.pname old.pname = true ↔ Renames new old := by
  obtain ⟨pname, version⟩ := new
  obtain ⟨pname', version'⟩ := old
  cases pname <;> cases pname' <;> simp [pnameChanged, Renames]

theorem primary_primaryChange (head : JobDrvRow) (new old : PackageLabel) :
    Primary head new old (primaryChange head new.pname old.pname new.version old.version) := by
  have unrenamed (named : ¬ Renames new old) :
      Primary head new old (sameNameChange head new.pname new.version old.version) := by
    unfold sameNameChange
    split
    · rename_i version other now before
      split
      · rename_i differ
        exact .versionBump named now before differ
      · rename_i same
        refine .rebuildOnly named ?_
        rintro ⟨version', other', now', before', differ⟩
        cases now.symm.trans now'
        cases before.symm.trans before'
        exact same differ
    · rename_i unknown
      refine .rebuildOnly named ?_
      rintro ⟨version, other, now, before, -⟩
      exact unknown version other now before
  unfold primaryChange
  split
  · rename_i name other now before
    split
    · rename_i differ
      exact .renamed now before differ
    · rename_i same
      refine unrenamed ?_
      rintro ⟨name', other', now', before', differ⟩
      cases now.symm.trans now'
      cases before.symm.trans before'
      exact same differ
  · rename_i unknown
    refine unrenamed ?_
    rintro ⟨name, other, now, before, -⟩
    exact unknown name other now before

/-- What the code asks before it compares labels. -/
def keptName (new old : PackageLabel) : Option String := new.pname.filter fun _ => !pnameChanged new.pname old.pname

theorem keptName_eq_some_iff : keptName new old = some name ↔ new.pname = some name ∧ ¬ Renames new old := by
  rw [keptName, Option.filter_eq_some_iff, ← pnameChanged_iff]
  simp

theorem licenseEntries_eq (head base : JobDrvRow) (kept : Option String) :
    licenseEntries parseJson head base kept =
      if licenseSet parseJson head.licenseJson = licenseSet parseJson base.licenseJson then []
      else (kept.map (licenseChangeOf parseJson head base)).toList := by
  cases kept with
  | none => simp [licenseEntries]
  | some pname =>
    rw [licenseEntries]
    by_cases sets : licenseSet parseJson head.licenseJson = licenseSet parseJson base.licenseJson
    · have none : diffLicense parseJson head.licenseJson base.licenseJson = none := if_pos (parseLicenseLabels_inj.mpr sets)
      simp [none, sets]
    · have diff : diffLicense parseJson head.licenseJson base.licenseJson = some (_, _) :=
        if_neg fun same => sets (parseLicenseLabels_inj.mp same)
      have texts : head.licenseJson ≠ base.licenseJson := fun same => sets (by rw [same])
      rw [if_neg texts, diff, if_neg sets, parseLicenseLabels_eq, parseLicenseLabels_eq]
      rfl

theorem inOrder_sdiff_eq_nil : inOrder (first \ second) = [] ↔ first ⊆ second := by
  rw [← Finset.sdiff_eq_empty_iff_subset, ← List.toFinset_eq_empty_iff, toFinset_inOrder]

theorem maintainerEntries_eq (head base : JobDrvRow) (kept : Option String) :
    maintainerEntries parseJson head base kept =
      if parseMaintainerLabels parseJson head.maintainersJson = parseMaintainerLabels parseJson base.maintainersJson then []
      else (kept.map (maintainerChangeOf parseJson head base)).toList := by
  cases kept with
  | none => simp [maintainerEntries]
  | some pname =>
    rw [maintainerEntries]
    by_cases sets :
        parseMaintainerLabels parseJson head.maintainersJson = parseMaintainerLabels parseJson base.maintainersJson
    · have none : diffMaintainers parseJson head.maintainersJson base.maintainersJson = none := if_pos sets
      simp [none, sets]
    · have one : ¬ (inOrder (parseMaintainerLabels parseJson head.maintainersJson \
          parseMaintainerLabels parseJson base.maintainersJson) = [] ∧
          inOrder (parseMaintainerLabels parseJson base.maintainersJson \
            parseMaintainerLabels parseJson head.maintainersJson) = []) := by
        rintro ⟨fewer, more⟩
        exact sets (Finset.Subset.antisymm (inOrder_sdiff_eq_nil.mp fewer) (inOrder_sdiff_eq_nil.mp more))
      have texts : head.maintainersJson ≠ base.maintainersJson := fun same => sets (by rw [same])
      rw [if_neg texts, diffMaintainers, if_neg sets]
      simp only [if_neg one, if_neg sets]
      rfl

theorem further_cases {kept : Option String}
    (member : change ∈ licenseEntries parseJson head base kept ++ maintainerEntries parseJson head base kept) :
    ∃ pname, change = licenseChangeOf parseJson head base pname ∨ change = maintainerChangeOf parseJson head base pname := by
  rw [licenseEntries_eq, maintainerEntries_eq, List.mem_append] at member
  obtain license | maintainer := member
  · split at license
    · cases license
    · obtain ⟨pname, -, rfl⟩ := Option.map_eq_some_iff.mp (Option.mem_toList.mp license)
      exact ⟨pname, .inl rfl⟩
  · split at maintainer
    · cases maintainer
    · obtain ⟨pname, -, rfl⟩ := Option.map_eq_some_iff.mp (Option.mem_toList.mp maintainer)
      exact ⟨pname, .inr rfl⟩

theorem classifyChanged_eq (now : head.ReadAs new) (before : base.ReadAs old) :
    classifyChanged parseJson head base = some (primaryChange head new.pname old.pname new.version old.version ::
      (licenseEntries parseJson head base (keptName new old) ++ maintainerEntries parseJson head base (keptName new old))) := by
  rw [classifyChanged, now.1, now.2, before.1, before.2]
  rfl

theorem classifyChanged_readAs (classified : classifyChanged parseJson head base = some entries) :
    ∃ new old, head.ReadAs new ∧ base.ReadAs old := by
  rw [classifyChanged] at classified
  obtain ⟨pname, named, classified⟩ := Option.bind_eq_some_iff.mp classified
  obtain ⟨pname', named', classified⟩ := Option.bind_eq_some_iff.mp classified
  obtain ⟨version, versioned, classified⟩ := Option.bind_eq_some_iff.mp classified
  obtain ⟨version', versioned', -⟩ := Option.bind_eq_some_iff.mp classified
  exact ⟨⟨pname, version⟩, ⟨pname', version'⟩, ⟨named, versioned⟩, named', versioned'⟩

/-- Entries about labels are right where both names are known or neither is, and where there are none. -/
theorem further_of (known : (new.pname.isSome = true ↔ old.pname.isSome = true) ∨ first = second) :
    Further new old first second entry (if first = second then [] else ((keptName new old).map entry).toList) := by
  by_cases same : first = second
  · rw [if_pos same]
    exact .same fun _ _ _ => same
  · have known := known.resolve_right same
    rw [if_neg same]
    cases kept : keptName new old with
    | none =>
      refine .same fun name now before => ?_
      have kept' : keptName new old = some name := by
        refine keptName_eq_some_iff.mpr ⟨now, ?_⟩
        rintro ⟨name', other', now', before', differ⟩
        cases now.symm.trans now'
        cases before.symm.trans before'
        exact differ rfl
      cases kept.symm.trans kept'
    | some name =>
      obtain ⟨now, unrenamed⟩ := keptName_eq_some_iff.mp kept
      obtain ⟨other, before⟩ := Option.isSome_iff_exists.mp (known.mp (by rw [now, Option.isSome_some]))
      have agree : name = other := not_not.mp fun differ => unrenamed ⟨name, other, now, before, differ⟩
      exact .differ now (agree ▸ before) same

variable (parseJson) in
/-- What the two loops give for an attribute. -/
def entriesOf : Option JobDrvRow → Option JobDrvRow → Option (List PackageChange)
  | none, none => some []
  | some row, none => headEntries parseJson [] row
  | none, some row => baseEntries [] row
  | some head, some base => if head.drvPath = base.drvPath then some [] else classifyChanged parseJson head base

theorem Primary.attrPath_eq (primary : Primary head new old change) : change.attrPath = head.attrPath := by
  cases primary <;> rfl

theorem attrPath_of_classifyChanged (classified : classifyChanged parseJson head base = some entries) :
    ∀ change ∈ entries, change.attrPath = head.attrPath := by
  obtain ⟨new, old, now, before⟩ := classifyChanged_readAs classified
  rw [classifyChanged_eq now before] at classified
  cases classified
  intro change member
  obtain rfl | further := List.mem_cons.mp member
  · exact (primary_primaryChange head new old).attrPath_eq
  · obtain ⟨pname, rfl | rfl⟩ := further_cases further <;> rfl

theorem attrPath_of_headEntries {base : List JobDrvRow} (given : headEntries parseJson base row = some entries) :
    ∀ change ∈ entries, change.attrPath = row.attrPath := by
  rw [headEntries] at given
  split at given
  · obtain ⟨pname, -, given⟩ := Option.bind_eq_some_iff.mp given
    obtain ⟨version, -, given⟩ := Option.bind_eq_some_iff.mp given
    cases given
    intro change member
    rw [List.mem_singleton.mp member]
    rfl
  · split at given
    · cases given
      exact List.forall_mem_nil _
    · exact attrPath_of_classifyChanged given

theorem attrPath_of_baseEntries {head : List JobDrvRow} (given : baseEntries head row = some entries) :
    ∀ change ∈ entries, change.attrPath = row.attrPath := by
  rw [baseEntries] at given
  split at given
  · obtain ⟨pname, -, given⟩ := Option.bind_eq_some_iff.mp given
    obtain ⟨version, -, given⟩ := Option.bind_eq_some_iff.mp given
    cases given
    intro change member
    rw [List.mem_singleton.mp member]
    rfl
  · cases given
    exact List.forall_mem_nil _

theorem attrPath_of_mem_headEntries {base : List JobDrvRow}
    (member : change ∈ (headEntries parseJson base row).getD []) : change.attrPath = row.attrPath := by
  cases given : headEntries parseJson base row with
  | none =>
    rw [given] at member
    cases member
  | some entries =>
    rw [given] at member
    exact attrPath_of_headEntries given change member

theorem attrPath_of_mem_baseEntries {head : List JobDrvRow} (member : change ∈ (baseEntries head row).getD []) :
    change.attrPath = row.attrPath := by
  cases given : baseEntries head row with
  | none =>
    rw [given] at member
    cases member
  | some entries =>
    rw [given] at member
    exact attrPath_of_baseEntries given change member

section Compute

variable {head base : List JobDrvRow}
variable (parseJson) in
theorem headEntries_eq (unique' : (base.map JobDrvRow.attrPath).Nodup) (row : JobDrvRow) :
    headEntries parseJson (inKeyOrder JobDrvRow.attrPath base) row =
      entriesOf parseJson (some row) (findKey JobDrvRow.attrPath base row.attrPath) := by
  rw [headEntries, findKey_inKeyOrder unique']
  cases findKey JobDrvRow.attrPath base row.attrPath <;> rfl

variable (parseJson) in
theorem baseEntries_eq (unique : (head.map JobDrvRow.attrPath).Nodup) (row : JobDrvRow) :
    baseEntries (inKeyOrder JobDrvRow.attrPath head) row =
      if (findKey JobDrvRow.attrPath head row.attrPath).isSome then some [] else entriesOf parseJson none (some row) := by
  rw [baseEntries, findKey_inKeyOrder unique]
  cases findKey JobDrvRow.attrPath head row.attrPath <;> rfl

theorem compute_of_entries (unique : (head.map JobDrvRow.attrPath).Nodup) (unique' : (base.map JobDrvRow.attrPath).Nodup)
    (all : ∀ attr, ∃ entries,
      entriesOf parseJson (findKey JobDrvRow.attrPath head attr) (findKey JobDrvRow.attrPath base attr) = some entries) :
    ∃ changes, computePackageChanges parseJson head base =
      some (changes, (head ++ base).any fun row => row.pname.isSome || row.version.isSome) := by
  have fromHead : ∀ row ∈ inKeyOrder JobDrvRow.attrPath head, headEntries parseJson (inKeyOrder JobDrvRow.attrPath base) row =
      some ((headEntries parseJson (inKeyOrder JobDrvRow.attrPath base) row).getD []) := by
    intro row member
    obtain ⟨entries, given⟩ := all row.attrPath
    rw [(findKey_eq_some_iff unique).mpr ⟨(inKeyOrder_perm unique).mem_iff.mp member, rfl⟩] at given
    rw [headEntries_eq parseJson unique', given, Option.getD_some]
  have fromBase : ∀ row ∈ inKeyOrder JobDrvRow.attrPath base, baseEntries (inKeyOrder JobDrvRow.attrPath head) row =
      some ((baseEntries (inKeyOrder JobDrvRow.attrPath head) row).getD []) := by
    intro row member
    obtain ⟨entries, given⟩ := all row.attrPath
    rw [(findKey_eq_some_iff unique').mpr ⟨(inKeyOrder_perm unique').mem_iff.mp member, rfl⟩] at given
    rw [baseEntries_eq parseJson unique]
    split
    · rfl
    · rename_i absent
      rw [Option.not_isSome_iff_eq_none.mp absent] at given
      rw [given, Option.getD_some]
  rw [computePackageChanges]
  simp only [giveAll_of_forall fromHead, giveAll_of_forall fromBase]
  exact ⟨_, rfl⟩

theorem entriesOf_filter (unique : (head.map JobDrvRow.attrPath).Nodup) (unique' : (base.map JobDrvRow.attrPath).Nodup)
    {changes : List PackageChange} {metadata : Bool}
    (computed : computePackageChanges parseJson head base = some (changes, metadata)) (attr : String) :
    entriesOf parseJson (findKey JobDrvRow.attrPath head attr) (findKey JobDrvRow.attrPath base attr) =
      some (changes.filter (·.attrPath = attr)) := by
  obtain ⟨ofHead, first, computed⟩ := Option.bind_eq_some_iff.mp computed
  obtain ⟨ofBase, second, computed⟩ := Option.bind_eq_some_iff.mp computed
  cases computed
  obtain ⟨heads, rfl⟩ := giveAll_eq_some first
  obtain ⟨bases, rfl⟩ := giveAll_eq_some second
  rw [List.filter_append,
    filter_flatMap_key (nodup_inKeyOrder head) fun _ _ _ member => attrPath_of_mem_headEntries member,
    filter_flatMap_key (nodup_inKeyOrder base) fun _ _ _ member => attrPath_of_mem_baseEntries member,
    findKey_inKeyOrder unique, findKey_inKeyOrder unique']
  cases inHead : findKey JobDrvRow.attrPath head attr with
  | none =>
    cases inBase : findKey JobDrvRow.attrPath base attr with
    | none => rfl
    | some row =>
      have member := (inKeyOrder_perm unique').mem_iff.mpr ((findKey_eq_some_iff unique').mp inBase).1
      obtain ⟨entries, given⟩ := bases row member
      have same := baseEntries_eq parseJson unique row
      rw [key_of_findKey inBase, inHead, if_neg (by simp)] at same
      rw [Option.map_none, Option.map_some, same, ← same, given]
      rfl
  | some row =>
    have member := (inKeyOrder_perm unique).mem_iff.mpr ((findKey_eq_some_iff unique).mp inHead).1
    obtain ⟨entries, given⟩ := heads row member
    have same := headEntries_eq parseJson unique' row
    rw [key_of_findKey inHead] at same
    rw [← same, given]
    cases inBase : findKey JobDrvRow.attrPath base attr with
    | none => simp [given]
    | some other =>
      have nothing : baseEntries (inKeyOrder JobDrvRow.attrPath head) other = some [] := by
        rw [baseEntries_eq parseJson unique, key_of_findKey inBase, inHead]
        rfl
      simp [given, nothing]

theorem computePackageChanges_of_perm {head' base' : List JobDrvRow} (unique : (head.map JobDrvRow.attrPath).Nodup)
    (unique' : (base.map JobDrvRow.attrPath).Nodup) (heads : head.Perm head') (bases : base.Perm base') :
    computePackageChanges parseJson head' base' = computePackageChanges parseJson head base := by
  have metadata : (head' ++ base').any (fun row => row.pname.isSome || row.version.isSome) =
      (head ++ base).any fun row => row.pname.isSome || row.version.isSome :=
    ((heads.append bases).any_eq).symm
  rw [computePackageChanges, computePackageChanges, inKeyOrder_of_perm unique heads, inKeyOrder_of_perm unique' bases,
    metadata]

end Compute

theorem exactFor_of_compares (compares : head.ComparesWith parseJson base) :
    ∃ entries, entriesOf parseJson (some head) (some base) = some entries ∧
      ExactFor parseJson (some head) (some base) entries := by
  by_cases same : head.drvPath = base.drvPath
  · exact ⟨[], if_pos same, .unchanged same⟩
  · obtain ⟨readable, readable', known⟩ := compares.resolve_left same
    obtain ⟨new, now⟩ := exists_readAs.mpr readable
    obtain ⟨old, before⟩ := exists_readAs.mpr readable'
    rw [JobDrvRow.named_iff now.1, JobDrvRow.named_iff before.1] at known
    refine ⟨_, (if_neg same).trans (classifyChanged_eq now before), ?_⟩
    refine .changed same now before (primary_primaryChange head new old) ?_ ?_
    · rw [licenseEntries_eq]
      exact further_of (known.imp_right And.left)
    · rw [maintainerEntries_eq]
      exact further_of (known.imp_right And.right)

theorem exactFor_added (readable : row.Readable) :
    ∃ entries, entriesOf parseJson (some row) none = some entries ∧ ExactFor parseJson (some row) none entries := by
  obtain ⟨label, read⟩ := exists_readAs.mpr readable
  refine ⟨_, ?_, .added read⟩
  rw [entriesOf, headEntries, findKey, List.find?_nil]
  simp only [read.1, read.2]
  rfl

theorem exactFor_removed (readable : row.Readable) :
    ∃ entries, entriesOf parseJson none (some row) = some entries ∧ ExactFor parseJson none (some row) entries := by
  obtain ⟨label, read⟩ := exists_readAs.mpr readable
  refine ⟨_, ?_, .removed read⟩
  rw [entriesOf, baseEntries, findKey, List.find?_nil]
  simp only [read.1, read.2]
  rfl

theorem Classifiable.exactFor {head base : List JobDrvRow} (classifiable : Classifiable parseJson head base)
    (attr : String) : ∃ entries,
      entriesOf parseJson (findKey JobDrvRow.attrPath head attr) (findKey JobDrvRow.attrPath base attr) = some entries ∧
      ExactFor parseJson (findKey JobDrvRow.attrPath head attr) (findKey JobDrvRow.attrPath base attr) entries := by
  have here := classifiable attr
  cases inHead : findKey JobDrvRow.attrPath head attr with
  | none =>
    cases inBase : findKey JobDrvRow.attrPath base attr with
    | none => exact ⟨[], rfl, .absent⟩
    | some row =>
      rw [inHead, inBase] at here
      exact exactFor_removed here
  | some row =>
    cases inBase : findKey JobDrvRow.attrPath base attr with
    | none =>
      rw [inHead, inBase] at here
      exact exactFor_added here
    | some other =>
      rw [inHead, inBase] at here
      exact exactFor_of_compares here

theorem SameLabels.symm (same : SameLabels parseJson head base) : SameLabels parseJson base head :=
  ⟨same.1.symm, same.2.symm⟩

theorem Classifiable.symm {head base : List JobDrvRow} (classifiable : Classifiable parseJson head base) :
    Classifiable parseJson base head := by
  intro attr
  have here := classifiable attr
  cases inHead : findKey JobDrvRow.attrPath head attr with
  | none => cases inBase : findKey JobDrvRow.attrPath base attr <;> simp_all
  | some row =>
    cases inBase : findKey JobDrvRow.attrPath base attr with
    | none => simp_all
    | some other =>
      rw [inHead, inBase] at here
      obtain same | ⟨readable, readable', known⟩ := here
      · exact .inl same.symm
      · exact .inr ⟨readable', readable, known.imp Iff.symm SameLabels.symm⟩

theorem Primary.swapped {other : PackageChange} (attr : head.attrPath = base.attrPath)
    (one : Primary head new old change) (another : Primary base old new other) :
    other.sides = change.sides.swapped := by
  cases one with
  | renamed now before differ =>
    have renames : Renames old new := ⟨_, _, before, now, differ.symm⟩
    cases another with
    | renamed now' before' =>
      cases now.symm.trans before'
      cases before.symm.trans now'
      simp [PackageChange.sides, ChangeSides.swapped, attr]
    | versionBump named => exact absurd renames named
    | rebuildOnly named => exact absurd renames named
  | versionBump named now before differ =>
    cases another with
    | renamed now' before' differ' => exact absurd ⟨_, _, before', now', differ'.symm⟩ named
    | versionBump _ now' before' =>
      cases now.symm.trans before'
      cases before.symm.trans now'
      simp [PackageChange.sides, ChangeSides.swapped, attr]
    | rebuildOnly _ versioned => exact absurd ⟨_, _, before, now, differ.symm⟩ versioned
  | rebuildOnly named versioned =>
    cases another with
    | renamed now' before' differ' => exact absurd ⟨_, _, before', now', differ'.symm⟩ named
    | versionBump _ now' before' differ' => exact absurd ⟨_, _, before', now', differ'.symm⟩ versioned
    | rebuildOnly => simp [PackageChange.sides, ChangeSides.swapped, attr]

theorem Further.swapped {other : String → PackageChange}
    (mirror : ∀ name, (other name).sides = (entry name).sides.swapped)
    (one : Further new old first second entry entries) (another : Further old new second first other others) :
    others.map PackageChange.sides = entries.map fun change => change.sides.swapped := by
  cases one with
  | differ now before differ =>
    cases another with
    | differ now' =>
      cases before.symm.trans now'
      rw [List.map_singleton, List.map_singleton, mirror]
    | same agree => exact absurd (agree _ before now).symm differ
  | same agree =>
    cases another with
    | differ now' before' differ' => exact absurd (agree _ before' now').symm differ'
    | same => rfl

theorem ExactFor.swapped {head base : Option JobDrvRow} {attr : String} (ofHead : ∀ row ∈ head, row.attrPath = attr)
    (ofBase : ∀ row ∈ base, row.attrPath = attr) (one : ExactFor parseJson head base entries)
    (another : ExactFor parseJson base head others) :
    others.map PackageChange.sides = entries.map fun change => change.sides.swapped := by
  cases one with
  | absent =>
    cases another
    rfl
  | added read =>
    cases another with
    | removed read' =>
      cases read.unique read'
      rfl
  | removed read =>
    cases another with
    | added read' =>
      cases read.unique read'
      rfl
  | unchanged same =>
    cases another with
    | unchanged => rfl
    | changed differ => exact absurd same.symm differ
  | @changed head base new old primary licenses maintainers differ now before first licensed maintained =>
    cases another with
    | unchanged same => exact absurd same.symm differ
    | changed _ now' before' first' licensed' maintained' =>
      cases now.unique before'
      cases before.unique now'
      have attrs : head.attrPath = base.attrPath := (ofHead head rfl).trans (ofBase base rfl).symm
      have license (name : String) : (licenseChangeOf parseJson base head name).sides =
          (licenseChangeOf parseJson head base name).sides.swapped := by
        simp [licenseChangeOf, PackageChange.sides, ChangeSides.swapped, attrs]
      have maintainer (name : String) : (maintainerChangeOf parseJson base head name).sides =
          (maintainerChangeOf parseJson head base name).sides.swapped := by
        simp [maintainerChangeOf, PackageChange.sides, ChangeSides.swapped, attrs]
      rw [List.map_cons, List.map_cons, List.map_append, List.map_append, first.swapped attrs first',
        licensed.swapped license licensed', maintained.swapped maintainer maintained']

theorem sides_attrPath (change : PackageChange) : change.sides.attrPath = change.attrPath := by
  cases change <;> rfl

theorem swapped_attrPath (sides : ChangeSides) : sides.swapped.attrPath = sides.attrPath := by
  cases sides <;> rfl

theorem filter_sides (changes : List PackageChange) (attr : String) :
    (changes.map PackageChange.sides).filter (·.attrPath = attr) =
      (changes.filter (·.attrPath = attr)).map PackageChange.sides := by
  rw [List.filter_map]
  simp only [Function.comp_def, sides_attrPath]

theorem filter_swapped (changes : List PackageChange) (attr : String) :
    (changes.map fun change => change.sides.swapped).filter (·.attrPath = attr) =
      (changes.filter (·.attrPath = attr)).map fun change => change.sides.swapped := by
  rw [List.filter_map]
  simp only [Function.comp_def, swapped_attrPath, sides_attrPath]

theorem Exact.swapped {head base : List JobDrvRow} {changes : List PackageChange}
    (one : Exact parseJson head base changes) (another : Exact parseJson base head others) :
    (others.map PackageChange.sides).Perm (changes.map fun change => change.sides.swapped) := by
  have agree (attr : String) : ((others.map PackageChange.sides).filter (·.attrPath = attr)).Perm
      ((changes.map fun change => change.sides.swapped).filter (·.attrPath = attr)) := by
    rw [filter_sides, filter_swapped, (one attr).swapped (fun row found => key_of_findKey found)
      (fun row found => key_of_findKey found) (another attr)]
  exact perm_of_filter_key agree

theorem any_metadata_comm (head base : List JobDrvRow) :
    ((base ++ head).any fun row => row.pname.isSome || row.version.isSome) =
      (head ++ base).any fun row => row.pname.isSome || row.version.isSome := List.perm_append_comm.any_eq

theorem Classifiable.classifiesWell {head base : List JobDrvRow} (unique : (head.map JobDrvRow.attrPath).Nodup)
    (unique' : (base.map JobDrvRow.attrPath).Nodup) (classifiable : Classifiable parseJson head base) :
    ClassifiesWell parseJson head base := by
  have exact {first second : List JobDrvRow} (one : (first.map JobDrvRow.attrPath).Nodup)
      (other : (second.map JobDrvRow.attrPath).Nodup) (given : Classifiable parseJson first second) :
      ∃ changes, computePackageChanges parseJson first second =
        some (changes, (first ++ second).any fun row => row.pname.isSome || row.version.isSome) ∧
        Exact parseJson first second changes := by
    obtain ⟨changes, computed⟩ := compute_of_entries one other fun attr => (given.exactFor attr).imp fun _ both => both.1
    refine ⟨changes, computed, fun attr => ?_⟩
    obtain ⟨entries, came, right⟩ := given.exactFor attr
    cases came.symm.trans (entriesOf_filter one other computed attr)
    exact right
  obtain ⟨changes, computed, right⟩ := exact unique unique' classifiable
  obtain ⟨others, computed', right'⟩ := exact unique' unique classifiable.symm
  refine ⟨changes, _, computed, right, fun head' base' heads bases => ?_, others, ?_, right.swapped right'⟩
  · exact ⟨changes, (computePackageChanges_of_perm unique unique' heads bases).trans computed, List.Perm.refl _⟩
  · rw [computed', any_metadata_comm]

theorem Further.eq_nil (further : Further new old first second entry entries)
    (unknown : new.pname = none ∨ old.pname = none) : entries = [] := by
  cases further with
  | same => rfl
  | differ now before =>
    obtain absent | absent := unknown
    · cases absent.symm.trans now
    · cases absent.symm.trans before

theorem ExactFor.length_eq_one (exact : ExactFor parseJson (some head) (some base) entries)
    (differ : head.drvPath ≠ base.drvPath) (now : head.ReadAs new) (before : base.ReadAs old)
    (unknown : new.pname = none ∨ old.pname = none) : entries.length = 1 := by
  cases exact with
  | unchanged same => exact absurd same differ
  | changed _ now' before' _ licensed maintained =>
    cases now.unique now'
    cases before.unique before'
    rw [licensed.eq_nil unknown, maintained.eq_nil unknown]
    rfl

theorem sameLabels_of_length (now : head.ReadAs new) (before : base.ReadAs old) (known : new.pname = some name)
    (unknown : old.pname = none) (classified : classifyChanged parseJson head base = some entries)
    (single : entries.length = 1) : SameLabels parseJson head base := by
  rw [classifyChanged_eq now before] at classified
  cases classified
  have kept : keptName new old = some name := by
    refine keptName_eq_some_iff.mpr ⟨known, ?_⟩
    rintro ⟨_, _, _, before', _⟩
    cases unknown.symm.trans before'
  rw [List.length_cons, Nat.add_eq_right, List.length_eq_zero_iff, List.append_eq_nil_iff, licenseEntries_eq,
    maintainerEntries_eq, kept] at single
  obtain ⟨licenses, maintainers⟩ := single
  constructor
  · by_contra sets
    rw [if_neg sets] at licenses
    cases licenses
  · by_contra sets
    rw [if_neg sets] at maintainers
    cases maintainers

theorem ExactFor.readAs (exact : ExactFor parseJson (some head) (some base) entries)
    (differ : head.drvPath ≠ base.drvPath) : ∃ new old, head.ReadAs new ∧ base.ReadAs old := by
  cases exact with
  | unchanged same => exact absurd same differ
  | changed _ now before => exact ⟨_, _, now, before⟩

theorem ClassifiesWell.classifiable {head base : List JobDrvRow} (unique : (head.map JobDrvRow.attrPath).Nodup)
    (unique' : (base.map JobDrvRow.attrPath).Nodup) (well : ClassifiesWell parseJson head base) :
    Classifiable parseJson head base := by
  obtain ⟨changes, metadata, computed, right, -, others, computed', mirrored⟩ := well
  intro attr
  have given := entriesOf_filter unique unique' computed attr
  have given' := entriesOf_filter unique' unique computed' attr
  have here := right attr
  have lengths : (others.filter (·.attrPath = attr)).length = (changes.filter (·.attrPath = attr)).length := by
    have same := (mirrored.filter (·.attrPath = attr)).length_eq
    rwa [filter_sides, filter_swapped, List.length_map, List.length_map] at same
  cases inHead : findKey JobDrvRow.attrPath head attr with
  | none =>
    cases inBase : findKey JobDrvRow.attrPath base attr with
    | none => trivial
    | some row =>
      rw [inHead, inBase] at here
      generalize changes.filter (·.attrPath = attr) = entries at here
      cases here with
      | removed read => exact exists_readAs.mp ⟨_, read⟩
  | some row =>
    cases inBase : findKey JobDrvRow.attrPath base attr with
    | none =>
      rw [inHead, inBase] at here
      generalize changes.filter (·.attrPath = attr) = entries at here
      cases here with
      | added read => exact exists_readAs.mp ⟨_, read⟩
    | some other =>
      rw [inHead, inBase] at here given
      rw [inHead, inBase] at given'
      refine or_iff_not_imp_left.mpr fun differ => ?_
      obtain ⟨new, old, now, before⟩ := here.readAs differ
      refine ⟨exists_readAs.mp ⟨new, now⟩, exists_readAs.mp ⟨old, before⟩, ?_⟩
      rw [JobDrvRow.named_iff now.1, JobDrvRow.named_iff before.1]
      rw [entriesOf, if_neg differ] at given
      rw [entriesOf, if_neg (Ne.symm differ)] at given'
      cases known : new.pname with
      | none =>
        cases known' : old.pname with
        | none => exact .inl Iff.rfl
        | some name =>
          have single := here.length_eq_one differ now before (.inl known)
          exact .inr (sameLabels_of_length before now known' known given' (lengths.trans single)).symm
      | some name =>
        cases known' : old.pname with
        | none =>
          have single := here.length_eq_one differ now before (.inr known')
          exact .inr (sameLabels_of_length now before known known' given single)
        | some other => exact .inl Iff.rfl

theorem classifiable_of_loaded {headColumns baseColumns : List JobDrvColumns} {head base : List JobDrvRow}
    (loaded : loadJobDrvRows headColumns = some head) (loaded' : loadJobDrvRows baseColumns = some base) :
    Classifiable parseJson head base := by
  intro attr
  cases inHead : findKey JobDrvRow.attrPath head attr with
  | none =>
    cases inBase : findKey JobDrvRow.attrPath base attr with
    | none => trivial
    | some row => exact (loaded_named loaded' row (List.mem_of_find?_eq_some inBase)).1
  | some row =>
    obtain ⟨readable, named⟩ := loaded_named loaded row (List.mem_of_find?_eq_some inHead)
    cases inBase : findKey JobDrvRow.attrPath base attr with
    | none => exact readable
    | some other =>
      obtain ⟨readable', named'⟩ := loaded_named loaded' other (List.mem_of_find?_eq_some inBase)
      exact .inr ⟨readable, readable', .inl (iff_of_true named named')⟩

/-- The entries are exact and mirror those of the other direction exactly if the names can be
found, and no labels differ between a package whose name is known and one whose name is not. -/
theorem classifiesWell_iff {head base : List JobDrvRow} (unique : (head.map JobDrvRow.attrPath).Nodup)
    (unique' : (base.map JobDrvRow.attrPath).Nodup) :
    ClassifiesWell parseJson head base ↔ Classifiable parseJson head base :=
  ⟨fun well => well.classifiable unique unique', fun classifiable => classifiable.classifiesWell unique unique'⟩

/-- Reads one text, which names a license. -/
def parseMit (text : String) : Option Json :=
  if text = "[\x7b\"spdxId\":\"MIT\"\x7d]" then some (.arr [.obj [("spdxId", .str "MIT")]]) else none

def helloHead : JobDrvRow where
  attrPath := "hello"
  drvPath := ⟨"11111111111111111111111111111111-hello-2.13.drv", by decide⟩
  name := "hello-2.13"
  pname := none
  version := none
  licenseJson := some "[\x7b\"spdxId\":\"MIT\"\x7d]"
  maintainersJson := none

def helloBase : JobDrvRow :=
  { helloHead with drvPath := ⟨"22222222222222222222222222222222-hello-2.12.drv", by decide⟩, name := "hello-2.12", licenseJson := none }

theorem hello_classifiesWell : ClassifiesWell parseMit [helloHead] [helloBase] := by
  refine (classifiesWell_iff (by decide) (by decide)).mpr fun attr => ?_
  by_cases here : attr = "hello"
  · subst here
    have readable (row : JobDrvRow) (ascii : row.name.toList.all (fun c => decide (c.utf8Size < 2)) = true) :
        row.Readable :=
      .inr (.inr (NameParts.readable_of_ascii fun c member => of_decide_eq_true (List.all_eq_true.mp ascii c member)))
    refine .inr ⟨readable helloHead (by decide), readable helloBase (by decide), .inl (iff_of_true (.inr ?_) (.inr ?_))⟩
    · decide
    · decide
  · have absent (row : JobDrvRow) (named : row.attrPath = "hello") : findKey JobDrvRow.attrPath [row] attr = none :=
      findKey_eq_none_iff.mpr fun other member same => here (by rw [← same, List.mem_singleton.mp member, named])
    rw [absent helloHead rfl, absent helloBase rfl]
    trivial

/-- A license change is told although the name is only known at the head. -/
theorem not_classifiesWell_unnamed : ¬ ∀ (parseJson : String → Option Json) (head base : List JobDrvRow),
    (head.map JobDrvRow.attrPath).Nodup → (base.map JobDrvRow.attrPath).Nodup → ClassifiesWell parseJson head base := by
  intro claimed
  have unique : ∀ row : JobDrvRow, ([row].map JobDrvRow.attrPath).Nodup := fun row => List.nodup_singleton _
  have well := claimed parseMit [helloHead] [{ helloBase with name := "" }] (unique _) (unique _)
  have here : helloHead.ComparesWith parseMit { helloBase with name := "" } :=
    well.classifiable (unique _) (unique _) "hello"
  obtain same | ⟨-, -, named | ⟨licenses, -⟩⟩ := here
  · revert same
    decide
  · obtain column | name := named.mp (.inr (by decide))
    · revert column
      decide
    · exact name rfl
  · revert licenses
    decide

end EkaCI
