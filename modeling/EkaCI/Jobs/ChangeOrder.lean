import EkaCI.Jobs.SummaryRender

/-! The order of the package changes, and of the table in the report that is made from them. -/

namespace EkaCI

open Lib

structure ChangeSummaryOptions where
  summaryEnabled : Bool
  includeRebuildOnly : Bool
  maxPackagesListed : Nat

/-- What the report tells beside the changes. -/
structure SummaryContext where
  headSha : String
  baseSha : String
  rebuildImpact : ChangeSummaryRebuildImpact
  parseError : Option String

section Build

variable (parseJson : String → Option Json)

/-- Of the changes only the first ones are listed. -/
def buildPackageChanges (maxPackagesListed : Nat) (headRows baseRows : List JobDrvRow) : Option (List PackageChange × Bool) :=
  (computePackageChanges parseJson headRows baseRows).map fun (changes, metadataAvailable) =>
    (changes.take maxPackagesListed, metadataAvailable)

/-- The summary and its report; `none` is a panic. -/
def buildChangeSummary (options : ChangeSummaryOptions) (context : SummaryContext) (headRows baseRows : List JobDrvRow) :
    Option (ChangeSummary × ChangeSummary.Rendering) := do
  let (packageChanges, metadataAvailable) ←
    if options.summaryEnabled then buildPackageChanges parseJson options.maxPackagesListed headRows baseRows
    else some ([], true)
  let summary : ChangeSummary :=
    ⟨context.headSha, context.baseSha, metadataAvailable, packageChanges, context.rebuildImpact⟩
  let rendering ← summary.render ⟨options.includeRebuildOnly, context.parseError⟩
  return (summary, rendering)

end Build

/-- The entry stands beside the primary one of its attribute. -/
def PackageChange.isFurther (change : PackageChange) : Bool := change.isLicenseChange || change.isMaintainerChange

/-- The entries of one attribute: none, or a primary one and then the others. -/
def PrimaryFirst (entries : List PackageChange) : Prop :=
  entries = [] ∨ ∃ primary further, entries = primary :: further ∧ primary.isFurther = false ∧
    ∀ change ∈ further, change.isFurther = true

/-- In the order of the attributes, the entries of an attribute together and the primary one first. -/
structure Canonical (changes : List PackageChange) : Prop where
  sorted : changes.Pairwise (·.attrPath ≤ ·.attrPath)
  adjacent : ∀ attr, changes.filter (·.attrPath = attr) <:+: changes
  primaryFirst : ∀ attr, PrimaryFirst (changes.filter (·.attrPath = attr))

/-- The heading and the table of these changes, up to the empty line behind it. -/
def packageTable (changes : List PackageChange) : String :=
  "### Packages changed (" ++ toString changes.length ++ ")\n\n" ++
    ("| Status | Package | Change |\n|--------|---------|--------|\n" ++
      String.join (changes.map fun change => ChangeSummary.renderPackageRow change ++ "\n") ++ "\n")

/-- A table has a row for each of the changes that is to be seen, in their order, and no other row. -/
def ListsInOrder (changes : List PackageChange) (rendering : ChangeSummary.Rendering) : Prop :=
  rendering.config.collapseTable = false →
    (packageTable (changes.filter (ChangeSummary.hasRow rendering.config))).toList <:+: rendering.text

/-- The last row of an attribute, which is the one that counts. -/
def rowOf (rows : List JobDrvRow) (attr : String) : Option JobDrvRow := findKey JobDrvRow.attrPath rows.reverse attr

/-- The attributes of the head come first and those that only the base has behind them, each in
their order, the entries of an attribute together and the primary one first. -/
structure Grouped (head : List JobDrvRow) (changes : List PackageChange) : Prop where
  sorted : ∃ ofHead removed, changes = ofHead ++ removed ∧
    ofHead.Pairwise (·.attrPath ≤ ·.attrPath) ∧ removed.Pairwise (·.attrPath ≤ ·.attrPath) ∧
    (∀ change ∈ ofHead, rowOf head change.attrPath ≠ none) ∧ ∀ change ∈ removed, rowOf head change.attrPath = none
  adjacent : ∀ attr, changes.filter (·.attrPath = attr) <:+: changes
  primaryFirst : ∀ attr, PrimaryFirst (changes.filter (·.attrPath = attr))

section Reports

variable (parseJson : String → Option Json) (order : List PackageChange → Prop)

/-- The entries have an order, the report keeps to it, and neither depends on the order of the rows. -/
structure Reports (head base : List JobDrvRow) : Prop where
  ordered : ∀ changes metadata, computePackageChanges parseJson head base = some (changes, metadata) → order changes
  listed : ∀ changes metadata, computePackageChanges parseJson head base = some (changes, metadata) →
    ∀ options context summary rendering, options.summaryEnabled = true →
      buildChangeSummary parseJson options context head base = some (summary, rendering) →
      summary.packageChanges = changes.take options.maxPackagesListed ∧ ListsInOrder summary.packageChanges rendering
  identical : (head.map JobDrvRow.attrPath).Nodup → (base.map JobDrvRow.attrPath).Nodup →
    ∀ head' base', head.Perm head' → base.Perm base' →
      computePackageChanges parseJson head' base' = computePackageChanges parseJson head base ∧
        ∀ options context, buildChangeSummary parseJson options context head' base' =
          buildChangeSummary parseJson options context head base

/-- The whole list is in the order of the attributes. -/
abbrev ReportsInOrder : List JobDrvRow → List JobDrvRow → Prop := Reports parseJson Canonical

end Reports

/-- The names that an attribute asks for can be taken apart. -/
def PairReadable : Option JobDrvRow → Option JobDrvRow → Prop
  | none, none => True
  | some row, none => row.Readable
  | none, some row => row.Readable
  | some head, some base => head.drvPath = base.drvPath ∨ head.Readable ∧ base.Readable

def RowsReadable (head base : List JobDrvRow) : Prop := ∀ attr, PairReadable (rowOf head attr) (rowOf base attr)

/-- The attribute is new, gone, or that of another derivation. -/
def Differs (head base : Option JobDrvRow) : Prop := head.map JobDrvRow.drvPath ≠ base.map JobDrvRow.drvPath

/-- An attribute that only the base has comes behind every one of the head that has entries. -/
def RemovedLast (head base : List JobDrvRow) : Prop :=
  ∀ attr removed, rowOf head attr ≠ none → Differs (rowOf head attr) (rowOf base attr) →
    rowOf head removed = none → rowOf base removed ≠ none → attr < removed

variable {parseJson : String → Option Json}

section Entries

variable {head base : Option JobDrvRow}

theorem isFurther_of_primary {head : JobDrvRow} {new old : PackageLabel} {change : PackageChange}
    (primary : Primary head new old change) : change.isFurther = false := by
  cases primary <;> rfl

theorem shape_of_entriesOf {entries : List PackageChange} (given : entriesOf parseJson head base = some entries) :
    PrimaryFirst entries ∧ (entries ≠ [] ↔ Differs head base) := by
  cases head with
  | none =>
    cases base with
    | none =>
      cases given
      exact ⟨.inl rfl, iff_of_false (fun none => none rfl) fun differs => differs rfl⟩
    | some base =>
      obtain ⟨pname, -, given⟩ := Option.bind_eq_some_iff.mp given
      obtain ⟨version, -, given⟩ := Option.bind_eq_some_iff.mp given
      cases given
      exact ⟨.inr ⟨_, [], rfl, rfl, nofun⟩, iff_of_true (List.cons_ne_nil _ _) nofun⟩
  | some head =>
    cases base with
    | none =>
      obtain ⟨pname, -, given⟩ := Option.bind_eq_some_iff.mp given
      obtain ⟨version, -, given⟩ := Option.bind_eq_some_iff.mp given
      cases given
      exact ⟨.inr ⟨_, [], rfl, rfl, nofun⟩, iff_of_true (List.cons_ne_nil _ _) nofun⟩
    | some base =>
      rw [entriesOf] at given
      split at given
      next same =>
        cases given
        exact ⟨.inl rfl, iff_of_false (fun none => none rfl) fun differs => differs (congrArg some same)⟩
      next other =>
        obtain ⟨new, old, now, before⟩ := classifyChanged_readAs given
        rw [classifyChanged_eq now before] at given
        cases given
        refine ⟨.inr ⟨_, _, rfl, isFurther_of_primary (primary_primaryChange head new old), fun change member => ?_⟩,
          iff_of_true (List.cons_ne_nil _ _) fun same => other (Option.some.inj same)⟩
        obtain ⟨pname, rfl | rfl⟩ := further_cases member <;> rfl

theorem exists_entriesOf_iff : (∃ entries, entriesOf parseJson head base = some entries) ↔ PairReadable head base := by
  have one {row : JobDrvRow} {entry : Option String → Option String → PackageChange} :
      (∃ entries, (row.pnameOrHeuristic.bind fun pname => row.versionOrHeuristic.bind fun version =>
        some [entry pname version]) = some entries) ↔ row.Readable := by
    rw [JobDrvRow.readable_iff]
    constructor
    · rintro ⟨entries, given⟩
      obtain ⟨pname, named, given⟩ := Option.bind_eq_some_iff.mp given
      obtain ⟨version, versioned, -⟩ := Option.bind_eq_some_iff.mp given
      exact ⟨pname, version, named, versioned⟩
    · rintro ⟨pname, version, named, versioned⟩
      exact ⟨_, by rw [named, Option.bind_some, versioned, Option.bind_some]⟩
  cases head with
  | none =>
    cases base with
    | none => exact iff_of_true ⟨[], rfl⟩ trivial
    | some base => exact one
  | some head =>
    cases base with
    | none => exact one
    | some base =>
      rw [entriesOf, PairReadable]
      by_cases same : head.drvPath = base.drvPath
      · rw [if_pos same]
        exact iff_of_true ⟨[], rfl⟩ (.inl same)
      · rw [if_neg same, ← exists_readAs, ← exists_readAs, or_iff_right same]
        constructor
        · rintro ⟨entries, given⟩
          obtain ⟨new, old, now, before⟩ := classifyChanged_readAs given
          exact ⟨⟨new, now⟩, old, before⟩
        · rintro ⟨⟨new, now⟩, old, before⟩
          exact ⟨_, classifyChanged_eq now before⟩

end Entries

section Loops

variable {head base : List JobDrvRow} {changes : List PackageChange} {metadata : Bool}

theorem findKey_current (rows : List JobDrvRow) (attr : String) :
    findKey JobDrvRow.attrPath (inKeyOrder JobDrvRow.attrPath rows) attr = rowOf rows attr :=
  findKey_inKeyOrder_reverse rows attr

theorem nodup_current (rows : List JobDrvRow) : ((inKeyOrder JobDrvRow.attrPath rows).map JobDrvRow.attrPath).Nodup :=
  nodup_inKeyOrder rows

theorem compute_current (head base : List JobDrvRow) :
    (computePackageChanges parseJson (inKeyOrder JobDrvRow.attrPath head) (inKeyOrder JobDrvRow.attrPath base)).map Prod.fst =
      (computePackageChanges parseJson head base).map Prod.fst := by
  rw [computePackageChanges, computePackageChanges, inKeyOrder_self, inKeyOrder_self]
  cases giveAll (headEntries parseJson (inKeyOrder JobDrvRow.attrPath base)) (inKeyOrder JobDrvRow.attrPath head) with
  | none => rfl
  | some fromHead =>
    cases giveAll (baseEntries (inKeyOrder JobDrvRow.attrPath head)) (inKeyOrder JobDrvRow.attrPath base) <;> rfl

theorem exists_compute_current (computed : computePackageChanges parseJson head base = some (changes, metadata)) :
    ∃ metadata', computePackageChanges parseJson (inKeyOrder JobDrvRow.attrPath head)
      (inKeyOrder JobDrvRow.attrPath base) = some (changes, metadata') := by
  have same := @compute_current parseJson head base
  rw [computed, Option.map_some] at same
  obtain ⟨⟨_, metadata'⟩, found, rfl⟩ := Option.map_eq_some_iff.mp same
  exact ⟨metadata', found⟩

theorem entriesOf_rowOf (computed : computePackageChanges parseJson head base = some (changes, metadata)) (attr : String) :
    entriesOf parseJson (rowOf head attr) (rowOf base attr) = some (changes.filter (·.attrPath = attr)) := by
  obtain ⟨metadata', current⟩ := exists_compute_current computed
  rw [← findKey_current, ← findKey_current]
  exact entriesOf_filter (nodup_current head) (nodup_current base) current attr

theorem computePackageChanges_isSome (head base : List JobDrvRow) :
    (computePackageChanges parseJson head base).isSome = true ↔ RowsReadable head base := by
  constructor
  · intro some_
    obtain ⟨⟨changes, metadata⟩, computed⟩ := Option.isSome_iff_exists.mp some_
    exact fun attr => exists_entriesOf_iff.mp ⟨_, entriesOf_rowOf computed attr⟩
  · intro readable
    obtain ⟨changes, computed⟩ := @compute_of_entries parseJson _ _ (nodup_current head) (nodup_current base)
      fun attr => by
        rw [findKey_current, findKey_current]
        exact exists_entriesOf_iff.mpr (readable attr)
    have same := @compute_current parseJson head base
    rw [computed, Option.map_some] at same
    rw [← Option.isSome_map, ← same]
    rfl

theorem exists_entry_iff (computed : computePackageChanges parseJson head base = some (changes, metadata)) (attr : String) :
    (∃ change ∈ changes, change.attrPath = attr) ↔ Differs (rowOf head attr) (rowOf base attr) := by
  rw [← (shape_of_entriesOf (entriesOf_rowOf computed attr)).2, ne_eq, List.filter_eq_nil_iff]
  simp

/-- The entries of the head come in the order of their attributes, and so do those of the base behind them. -/
theorem exists_split (computed : computePackageChanges parseJson head base = some (changes, metadata)) :
    ∃ ofHead ofBase, changes = ofHead ++ ofBase ∧
      ofHead.Pairwise (·.attrPath ≤ ·.attrPath) ∧ ofBase.Pairwise (·.attrPath ≤ ·.attrPath) ∧
      (∀ change ∈ ofHead, rowOf head change.attrPath ≠ none) ∧
        ∀ change ∈ ofBase, rowOf head change.attrPath = none := by
  obtain ⟨ofHead, first, computed⟩ := Option.bind_eq_some_iff.mp computed
  obtain ⟨ofBase, second, computed⟩ := Option.bind_eq_some_iff.mp computed
  cases computed
  obtain ⟨-, rfl⟩ := giveAll_eq_some first
  obtain ⟨-, rfl⟩ := giveAll_eq_some second
  refine ⟨_, _, rfl, pairwise_flatMap_key (pairwise_inKeyOrder head) fun _ _ _ => attrPath_of_mem_headEntries,
    pairwise_flatMap_key (pairwise_inKeyOrder base) fun _ _ _ => attrPath_of_mem_baseEntries,
    fun change member => ?_, fun change member => ?_⟩
  · obtain ⟨row, inside, given⟩ := List.mem_flatMap.mp member
    rw [attrPath_of_mem_headEntries given, ← findKey_current,
      (findKey_eq_some_iff (nodup_current head)).mpr ⟨inside, rfl⟩]
    exact Option.some_ne_none _
  · obtain ⟨row, inside, given⟩ := List.mem_flatMap.mp member
    rw [attrPath_of_mem_baseEntries given, ← findKey_current]
    cases found : findKey JobDrvRow.attrPath (inKeyOrder JobDrvRow.attrPath head) row.attrPath with
    | none => rfl
    | some other =>
      rw [baseEntries, found] at given
      cases given

/-- Behind the entries of the head, those of the removed attributes keep the order exactly if none of them is before one. -/
theorem sorted_iff (computed : computePackageChanges parseJson head base = some (changes, metadata)) :
    changes.Pairwise (·.attrPath ≤ ·.attrPath) ↔ RemovedLast head base := by
  have entry := exists_entry_iff computed
  obtain ⟨ofHead, ofBase, rfl, sorted, sorted', present, absent⟩ := exists_split computed
  rw [List.pairwise_append, and_iff_right sorted, and_iff_right sorted']
  constructor
  · intro ordered attr removed inHead differs notInHead inBase
    obtain ⟨change, member, rfl⟩ := (entry attr).mpr differs
    obtain ⟨other, member', rfl⟩ := (entry removed).mpr fun same => by
      rw [notInHead, Option.map_none, eq_comm, Option.map_eq_none_iff] at same
      exact inBase same
    have first : change ∈ ofHead := (List.mem_append.mp member).resolve_right fun later => inHead (absent change later)
    have second : other ∈ ofBase := (List.mem_append.mp member').resolve_left fun early => present other early notInHead
    refine lt_of_le_of_ne (ordered change first other second) fun same => inHead ?_
    rw [same]
    exact notInHead
  · intro last change first other second
    have differs := (entry change.attrPath).mp ⟨change, List.mem_append_left _ first, rfl⟩
    have gone := absent other second
    have differs' := (entry other.attrPath).mp ⟨other, List.mem_append_right _ second, rfl⟩
    have inBase : rowOf base other.attrPath ≠ none := by
      intro none
      rw [Differs, gone, none] at differs'
      exact differs' rfl
    exact (last change.attrPath other.attrPath (present change first) differs gone inBase).le

theorem grouped (computed : computePackageChanges parseJson head base = some (changes, metadata)) : Grouped head changes := by
  have primaryFirst := fun attr => (shape_of_entriesOf (entriesOf_rowOf computed attr)).1
  obtain ⟨ofHead, removed, rfl, sorted, sorted', present, absent⟩ := exists_split computed
  refine ⟨⟨ofHead, removed, rfl, sorted, sorted', present, absent⟩, fun attr => ?_, primaryFirst⟩
  rw [List.filter_append]
  by_cases held : rowOf head attr = none
  · have none : ofHead.filter (·.attrPath = attr) = [] := by
      refine List.filter_eq_nil_iff.mpr fun change member named => present change member ?_
      rw [of_decide_eq_true named]
      exact held
    rw [none, List.nil_append]
    exact (filter_infix_of_pairwise sorted' attr).trans (List.suffix_append ofHead removed).isInfix
  · have none : removed.filter (·.attrPath = attr) = [] := by
      refine List.filter_eq_nil_iff.mpr fun change member named => held ?_
      rw [← of_decide_eq_true named]
      exact absent change member
    rw [none, List.append_nil]
    exact (filter_infix_of_pairwise sorted attr).trans (List.prefix_append ofHead removed).isInfix

theorem canonical_iff (computed : computePackageChanges parseJson head base = some (changes, metadata)) :
    Canonical changes ↔ RemovedLast head base := by
  rw [← sorted_iff computed]
  constructor
  · exact Canonical.sorted
  · exact fun sorted => ⟨sorted, filter_infix_of_pairwise sorted,
      fun attr => (shape_of_entriesOf (entriesOf_rowOf computed attr)).1⟩

end Loops

namespace ChangeSummary

section Table

variable {summary : ChangeSummary} {options : RenderOptions} {config : RenderConfig} {truncation : RenderTruncation}

theorem totalVisible_eq (tabled : config.collapseTable = false) (changes : List PackageChange) :
    (ChangeCounts.fromChanges changes).totalVisible config = (changes.filter (hasRow config)).length := by
  rw [ChangeCounts.totalVisible, if_neg (by simp [tabled]), ← List.countP_eq_length_filter]
  induction changes with
  | nil => cases config.includeLicense <;> cases config.includeMaintainers <;> rfl
  | cons change rest ih =>
    rw [List.countP_cons, ← ih]
    cases change with
    | licenseChange =>
      cases license : config.includeLicense
      all_goals
        simp [ChangeCounts.fromChanges, PackageChange.isLicenseChange, PackageChange.isMaintainerChange, List.countP_cons,
          hasRow, license]
      omega
    | maintainerChange =>
      cases maintainers : config.includeMaintainers
      all_goals
        simp [ChangeCounts.fromChanges, PackageChange.isLicenseChange, PackageChange.isMaintainerChange, List.countP_cons,
          hasRow, maintainers]
      omega
    | rebuildOnly =>
      simp [ChangeCounts.fromChanges, PackageChange.isLicenseChange, PackageChange.isMaintainerChange, List.countP_cons, hasRow]
    | _ =>
      simp [ChangeCounts.fromChanges, PackageChange.isLicenseChange, PackageChange.isMaintainerChange, List.countP_cons, hasRow]
      omega

theorem packagesSection_of_table (tabled : config.collapseTable = false) :
    ∃ back, summary.packagesSection config ++ "\n" = packageTable (summary.packageChanges.filter (hasRow config)) ++ back := by
  have off : ¬ config.collapseTable = true := by simp [tabled]
  unfold packagesSection
  dsimp only
  rw [if_neg off, tableRows, if_neg off, totalVisible_eq tabled]
  unfold packageTable
  split
  · have line : "\n**Plus " = "\n" ++ "**Plus " := rfl
    rw [line]
    simp only [String.append_assoc]
    exact ⟨_, rfl⟩
  · refine ⟨"", ?_⟩
    simp only [String.append_assoc, String.append_empty]

theorem infix_of_part (front part back middle last : String) :
    part.toList <:+: (front ++ (part ++ back) ++ middle ++ last).toList := by
  simp only [String.toList_append, List.append_assoc]
  exact List.infix_append' _ _ _

theorem packageTable_infix_renderWithConfig (tabled : config.collapseTable = false) {text : List Char}
    (made : summary.renderWithConfig config truncation options = some text) :
    (packageTable (summary.packageChanges.filter (hasRow config))).toList <:+: text := by
  obtain ⟨banner, -, made⟩ := Option.bind_eq_some_iff.mp made
  obtain ⟨head, -, made⟩ := Option.bind_eq_some_iff.mp made
  obtain ⟨base, -, made⟩ := Option.bind_eq_some_iff.mp made
  obtain ⟨back, whole⟩ := @packagesSection_of_table summary config tabled
  cases made
  rw [@String.append_assoc _ (summary.packagesSection config), whole]
  exact infix_of_part _ _ _ _ _

theorem of_tryPass {next : Option Rendering} {rendering : Rendering}
    (made : tryPass summary options config truncation next = some rendering) :
    summary.renderWithConfig rendering.config rendering.truncation options = some rendering.text ∨ next = some rendering := by
  obtain ⟨text, found, made⟩ := Option.bind_eq_some_iff.mp made
  split at made
  · cases made
    exact .inl found
  · exact .inr made

theorem render_of_table {rendering : Rendering} (made : summary.render options = some rendering)
    (tabled : rendering.config.collapseTable = false) :
    summary.renderWithConfig rendering.config rendering.truncation options = some rendering.text := by
  rcases of_tryPass made with found | made
  · exact found
  rcases of_tryPass made with found | made
  · exact found
  rcases of_tryPass made with found | made
  · exact found
  rcases of_tryPass made with found | made
  · exact found
  obtain ⟨text, -, rfl⟩ := Option.map_eq_some_iff.mp made
  cases tabled

theorem listsInOrder_render {rendering : Rendering} (made : summary.render options = some rendering) :
    ListsInOrder summary.packageChanges rendering :=
  fun tabled => packageTable_infix_renderWithConfig tabled (render_of_table made tabled)

end Table

end ChangeSummary

section Reports

variable {head base : List JobDrvRow}

theorem summary_of_build {options : ChangeSummaryOptions} {context : SummaryContext} {summary : ChangeSummary}
    {rendering : ChangeSummary.Rendering} {changes : List PackageChange} {metadata : Bool}
    (computed : computePackageChanges parseJson head base = some (changes, metadata)) (enabled : options.summaryEnabled = true)
    (built : buildChangeSummary parseJson options context head base = some (summary, rendering)) :
    summary.packageChanges = changes.take options.maxPackagesListed ∧
      summary.render ⟨options.includeRebuildOnly, context.parseError⟩ = some rendering := by
  rw [buildChangeSummary, if_pos enabled, buildPackageChanges, computed] at built
  obtain ⟨listed, same, built⟩ := Option.bind_eq_some_iff.mp built
  cases same
  obtain ⟨rendered, made, built⟩ := Option.bind_eq_some_iff.mp built
  cases built
  exact ⟨rfl, made⟩

theorem reports_of_ordered {order : List PackageChange → Prop}
    (ordered : ∀ changes metadata, computePackageChanges parseJson head base = some (changes, metadata) → order changes) :
    Reports parseJson order head base where
  ordered := ordered
  listed := by
    intro changes metadata computed options context summary rendering enabled built
    obtain ⟨listed, made⟩ := summary_of_build computed enabled built
    exact ⟨listed, ChangeSummary.listsInOrder_render made⟩
  identical := by
    intro unique unique' head' base' heads bases
    have same : computePackageChanges parseJson head' base' = computePackageChanges parseJson head base :=
      computePackageChanges_of_perm unique unique' heads bases
    refine ⟨same, fun options context => ?_⟩
    rw [buildChangeSummary, buildChangeSummary, buildPackageChanges, buildPackageChanges, same]

theorem reportsInOrder_iff : ReportsInOrder parseJson head base ↔ (RowsReadable head base → RemovedLast head base) := by
  constructor
  · intro reports readable
    have returns : (computePackageChanges parseJson head base).isSome = true :=
      (computePackageChanges_isSome head base).mpr readable
    obtain ⟨⟨changes, metadata⟩, computed⟩ := Option.isSome_iff_exists.mp returns
    exact (canonical_iff computed).mp (reports.ordered changes metadata computed)
  · refine fun last => reports_of_ordered fun changes metadata computed => ?_
    exact (canonical_iff computed).mpr (last ((computePackageChanges_isSome head base).mp (by rw [computed]; rfl)))

/-- The changes and the report have the order of the two groups, and are sorted as a whole
exactly if the removed attributes are the last ones. -/
theorem reports_grouped (parseJson : String → Option Json) (head base : List JobDrvRow) :
    Reports parseJson (Grouped head) head base ∧
      (ReportsInOrder parseJson head base ↔ (RowsReadable head base → RemovedLast head base)) :=
  ⟨reports_of_ordered fun _ _ computed => grouped computed, reportsInOrder_iff⟩

end Reports

/-- The package `goodbye` gives way to the package `hello`. -/
def goodbyeBase : JobDrvRow :=
  { helloHead with
    attrPath := "goodbye"
    drvPath := ⟨"22222222222222222222222222222222-goodbye-1.0.drv", by decide⟩
    name := "goodbye-1.0" }

theorem replaced_not_reportsInOrder : ¬ ∀ (parseJson : String → Option Json) (head base : List JobDrvRow),
    ReportsInOrder parseJson head base := by
  intro claimed
  have computed : computePackageChanges parseMit [helloHead] [goodbyeBase] = some
      ([.added "hello" (some "hello") (some "2.13") helloHead.drvPath,
        .removed "goodbye" (some "goodbye") (some "1.0")], false) := by
    have single (row : JobDrvRow) : inKeyOrder JobDrvRow.attrPath [row] = [row] := List.mergeSort_singleton row
    rw [computePackageChanges, single, single]
    decide
  have sorted := ((claimed parseMit [helloHead] [goodbyeBase]).ordered _ _ computed).sorted
  revert sorted
  decide

end EkaCI
