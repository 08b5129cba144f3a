import EkaCI.Jobs.PackageChanges
import EkaCI.Jobs.RebuildImpact
import EkaCI.Lib.ByteSlices

/-! The report on a commit that is posted with a check run. It leaves out more and more until it is
short enough. -/

namespace EkaCI

open Lib

/-- In bytes, as the other limits. -/
def githubCheckSummarySoftLimit : Nat := 60000

def githubCheckSummaryHardLimit : Nat := 65535

structure ChangeSummaryRebuildImpact where
  perSystem : List PerSystemImpact
  totalUniqueDrvs : Nat

/-- What the report is made from. -/
structure ChangeSummary where
  headSha : String
  baseSha : String
  metadataAvailable : Bool
  packageChanges : List PackageChange
  rebuildImpact : ChangeSummaryRebuildImpact

/-- What was left out. -/
structure RenderTruncation where
  droppedMaintainers : Bool := false
  droppedLicense : Bool := false
  droppedRebuildOnly : Bool := false
  collapsedToCounts : Bool := false

def RenderTruncation.any (truncation : RenderTruncation) : Bool :=
  truncation.droppedMaintainers || truncation.droppedLicense || truncation.droppedRebuildOnly || truncation.collapsedToCounts

structure RenderOptions where
  includeRebuildOnly : Bool
  configLoadError : Option String

structure RenderConfig where
  includeMaintainers : Bool := true
  includeLicense : Bool := true
  includeRebuildOnlyLine : Bool := true
  collapseTable : Bool := false

namespace PackageChange

def isMaintainerChange : PackageChange → Bool
  | .maintainerChange .. => true
  | _ => false

def isLicenseChange : PackageChange → Bool
  | .licenseChange .. => true
  | _ => false

def isRebuildOnly : PackageChange → Bool
  | .rebuildOnly .. => true
  | _ => false

/-- The change has a row whatever is left out, as long as there is a table. -/
def isPrimary (change : PackageChange) : Bool :=
  !(change.isMaintainerChange || change.isLicenseChange || change.isRebuildOnly)

end PackageChange

namespace ChangeSummary

def formatStrList (items : List String) : String := if items.isEmpty then "(none)" else ", ".intercalate items

def formatMaintainerDiff (added removed : List String) : String :=
  let parts := added.map ("+" ++ ·) ++ removed.map ("-" ++ ·)
  if parts.isEmpty then "(no change)" else ", ".intercalate parts

def renderPackageRow : PackageChange → String
  | .added attrPath pname version _ => "| Added | `" ++ pname.getD attrPath ++ "` | " ++ version.getD "(no version)" ++ " |"
  | .removed attrPath pname version => "| Removed | `" ++ pname.getD attrPath ++ "` | (was " ++ version.getD "?" ++ ") |"
  | .versionBump _ pname old new _ => "| Bump | `" ++ pname ++ "` | " ++ old ++ " → " ++ new ++ " |"
  | .renamed _ pnameOld pnameNew version _ =>
    "| Renamed | `" ++ pnameOld ++ " → " ++ pnameNew ++ "` | " ++ version.getD "?" ++ " |"
  | .rebuildOnly .. => ""
  | .licenseChange _ pname old new _ =>
    "| License | `" ++ pname ++ "` | " ++ formatStrList old ++ " → " ++ formatStrList new ++ " |"
  | .maintainerChange _ pname added removed _ =>
    "| Maintainers | `" ++ pname ++ "` | " ++ formatMaintainerDiff added removed ++ " |"

def hasRow (config : RenderConfig) (change : PackageChange) : Bool :=
  match change with
  | .rebuildOnly .. => false
  | .licenseChange .. => config.includeLicense
  | .maintainerChange .. => config.includeMaintainers
  | _ => true

def tableRows (config : RenderConfig) (changes : List PackageChange) : List PackageChange :=
  if config.collapseTable then [] else changes.filter (hasRow config)

def plural (count : Nat) : String := if count = 1 then "" else "s"

structure ChangeCounts where
  added : Nat
  removed : Nat
  bumped : Nat
  renamed : Nat
  rebuildOnly : Nat
  license : Nat
  maintainers : Nat

def ChangeCounts.fromChanges (changes : List PackageChange) : ChangeCounts where
  added := changes.countP fun | .added .. => true | _ => false
  removed := changes.countP fun | .removed .. => true | _ => false
  bumped := changes.countP fun | .versionBump .. => true | _ => false
  renamed := changes.countP fun | .renamed .. => true | _ => false
  rebuildOnly := changes.countP PackageChange.isRebuildOnly
  license := changes.countP PackageChange.isLicenseChange
  maintainers := changes.countP PackageChange.isMaintainerChange

namespace ChangeCounts

variable (counts : ChangeCounts)

/-- A collapsed table counts the same changes whatever else is left out. -/
def totalVisible (config : RenderConfig) : Nat :=
  let primary := counts.added + counts.removed + counts.bumped + counts.renamed
  if config.collapseTable then primary
  else
    primary + (if config.includeLicense then counts.license else 0) +
      (if config.includeMaintainers then counts.maintainers else 0)

def summaryLine : String :=
  let pieces := ([(counts.bumped, "bump"), (counts.added, "added"), (counts.removed, "removed"), (counts.renamed, "renamed"),
    (counts.license, "license change"), (counts.maintainers, "maintainer change")].filter fun part => 0 < part.1).map
      fun part => toString part.1 ++ " " ++ part.2 ++ plural part.1
  if pieces.isEmpty then "no source changes" else ", ".intercalate pieces

end ChangeCounts

def rebuildOnlyLine (config : RenderConfig) (counts : ChangeCounts) : Bool :=
  config.includeRebuildOnlyLine && decide (0 < counts.rebuildOnly)

def packagesSection (summary : ChangeSummary) (config : RenderConfig) : String :=
  let counts := ChangeCounts.fromChanges summary.packageChanges
  "### Packages changed (" ++ toString (counts.totalVisible config) ++ ")\n\n" ++
    if config.collapseTable then
      "**Summary:** " ++ counts.summaryLine ++ "\n" ++
        if rebuildOnlyLine config counts then
          "\n_" ++ toString counts.rebuildOnly ++ " packages will rebuild without source changes._\n"
        else ""
    else
      "| Status | Package | Change |\n|--------|---------|--------|\n" ++
        String.join ((tableRows config summary.packageChanges).map fun change => renderPackageRow change ++ "\n") ++
        if rebuildOnlyLine config counts then
          "\n**Plus " ++ toString counts.rebuildOnly ++ " package" ++ plural counts.rebuildOnly ++
            " will rebuild without source changes.**\n"
        else ""

/-- `trim_end_matches`, on the text from its end. -/
def trimDrv : List Char → List Char
  | 'v' :: 'r' :: 'd' :: '.' :: rest => trimDrv rest
  | text => text

def extractPnameFromDrv (drvPath : List Char) : List Char :=
  let file := match rsplitOnce '/' drvPath with
    | some (_, file) => file
    | none => drvPath
  let stem := (trimDrv file.reverse).reverse
  match splitOnce '-' stem with
  | some (_, rest) => if rest ≠ [] then rest else stem
  | none => stem

def formatBlastEntry (entry : TopBlastRadiusEntry) : String :=
  let label := entry.pname.getD (String.ofList (extractPnameFromDrv entry.drvPath.text.toList))
  "`" ++ label ++ "` (" ++ toString entry.blastRadius ++ ")"

def renderTopBlastRadius (impact : PerSystemImpact) : String :=
  if impact.topBlastRadius.isEmpty then "_(none)_" else ", ".intercalate (impact.topBlastRadius.map formatBlastEntry)

def impactSection (impact : ChangeSummaryRebuildImpact) : String :=
  "### Rebuild impact\n\n" ++
    if impact.perSystem.isEmpty then "_No rebuild impact computed for this commit._\n"
    else
      "| System | Rebuilds | Top blast radius |\n|--------|----------|------------------|\n" ++
        String.join (impact.perSystem.map fun system =>
          "| `" ++ system.system ++ "` | " ++ toString system.rebuildCount ++ " | " ++ renderTopBlastRadius system ++ " |\n") ++
        "\n**Total unique drvs that would rebuild somewhere:** " ++ toString impact.totalUniqueDrvs ++ "\n"

def truncationFooter (truncation : RenderTruncation) (headSha : String) : String :=
  let dropped := ([(truncation.droppedMaintainers, "maintainer changes"), (truncation.droppedLicense, "license changes"),
    (truncation.droppedRebuildOnly, "rebuild-only count"), (truncation.collapsedToCounts, "per-package table")].filter
      fun part => part.1).map Prod.snd
  "---\n\n_⚠ Output truncated to fit GitHub's check-summary limit._" ++
    (if dropped.isEmpty then "" else " Dropped: " ++ ", ".intercalate dropped ++ ".") ++
    " Full payload: `/v1/commits/" ++ headSha ++ "/change-summary`.\n"

/-- The front of a text that is longer; it panics inside a character. -/
def sliceLonger (limit : Nat) (text : String) : Option String :=
  if limit < byteLen text.toList then (sliceTo limit text.toList).map String.ofList else some text

def shortSha (sha : String) : Option String := sliceLonger 12 sha

def maxErrorLen : Nat := 200

def errorBanner : Option String → Option String
  | none => some ""
  | some error => (sliceLonger maxErrorLen error).map fun front =>
      "> ⚠ `.ekaci/config.json` failed to parse — using defaults. Error: " ++ front ++
        (if maxErrorLen < byteLen error.toList then "…" else "") ++ "\n\n"

def renderWithConfig (summary : ChangeSummary) (config : RenderConfig) (truncation : RenderTruncation)
    (options : RenderOptions) : Option (List Char) := do
  let banner ← errorBanner options.configLoadError
  let head ← shortSha summary.headSha
  let base ← shortSha summary.baseSha
  let title := "## Change summary for `" ++ head ++ "` ← `" ++ base ++ "`\n\n"
  let warning :=
    if summary.metadataAvailable then ""
    else "> ⚠ Package metadata unavailable for this commit (eval failed); package names below " ++
      "are best-effort heuristics from drv paths.\n\n"
  let footer := if truncation.any then "\n" ++ truncationFooter truncation summary.headSha else ""
  return (banner ++ title ++ warning ++ packagesSection summary config ++ "\n" ++ impactSection summary.rebuildImpact ++
    footer).toList

/-- The last position up to the limit that is not inside a character. -/
def floorBoundary (text : List Char) : Nat → Nat
  | 0 => 0
  | cut + 1 => if (sliceTo (cut + 1) text).isSome then cut + 1 else floorBoundary text cut

/-- The text up to the limit, and a mark. -/
def cutOff (text : List Char) (limit : Nat) (marker : List Char) : List Char :=
  (sliceTo (floorBoundary text limit) text).getD [] ++ marker

def hardTruncateMarker : List Char := "\n\n_…(truncated, full payload via API)_\n".toList

def hardTruncate (text : List Char) (limit : Nat) : List Char :=
  if byteLen text ≤ limit then text else cutOff text (limit - byteLen hardTruncateMarker) hardTruncateMarker

/-- A report, and with what it was made. -/
structure Rendering where
  text : List Char
  truncation : RenderTruncation
  config : RenderConfig

/-- A pass whose result is too long is followed by the next one. -/
def tryPass (summary : ChangeSummary) (options : RenderOptions) (config : RenderConfig) (truncation : RenderTruncation)
    (next : Option Rendering) : Option Rendering :=
  (summary.renderWithConfig config truncation options).bind fun text =>
    if byteLen text ≤ githubCheckSummarySoftLimit then some ⟨text, truncation, config⟩ else next

def collapsedPass (summary : ChangeSummary) (options : RenderOptions) (config : RenderConfig) (truncation : RenderTruncation) :
    Option Rendering :=
  (summary.renderWithConfig config truncation options).map fun text =>
    ⟨if byteLen text ≤ githubCheckSummaryHardLimit then text else hardTruncate text githubCheckSummaryHardLimit,
      truncation, config⟩

/-- What has been left out before each of the five passes. -/
def truncations (options : RenderOptions) : Fin 5 → RenderTruncation
  | 0 => {}
  | 1 => { droppedMaintainers := true }
  | 2 => { droppedMaintainers := true, droppedLicense := true }
  | 3 => { droppedMaintainers := true, droppedLicense := true, droppedRebuildOnly := options.includeRebuildOnly }
  | 4 => { droppedMaintainers := true, droppedLicense := true, droppedRebuildOnly := options.includeRebuildOnly,
           collapsedToCounts := true }

def configs (options : RenderOptions) : Fin 5 → RenderConfig
  | 0 => { includeRebuildOnlyLine := options.includeRebuildOnly }
  | 1 => { includeMaintainers := false, includeRebuildOnlyLine := options.includeRebuildOnly }
  | 2 => { includeMaintainers := false, includeLicense := false, includeRebuildOnlyLine := options.includeRebuildOnly }
  | 3 => { includeMaintainers := false, includeLicense := false, includeRebuildOnlyLine := false }
  | 4 => { includeMaintainers := false, includeLicense := false, includeRebuildOnlyLine := false, collapseTable := true }

def pass (summary : ChangeSummary) (options : RenderOptions) (number : Fin 5) : Option (List Char) :=
  summary.renderWithConfig (configs options number) (truncations options number) options

def render (summary : ChangeSummary) (options : RenderOptions) : Option Rendering :=
  tryPass summary options (configs options 0) (truncations options 0) <|
    tryPass summary options (configs options 1) (truncations options 1) <|
      tryPass summary options (configs options 2) (truncations options 2) <|
        tryPass summary options (configs options 3) (truncations options 3) <|
          collapsedPass summary options (configs options 4) (truncations options 4)

def changeSummaryHardCap : Nat := 65500

def capMarker : List Char := "\n\n_…truncated by sender safety net_\n".toList

def capSummaryBytes (text : List Char) : List Char :=
  if byteLen text ≤ changeSummaryHardCap then text else cutOff text changeSummaryHardCap capMarker

/-- A row of the full table that is none of the table that is posted. -/
def LeftOut (summary : ChangeSummary) (options : RenderOptions) (config : RenderConfig) (kind : PackageChange → Bool) : Prop :=
  ∃ change ∈ tableRows (configs options 0) summary.packageChanges, kind change = true ∧
    change ∉ tableRows config summary.packageChanges

structure Tells (summary : ChangeSummary) (options : RenderOptions) (rendering : Rendering) : Prop where
  maintainers : rendering.truncation.droppedMaintainers = true ↔
    summary.LeftOut options rendering.config PackageChange.isMaintainerChange
  license : rendering.truncation.droppedLicense = true ↔ summary.LeftOut options rendering.config PackageChange.isLicenseChange
  rebuildOnly : rendering.truncation.droppedRebuildOnly = true ↔
    rebuildOnlyLine (configs options 0) (.fromChanges summary.packageChanges) = true ∧
      rebuildOnlyLine rendering.config (.fromChanges summary.packageChanges) = false
  collapsed : rendering.truncation.collapsedToCounts = true ↔
    summary.LeftOut options rendering.config PackageChange.isPrimary

/-- The report is made, fits, tells what it leaves out, and leaves nothing out that has room. -/
structure Posts (summary : ChangeSummary) (options : RenderOptions) : Prop where
  returns : summary.render options ≠ none
  fits : ∀ rendering, summary.render options = some rendering →
    byteLen (capSummaryBytes rendering.text) ≤ githubCheckSummaryHardLimit
  tells : ∀ rendering, summary.render options = some rendering → summary.Tells options rendering
  whole : ∀ full, summary.pass options 0 = some full → byteLen full ≤ githubCheckSummarySoftLimit →
    summary.render options = some ⟨full, {}, configs options 0⟩

/-- The text is not longer, or the limit is not inside a character. -/
def Sliceable (limit : Nat) (text : String) : Prop :=
  byteLen text.toList ≤ limit ∨ ∃ front rest, text.toList = front ++ rest ∧ byteLen front = limit

/-- The pass is too long for the soft limit. -/
def Overflows (summary : ChangeSummary) (options : RenderOptions) (number : Fin 5) : Prop :=
  ∃ text, summary.pass options number = some text ∧ githubCheckSummarySoftLimit < byteLen text

def has (summary : ChangeSummary) (kind : PackageChange → Bool) : Prop := ∃ change ∈ summary.packageChanges, kind change = true

/-- The collapsed report is as short as the cap, or the cap cuts it in front of a character of four
bytes that leaves room for the mark. -/
def CapFits (text : List Char) : Prop :=
  byteLen text ≤ changeSummaryHardCap ∨ byteLen text ≤ githubCheckSummaryHardLimit ∧
    ∃ front c rest, text = front ++ c :: rest ∧ byteLen front = changeSummaryHardCap - 3 ∧ c.utf8Size = 4

/-- The texts can be cut where they are cut, every pass that is too long is followed by one that has
something to leave out, and the last one is not cut at the cap. -/
structure Modest (summary : ChangeSummary) (options : RenderOptions) : Prop where
  head : Sliceable 12 summary.headSha
  base : Sliceable 12 summary.baseSha
  error : ∀ text, options.configLoadError = some text → Sliceable maxErrorLen text
  maintainers : summary.Overflows options 0 → summary.has PackageChange.isMaintainerChange
  license : summary.Overflows options 0 → summary.Overflows options 1 → summary.has PackageChange.isLicenseChange
  rebuildOnly : summary.Overflows options 0 → summary.Overflows options 1 → summary.Overflows options 2 →
    options.includeRebuildOnly = true → summary.has PackageChange.isRebuildOnly
  primary : summary.Overflows options 0 → summary.Overflows options 1 → summary.Overflows options 2 →
    summary.Overflows options 3 → summary.has PackageChange.isPrimary
  collapsed : summary.Overflows options 0 → summary.Overflows options 1 → summary.Overflows options 2 →
    summary.Overflows options 3 → ∀ text, summary.pass options 4 = some text → CapFits text

theorem floorBoundary_spec (text : List Char) (limit : Nat) : ∃ front rest, text = front ++ rest ∧
    byteLen front = floorBoundary text limit ∧ floorBoundary text limit ≤ limit ∧
      (limit < byteLen text → ∃ c others, rest = c :: others ∧ limit < floorBoundary text limit + c.utf8Size) := by
  induction limit with
  | zero =>
    refine ⟨[], text, rfl, rfl, Nat.le_refl 0, fun longer => ?_⟩
    cases text with
    | nil => exact absurd longer (Nat.lt_irrefl 0)
    | cons c others => exact ⟨c, others, rfl, Nat.lt_of_lt_of_le c.utf8Size_pos (Nat.le_add_left _ _)⟩
  | succ limit ih =>
    rw [floorBoundary]
    split
    next inside =>
      obtain ⟨front, found⟩ := Option.isSome_iff_exists.mp inside
      obtain ⟨rest, split, length⟩ := sliceTo_eq_some_iff.mp found
      refine ⟨front, rest, split, length, Nat.le_refl _, fun longer => ?_⟩
      cases rest with
      | nil =>
        rw [split, List.append_nil, length] at longer
        exact absurd longer (Nat.lt_irrefl _)
      | cons c others => exact ⟨c, others, rfl, Nat.lt_add_of_pos_right c.utf8Size_pos⟩
    next outside =>
      obtain ⟨front, rest, split, length, within, after⟩ := ih
      refine ⟨front, rest, split, length, Nat.le_succ_of_le within, fun longer => ?_⟩
      obtain ⟨c, others, same, beyond⟩ := after (Nat.lt_of_succ_lt longer)
      refine ⟨c, others, same, Nat.lt_of_le_of_ne beyond fun here => outside ?_⟩
      have whole : text = (front ++ [c]) ++ others := by rw [split, same, List.append_assoc, List.singleton_append]
      have cut : byteLen (front ++ [c]) = limit + 1 := by
        rw [byteLen_append, byteLen_cons, byteLen_nil, length, Nat.add_zero]
        exact here.symm
      rw [Option.isSome_iff_exists]
      exact ⟨front ++ [c], sliceTo_eq_some_iff.mpr ⟨others, whole, cut⟩⟩

variable {text : List Char} {config : RenderConfig} {number : Fin 5}

theorem floorBoundary_of_isSome {limit : Nat} (inside : (sliceTo limit text).isSome = true) :
    floorBoundary text limit = limit := by
  cases limit with
  | zero => rfl
  | succ limit => rw [floorBoundary, if_pos inside]

theorem cutOff_spec (text : List Char) (limit : Nat) (marker : List Char) : ∃ front rest, text = front ++ rest ∧
    cutOff text limit marker = front ++ marker ∧ byteLen front = floorBoundary text limit ∧ byteLen front ≤ limit ∧
      (limit < byteLen text → ∃ c others, rest = c :: others ∧ limit < byteLen front + c.utf8Size) := by
  obtain ⟨front, rest, split, length, within, after⟩ := floorBoundary_spec text limit
  refine ⟨front, rest, split, ?_, length, length ▸ within, length ▸ after⟩
  rw [cutOff, sliceTo_eq_some_iff.mpr ⟨rest, split, length⟩, Option.getD_some]

theorem utf8Size_le_of_lt {front rest before others : List Char} {c : Char} (same : front ++ rest = before ++ c :: others)
    (longer : byteLen before < byteLen front) : byteLen before + c.utf8Size ≤ byteLen front := by
  rcases List.append_eq_append_iff.mp same with ⟨middle, left, -⟩ | ⟨middle, left, right⟩
  · rw [left, byteLen_append] at longer
    omega
  · rw [left, byteLen_append] at longer ⊢
    cases middle with
    | nil => exact absurd longer (Nat.lt_irrefl _)
    | cons first more =>
      obtain ⟨rfl, -⟩ := List.cons.inj right
      rw [byteLen_cons]
      omega

theorem byteLen_hardTruncateMarker : byteLen hardTruncateMarker = 41 := by decide

theorem byteLen_capMarker : byteLen capMarker = 38 := by decide

/-- The mark is longer than what the cap leaves below the limit, unless the cap falls on the last
byte of a character of four. -/
theorem cap_of_between (long : changeSummaryHardCap < byteLen text) :
    byteLen (capSummaryBytes text) ≤ githubCheckSummaryHardLimit ↔
      ∃ front c rest, text = front ++ c :: rest ∧ byteLen front = changeSummaryHardCap - 3 ∧ c.utf8Size = 4 := by
  obtain ⟨front, rest, split, cut, -, within, after⟩ := cutOff_spec text changeSummaryHardCap capMarker
  obtain ⟨c, others, rfl, beyond⟩ := after long
  have narrow := c.utf8Size_le_four
  rw [capSummaryBytes, if_neg (Nat.not_le.mpr long), cut, byteLen_append, byteLen_capMarker]
  rw [changeSummaryHardCap] at within beyond ⊢
  rw [githubCheckSummaryHardLimit]
  constructor
  · intro fits
    exact ⟨front, c, others, split, by omega, by omega⟩
  · rintro ⟨before, d, more, whole, length, four⟩
    by_contra longer
    have inside := utf8Size_le_of_lt (split.symm.trans whole) (by omega)
    omega

theorem cap_of_hardTruncate (long : githubCheckSummaryHardLimit < byteLen text) :
    ¬ byteLen (capSummaryBytes (hardTruncate text githubCheckSummaryHardLimit)) ≤ githubCheckSummaryHardLimit := by
  obtain ⟨front, rest, split, cut, -, within, after⟩ :=
    cutOff_spec text (githubCheckSummaryHardLimit - byteLen hardTruncateMarker) hardTruncateMarker
  obtain ⟨c, others, rfl, beyond⟩ := after (Nat.lt_of_le_of_lt (Nat.sub_le _ _) long)
  have narrow := c.utf8Size_le_four
  rw [byteLen_hardTruncateMarker, githubCheckSummaryHardLimit] at within beyond
  have total : byteLen (front ++ hardTruncateMarker) = byteLen front + 41 := by
    rw [byteLen_append, byteLen_hardTruncateMarker]
  have inside : (sliceTo changeSummaryHardCap (front ++ hardTruncateMarker)).isSome = true := by
    have at_ (count : Nat) (here : byteLen front + byteLen (hardTruncateMarker.take count) = changeSummaryHardCap) :
        (sliceTo changeSummaryHardCap (front ++ hardTruncateMarker)).isSome = true := by
      rw [← here, ← byteLen_append, ← List.take_append_drop count hardTruncateMarker, ← List.append_assoc,
        List.take_append_drop, sliceTo_append]
      rfl
    have four : byteLen (hardTruncateMarker.take 4) = 6 := by decide
    have five : byteLen (hardTruncateMarker.take 5) = 7 := by decide
    have six : byteLen (hardTruncateMarker.take 6) = 8 := by decide
    have seven : byteLen (hardTruncateMarker.take 7) = 9 := by decide
    have places : byteLen front = 65491 ∨ byteLen front = 65492 ∨ byteLen front = 65493 ∨ byteLen front = 65494 := by omega
    rcases places with place | place | place | place
    · exact at_ 7 (by rw [place, seven]; rfl)
    · exact at_ 6 (by rw [place, six]; rfl)
    · exact at_ 5 (by rw [place, five]; rfl)
    · exact at_ 4 (by rw [place, four]; rfl)
  have again : byteLen (capSummaryBytes (front ++ hardTruncateMarker)) = changeSummaryHardCap + 38 := by
    have longer : changeSummaryHardCap < byteLen (front ++ hardTruncateMarker) := by
      rw [total, changeSummaryHardCap]
      omega
    obtain ⟨kept, -, -, same, length, -⟩ := cutOff_spec (front ++ hardTruncateMarker) changeSummaryHardCap capMarker
    rw [capSummaryBytes, if_neg (Nat.not_le.mpr longer), same, byteLen_append, length, floorBoundary_of_isSome inside,
      byteLen_capMarker]
  rw [hardTruncate, if_neg (Nat.not_le.mpr long), cut, again, changeSummaryHardCap, githubCheckSummaryHardLimit]
  omega

theorem cap_collapsed_iff (text : List Char) :
    byteLen (capSummaryBytes (if byteLen text ≤ githubCheckSummaryHardLimit then text
      else hardTruncate text githubCheckSummaryHardLimit)) ≤ githubCheckSummaryHardLimit ↔ CapFits text := by
  by_cases short : byteLen text ≤ changeSummaryHardCap
  · have below : byteLen text ≤ githubCheckSummaryHardLimit := by
      rw [changeSummaryHardCap] at short
      rw [githubCheckSummaryHardLimit]
      omega
    rw [if_pos below, capSummaryBytes, if_pos short]
    exact ⟨fun _ => .inl short, fun _ => below⟩
  · by_cases below : byteLen text ≤ githubCheckSummaryHardLimit
    · rw [if_pos below, cap_of_between (Nat.lt_of_not_le short)]
      exact ⟨fun cut => .inr ⟨below, cut⟩, fun fits => (fits.resolve_left short).2⟩
    · rw [if_neg below]
      exact iff_of_false (cap_of_hardTruncate (Nat.lt_of_not_le below)) fun fits =>
        fits.elim short fun between => below between.1

theorem sliceLonger_isSome (limit : Nat) (text : String) : (sliceLonger limit text).isSome = true ↔ Sliceable limit text := by
  rw [sliceLonger]
  split
  next longer =>
    rw [Option.isSome_map, Option.isSome_iff_exists]
    constructor
    · rintro ⟨front, found⟩
      obtain ⟨rest, split, length⟩ := sliceTo_eq_some_iff.mp found
      exact .inr ⟨front, rest, split, length⟩
    · rintro (short | ⟨front, rest, split, length⟩)
      · exact absurd longer (Nat.not_lt.mpr short)
      · exact ⟨front, sliceTo_eq_some_iff.mpr ⟨rest, split, length⟩⟩
  next short => exact ⟨fun _ => .inl (Nat.le_of_not_lt short), fun _ => rfl⟩

variable {summary : ChangeSummary} {options : RenderOptions}

/-- The texts that are cut can be cut. -/
def Sliced (summary : ChangeSummary) (options : RenderOptions) : Prop :=
  Sliceable 12 summary.headSha ∧ Sliceable 12 summary.baseSha ∧
    ∀ text, options.configLoadError = some text → Sliceable maxErrorLen text

theorem errorBanner_isSome (error : Option String) :
    (errorBanner error).isSome = true ↔ ∀ text, error = some text → Sliceable maxErrorLen text := by
  cases error with
  | none => exact ⟨fun _ _ same => (by cases same), fun _ => rfl⟩
  | some text =>
    rw [errorBanner, Option.isSome_map, sliceLonger_isSome]
    constructor
    · rintro sliceable _ same
      cases same
      exact sliceable
    · exact fun all => all text rfl

theorem pass_isSome (number : Fin 5) : (summary.pass options number).isSome = true ↔ summary.Sliced options := by
  rw [Sliced, ← errorBanner_isSome, ← sliceLonger_isSome, ← sliceLonger_isSome, pass, renderWithConfig]
  change _ ↔ (shortSha summary.headSha).isSome = true ∧ (shortSha summary.baseSha).isSome = true ∧ _
  cases errorBanner options.configLoadError with
  | none => exact ⟨fun nothing => (by cases nothing), fun all => (by cases all.2.2)⟩
  | some banner =>
    cases shortSha summary.headSha with
    | none => exact ⟨fun nothing => (by cases nothing), fun all => (by cases all.1)⟩
    | some head =>
      cases shortSha summary.baseSha with
      | none => exact ⟨fun nothing => (by cases nothing), fun all => (by cases all.2.1)⟩
      | some base => exact ⟨fun _ => ⟨rfl, rfl, rfl⟩, fun _ => rfl⟩

theorem mem_tableRows {changes : List PackageChange} {change : PackageChange} :
    change ∈ tableRows config changes ↔
      config.collapseTable = false ∧ change ∈ changes ∧ hasRow config change = true := by
  rw [tableRows]
  split
  next collapsed =>
    rw [collapsed]
    exact ⟨fun inside => absurd inside List.not_mem_nil, fun inside => by cases inside.1⟩
  next table => rw [List.mem_filter, Bool.eq_false_iff.mpr table, eq_self, true_and]

/-- A kind of changes whose rows depend on one switch is left out with the switch or with the table. -/
theorem leftOut_iff {kind : PackageChange → Bool} (shown : Bool)
    (plain : ∀ change, kind change = true → hasRow (configs options 0) change = true ∧ hasRow config change = shown) :
    summary.LeftOut options config kind ↔ summary.has kind ∧ (config.collapseTable = true ∨ shown = false) := by
  constructor
  · rintro ⟨change, row, own, missing⟩
    have inside := (mem_tableRows.mp row).2.1
    refine ⟨⟨change, inside, own⟩, ?_⟩
    by_contra all
    obtain ⟨table, visible⟩ := not_or.mp all
    refine missing (mem_tableRows.mpr ⟨Bool.eq_false_iff.mpr table, inside, ?_⟩)
    rw [(plain change own).2]
    exact Bool.not_eq_false _ ▸ visible
  · rintro ⟨⟨change, inside, own⟩, hidden⟩
    refine ⟨change, mem_tableRows.mpr ⟨rfl, inside, (plain change own).1⟩, own, fun row => ?_⟩
    obtain ⟨table, -, visible⟩ := mem_tableRows.mp row
    rw [(plain change own).2] at visible
    rcases hidden with collapsed | hidden
    · rw [table] at collapsed
      cases collapsed
    · rw [hidden] at visible
      cases visible

theorem leftOut_maintainers (config : RenderConfig) : summary.LeftOut options config PackageChange.isMaintainerChange ↔
    summary.has PackageChange.isMaintainerChange ∧ (config.collapseTable = true ∨ config.includeMaintainers = false) :=
  leftOut_iff config.includeMaintainers fun change own => by
    cases change with
    | maintainerChange => exact ⟨rfl, rfl⟩
    | _ => cases own

theorem leftOut_license (config : RenderConfig) : summary.LeftOut options config PackageChange.isLicenseChange ↔
    summary.has PackageChange.isLicenseChange ∧ (config.collapseTable = true ∨ config.includeLicense = false) :=
  leftOut_iff config.includeLicense fun change own => by
    cases change with
    | licenseChange => exact ⟨rfl, rfl⟩
    | _ => cases own

theorem leftOut_primary (config : RenderConfig) : summary.LeftOut options config PackageChange.isPrimary ↔
    summary.has PackageChange.isPrimary ∧ config.collapseTable = true := by
  rw [leftOut_iff true fun change own => by
    cases change with
    | rebuildOnly | licenseChange | maintainerChange => cases own
    | _ => exact ⟨rfl, rfl⟩]
  simp

theorem rebuildOnlyLine_iff (config : RenderConfig) : rebuildOnlyLine config (.fromChanges summary.packageChanges) = true ↔
    config.includeRebuildOnlyLine = true ∧ summary.has PackageChange.isRebuildOnly := by
  rw [rebuildOnlyLine, Bool.and_eq_true, decide_eq_true_eq, ChangeCounts.fromChanges, List.countP_pos_iff]
  rfl

theorem tells_iff (number : Fin 5) (text : List Char) :
    summary.Tells options ⟨text, truncations options number, configs options number⟩ ↔
      (1 ≤ number → summary.has PackageChange.isMaintainerChange) ∧
      (2 ≤ number → summary.has PackageChange.isLicenseChange) ∧
      (3 ≤ number → options.includeRebuildOnly = true → summary.has PackageChange.isRebuildOnly) ∧
      (4 ≤ number → summary.has PackageChange.isPrimary) := by
  have parts : summary.Tells options ⟨text, truncations options number, configs options number⟩ ↔
      (((truncations options number).droppedMaintainers = true ↔
          summary.LeftOut options (configs options number) PackageChange.isMaintainerChange) ∧
        ((truncations options number).droppedLicense = true ↔
          summary.LeftOut options (configs options number) PackageChange.isLicenseChange) ∧
        ((truncations options number).droppedRebuildOnly = true ↔
          rebuildOnlyLine (configs options 0) (.fromChanges summary.packageChanges) = true ∧
            ¬ rebuildOnlyLine (configs options number) (.fromChanges summary.packageChanges) = true) ∧
        ((truncations options number).collapsedToCounts = true ↔
          summary.LeftOut options (configs options number) PackageChange.isPrimary)) := by
    simp only [Bool.not_eq_true]
    exact ⟨fun tells => ⟨tells.maintainers, tells.license, tells.rebuildOnly, tells.collapsed⟩,
      fun ⟨maintainers, license, rebuildOnly, collapsed⟩ => ⟨maintainers, license, rebuildOnly, collapsed⟩⟩
  rw [parts, leftOut_maintainers, leftOut_license, leftOut_primary, rebuildOnlyLine_iff, rebuildOnlyLine_iff]
  match number with
  | 0 => simp [truncations, configs]
  | 1 => simp [truncations, configs]
  | 2 => simp [truncations, configs]
  | 3 => simp [truncations, configs]
  | 4 => simp [truncations, configs]

theorem overflows_iff (found : summary.pass options number = some text) :
    summary.Overflows options number ↔ githubCheckSummarySoftLimit < byteLen text := by
  constructor
  · rintro ⟨other, same, long⟩
    cases found.symm.trans same
    exact long
  · exact fun long => ⟨text, found, long⟩

theorem tryPass_of_fits (found : summary.pass options number = some text) (fits : ¬ summary.Overflows options number)
    (next : Option Rendering) :
    tryPass summary options (configs options number) (truncations options number) next =
      some ⟨text, truncations options number, configs options number⟩ := by
  rw [overflows_iff found] at fits
  rw [pass] at found
  rw [tryPass, found, Option.bind_some, if_pos (Nat.le_of_not_lt fits)]

theorem tryPass_of_overflows (overflows : summary.Overflows options number) (next : Option Rendering) :
    tryPass summary options (configs options number) (truncations options number) next = next := by
  obtain ⟨text, found, long⟩ := overflows
  rw [pass] at found
  rw [tryPass, found, Option.bind_some, if_neg (Nat.not_le.mpr long)]

theorem render_whole {full : List Char} (found : summary.pass options 0 = some full)
    (short : byteLen full ≤ githubCheckSummarySoftLimit) : summary.render options = some ⟨full, {}, configs options 0⟩ := by
  refine tryPass_of_fits found ?_ _
  rw [overflows_iff found]
  exact Nat.not_lt.mpr short

theorem cap_of_short (short : byteLen text ≤ githubCheckSummarySoftLimit) :
    byteLen (capSummaryBytes text) ≤ githubCheckSummaryHardLimit := by
  rw [githubCheckSummarySoftLimit] at short
  have below : byteLen text ≤ changeSummaryHardCap := by
    rw [changeSummaryHardCap]
    omega
  rw [capSummaryBytes, if_pos below, githubCheckSummaryHardLimit]
  omega

theorem posts_of_render {rendering : Rendering} (made : summary.render options = some rendering) :
    summary.Posts options ↔
      byteLen (capSummaryBytes rendering.text) ≤ githubCheckSummaryHardLimit ∧ summary.Tells options rendering := by
  constructor
  · exact fun posts => ⟨posts.fits rendering made, posts.tells rendering made⟩
  · rintro ⟨fits, tells⟩
    refine ⟨by rw [made]; exact Option.some_ne_none _, fun other same => ?_, fun other same => ?_, fun _ => render_whole⟩
    · cases made.symm.trans same
      exact fits
    · cases made.symm.trans same
      exact tells

theorem modest_iff : summary.Modest options ↔ summary.Sliced options ∧
    (summary.Overflows options 0 → summary.has PackageChange.isMaintainerChange) ∧
    (summary.Overflows options 0 → summary.Overflows options 1 → summary.has PackageChange.isLicenseChange) ∧
    (summary.Overflows options 0 → summary.Overflows options 1 → summary.Overflows options 2 →
      options.includeRebuildOnly = true → summary.has PackageChange.isRebuildOnly) ∧
    (summary.Overflows options 0 → summary.Overflows options 1 → summary.Overflows options 2 →
      summary.Overflows options 3 → summary.has PackageChange.isPrimary) ∧
    (summary.Overflows options 0 → summary.Overflows options 1 → summary.Overflows options 2 →
      summary.Overflows options 3 → ∀ text, summary.pass options 4 = some text → CapFits text) :=
  ⟨fun ⟨head, base, error, maintainers, license, rebuildOnly, primary, collapsed⟩ =>
      ⟨⟨head, base, error⟩, maintainers, license, rebuildOnly, primary, collapsed⟩,
    fun ⟨⟨head, base, error⟩, maintainers, license, rebuildOnly, primary, collapsed⟩ =>
      ⟨head, base, error, maintainers, license, rebuildOnly, primary, collapsed⟩⟩

theorem posts_of_pass (found : summary.pass options number = some text) (fits : ¬ summary.Overflows options number)
    (made : summary.render options = some ⟨text, truncations options number, configs options number⟩) :
    summary.Posts options ↔ summary.Tells options ⟨text, truncations options number, configs options number⟩ := by
  rw [overflows_iff found] at fits
  rw [posts_of_render made]
  exact and_iff_right (cap_of_short (Nat.le_of_not_lt fits))

theorem render_collapsed (overflow : ∀ number : Fin 5, number < 4 → summary.Overflows options number)
    (found : summary.pass options 4 = some text) : summary.render options = some
      ⟨if byteLen text ≤ githubCheckSummaryHardLimit then text else hardTruncate text githubCheckSummaryHardLimit,
        truncations options 4, configs options 4⟩ := by
  rw [pass] at found
  rw [render, tryPass_of_overflows (overflow 0 (by decide)), tryPass_of_overflows (overflow 1 (by decide)),
    tryPass_of_overflows (overflow 2 (by decide)), tryPass_of_overflows (overflow 3 (by decide)), collapsedPass, found]
  rfl

/-- The report is posted as it should be exactly for the modest summaries. -/
theorem posts_iff (summary : ChangeSummary) (options : RenderOptions) : summary.Posts options ↔ summary.Modest options := by
  rw [modest_iff]
  by_cases sliced : summary.Sliced options
  · have made (number : Fin 5) : ∃ text, summary.pass options number = some text :=
      Option.isSome_iff_exists.mp ((pass_isSome number).mpr sliced)
    by_cases first : summary.Overflows options 0
    · by_cases second : summary.Overflows options 1
      · by_cases third : summary.Overflows options 2
        · by_cases fourth : summary.Overflows options 3
          · obtain ⟨text, found⟩ := made 4
            have overflow (number : Fin 5) (below : number < 4) : summary.Overflows options number := by
              match number with
              | 0 => exact first
              | 1 => exact second
              | 2 => exact third
              | 3 => exact fourth
              | 4 => exact absurd below (by decide)
            rw [posts_of_render (render_collapsed overflow found), cap_collapsed_iff, tells_iff]
            simp only [sliced, first, second, third, fourth, found, true_and, forall_const, Option.some.injEq, forall_eq']
            have order : (1 : Fin 5) ≤ 4 ∧ (2 : Fin 5) ≤ 4 ∧ (3 : Fin 5) ≤ 4 := by decide
            simp only [order, forall_const, le_refl]
            tauto
          · obtain ⟨text, found⟩ := made 3
            rw [posts_of_pass found fourth (by
              rw [render, tryPass_of_overflows first, tryPass_of_overflows second, tryPass_of_overflows third,
                tryPass_of_fits found fourth]), tells_iff]
            have order : (1 : Fin 5) ≤ 3 ∧ (2 : Fin 5) ≤ 3 ∧ ¬ (4 : Fin 5) ≤ 3 := by decide
            simp only [sliced, first, second, third, fourth, order, true_and, forall_const, le_refl, false_implies, and_true]
        · obtain ⟨text, found⟩ := made 2
          rw [posts_of_pass found third (by
            rw [render, tryPass_of_overflows first, tryPass_of_overflows second, tryPass_of_fits found third]), tells_iff]
          have order : (1 : Fin 5) ≤ 2 ∧ ¬ (3 : Fin 5) ≤ 2 ∧ ¬ (4 : Fin 5) ≤ 2 := by decide
          simp only [sliced, first, second, third, order, true_and, forall_const, le_refl, false_implies, and_true]
      · obtain ⟨text, found⟩ := made 1
        rw [posts_of_pass found second (by rw [render, tryPass_of_overflows first, tryPass_of_fits found second]), tells_iff]
        have order : ¬ (2 : Fin 5) ≤ 1 ∧ ¬ (3 : Fin 5) ≤ 1 ∧ ¬ (4 : Fin 5) ≤ 1 := by decide
        simp only [sliced, first, second, order, true_and, forall_const, le_refl, false_implies, and_true]
    · obtain ⟨text, found⟩ := made 0
      rw [posts_of_pass found first (by rw [render, tryPass_of_fits found first]), tells_iff]
      have order : ¬ (1 : Fin 5) ≤ 0 ∧ ¬ (2 : Fin 5) ≤ 0 ∧ ¬ (3 : Fin 5) ≤ 0 ∧ ¬ (4 : Fin 5) ≤ 0 := by decide
      simp only [sliced, first, order, false_implies, and_true]
  · refine iff_of_false (fun posts => posts.returns ?_) fun modest => sliced modest.1
    have panics : summary.pass options 0 = none := by
      refine Option.not_isSome_iff_eq_none.mp fun made => sliced ((pass_isSome 0).mp made)
    rw [pass] at panics
    rw [render, tryPass, panics]
    rfl

/-- The base is a word of the query, and its twelfth byte is inside a character. -/
def accented : ChangeSummary where
  headSha := "0123456789abcdef0123456789abcdef01234567"
  baseSha := "release-café"
  metadataAvailable := true
  packageChanges := []
  rebuildImpact := ⟨[], 0⟩

theorem accented_not_posts : ¬ ∀ (summary : ChangeSummary) (options : RenderOptions), summary.Posts options := by
  intro always
  have panics : (accented.render ⟨true, none⟩).isNone = true := by decide
  exact (always accented ⟨true, none⟩).returns (Option.isNone_iff_eq_none.mp panics)

end ChangeSummary

end EkaCI
