import EkaCI.Lib.Json
import EkaCI.Lib.Keyed
import EkaCI.Lib.Lines
import EkaCI.Nix.DrvIdentifier
import Mathlib.Data.Finset.Sort
import Mathlib.Data.List.Destutter
import Mathlib.Data.String.Basic

/-! The rows that package changes are found in: names and versions from the columns or from the
name of the derivation, and the labels of licenses and maintainers. -/

namespace EkaCI

open Lib
open Lib.Json (Members field getStr getList getOption)

namespace NameParts

/-- `none` is the panic on a part of several bytes with no second character. -/
def looksLikeVersion : List Char → Option Bool
  | [] => some false
  | [character] => if character.utf8Size < 2 then some false else none
  | first :: second :: rest =>
    let s := first :: second :: rest
    some (((first = 'v' || first = 'r') && second.isDigit) ||
      (s.any Char.isDigit && s.all fun c => c.isDigit || c = '.') || first.isDigit)

/-- How many parts look like versions before the first one that does not. -/
def countVersions : List (List Char) → Option Nat
  | [] => some 0
  | part :: rest =>
    match looksLikeVersion part with
    | none => none
    | some true => (countVersions rest).map (· + 1)
    | some false => some 0

def parts (name : String) : List (List Char) := name.toList.splitOn '-'

/-- Where the versions at the end begin. -/
def firstVersion (name : String) : Option Nat :=
  (countVersions (parts name).reverse).map fun versions => (parts name).length - versions

def join (parts : List (List Char)) : String := String.ofList (List.intercalate ['-'] parts)

def pnameFromName (name : String) : Option String :=
  if (parts name).length = 1 then some name
  else (firstVersion name).map fun keep => if keep = 0 then name else join ((parts name).take keep)

def versionFromName (name : String) : Option (Option String) :=
  if (parts name).length = 1 then some none
  else (firstVersion name).map fun first =>
    if first = 0 ∨ first = (parts name).length then none else some (join ((parts name).drop first))

/-- The name can be taken apart: no panic on the way from its end. -/
def Readable (name : String) : Prop := (parts name).length = 1 ∨ (firstVersion name).isSome = true

theorem pnameFromName_isSome {name : String} : (pnameFromName name).isSome = true ↔ Readable name := by
  rw [pnameFromName, Readable]
  split <;> simp_all

theorem versionFromName_isSome {name : String} : (versionFromName name).isSome = true ↔ Readable name := by
  rw [versionFromName, Readable]
  split <;> simp_all

theorem countVersions_isSome {reversed : List (List Char)} (short : ∀ part ∈ reversed, ∀ c ∈ part, c.utf8Size < 2) :
    (countVersions reversed).isSome = true := by
  induction reversed with
  | nil => rfl
  | cons part rest ih =>
    have later := ih fun other member => short other (List.mem_cons_of_mem _ member)
    have read : ∃ looks, looksLikeVersion part = some looks := by
      match part, short part List.mem_cons_self with
      | [], _ => exact ⟨_, rfl⟩
      | [character], short => exact ⟨false, by rw [looksLikeVersion, if_pos (short character List.mem_cons_self)]⟩
      | _ :: _ :: _, _ => exact ⟨_, rfl⟩
    obtain ⟨looks, read⟩ := read
    rw [countVersions, read]
    cases looks with
    | true => simpa using later
    | false => rfl

theorem readable_of_ascii {name : String} (ascii : ∀ c ∈ name.toList, c.utf8Size < 2) : Readable name := by
  refine .inr ?_
  have short : ∀ part ∈ (parts name).reverse, ∀ c ∈ part, c.utf8Size < 2 := by
    intro part member c inside
    exact ascii c ((infix_of_mem_splitOn (List.mem_reverse.mp member)).subset inside)
  have counted := countVersions_isSome short
  rw [firstVersion, Option.isSome_map, counted]

end NameParts

/-- A job with what its derivation says of the package. -/
structure JobDrvRow where
  attrPath : String
  drvPath : DrvIdentifier
  name : String
  pname : Option String
  version : Option String
  licenseJson : Option String
  maintainersJson : Option String

/-- A column that is there and not empty. -/
def filled (column : Option String) : Option String := column.filter (· ≠ "")

namespace JobDrvRow

/-- The inner `none` is a name that is not known. -/
def pnameOrHeuristic (row : JobDrvRow) : Option (Option String) :=
  match filled row.pname with
  | some pname => some (some pname)
  | none => if row.name = "" then some none else (NameParts.pnameFromName row.name).map some

def versionOrHeuristic (row : JobDrvRow) : Option (Option String) :=
  match filled row.version with
  | some version => some (some version)
  | none => if row.name = "" then some none else NameParts.versionFromName row.name

/-- The name is in its column, or there is one to be taken apart. -/
def Named (row : JobDrvRow) : Prop := (filled row.pname).isSome = true ∨ row.name ≠ ""

/-- The columns say all, or the name of the derivation can be taken apart. -/
def Readable (row : JobDrvRow) : Prop :=
  (filled row.pname).isSome = true ∧ (filled row.version).isSome = true ∨ row.name = "" ∨ NameParts.Readable row.name

theorem readable_iff {row : JobDrvRow} :
    row.Readable ↔ ∃ pname version, row.pnameOrHeuristic = some pname ∧ row.versionOrHeuristic = some version := by
  have pnames : (∃ pname, row.pnameOrHeuristic = some pname) ↔
      (filled row.pname).isSome = true ∨ row.name = "" ∨ NameParts.Readable row.name := by
    rw [pnameOrHeuristic, ← NameParts.pnameFromName_isSome, ← Option.isSome_iff_exists]
    cases filled row.pname with
    | some pname => simp
    | none => by_cases empty : row.name = "" <;> simp [empty]
  have versions : (∃ version, row.versionOrHeuristic = some version) ↔
      (filled row.version).isSome = true ∨ row.name = "" ∨ NameParts.Readable row.name := by
    rw [versionOrHeuristic, ← NameParts.versionFromName_isSome, ← Option.isSome_iff_exists]
    cases filled row.version with
    | some version => simp
    | none => by_cases empty : row.name = "" <;> simp [empty]
  rw [Readable, and_or_right, ← pnames, ← versions]
  constructor
  · exact fun ⟨⟨pname, named⟩, version, versioned⟩ => ⟨pname, version, named, versioned⟩
  · exact fun ⟨pname, version, named, versioned⟩ => ⟨⟨pname, named⟩, version, versioned⟩

theorem named_iff {row : JobDrvRow} {pname : Option String} (read : row.pnameOrHeuristic = some pname) :
    row.Named ↔ pname.isSome = true := by
  rw [Named]
  rw [pnameOrHeuristic] at read
  cases column : filled row.pname with
  | some stored =>
    simp only [column] at read
    cases read
    simp
  | none =>
    simp only [column] at read
    split at read
    · cases read
      simp_all
    · obtain ⟨stored, -, rfl⟩ := Option.map_eq_some_iff.mp read
      simp_all

end JobDrvRow

/-- What stands between the hash and the `.drv`. -/
def drvNameFromPath (drvPath : String) : String :=
  let afterStore := stripStorePath drvPath.toList
  let noDrv := if ".drv".toList.isSuffixOf afterStore then afterStore.take (afterStore.length - 4) else afterStore
  String.ofList (match noDrv.dropWhile (· ≠ '-') with
    | [] => noDrv
    | _ :: rest => rest)

structure JobDrvColumns where
  attrPath : String
  drvPath : String
  pname : Option String
  version : Option String
  licenseJson : Option String
  maintainersJson : Option String

/-- A path that is no derivation fails the load. -/
def loadJobDrvRows (rows : List JobDrvColumns) : Option (List JobDrvRow) :=
  rows.mapM fun row => (DrvIdentifier.tryFrom row.drvPath).map fun drvPath =>
    { attrPath := row.attrPath
      drvPath
      name := drvNameFromPath row.drvPath
      pname := row.pname
      version := row.version
      licenseJson := row.licenseJson
      maintainersJson := row.maintainersJson }

theorem utf8Size_of_isValidNameChar {c : Char} (valid : isValidNameChar c = true) : c.utf8Size < 2 := by
  have small : c.val ≤ 127 := by
    simp only [isValidNameChar, decide_eq_true_eq] at valid
    simp only [Char.le_def, List.mem_cons, List.not_mem_nil, or_false] at valid
    obtain ⟨-, below⟩ | ⟨-, below⟩ | ⟨-, below⟩ | rfl | rfl | rfl | rfl | rfl | rfl := valid
    · exact UInt32.le_trans below (by decide)
    · exact UInt32.le_trans below (by decide)
    · exact UInt32.le_trans below (by decide)
    all_goals decide
  rw [Char.utf8Size_eq_one_iff.mpr small]
  decide

theorem drvNameFromPath_of_tryFrom {path : String} {drv : DrvIdentifier} (valid : DrvIdentifier.tryFrom path = some drv) :
    drvNameFromPath path ≠ "" ∧ NameParts.Readable (drvNameFromPath path) := by
  rw [DrvIdentifier.tryFrom] at valid
  split at valid
  · rename_i checked
    rw [String.toList_ofList, isDrvId, Bool.and_eq_true, Bool.and_eq_true, isHashAndName] at checked
    obtain ⟨⟨-, suffix⟩, named⟩ := checked
    rw [drvNameFromPath, if_pos suffix]
    cases stem : ((stripStorePath path.toList).take ((stripStorePath path.toList).length - 4)).dropWhile (· ≠ '-') with
    | nil =>
      rw [stem] at named
      cases named
    | cons dash name =>
      rw [stem] at named
      simp only [Bool.and_eq_true, decide_eq_true_eq, List.all_eq_true] at named
      obtain ⟨⟨⟨present, -⟩, -⟩, characters⟩ := named
      refine ⟨fun empty => present ?_, NameParts.readable_of_ascii fun c member => ?_⟩
      · simpa using congrArg String.toList empty
      · rw [String.toList_ofList] at member
        exact utf8Size_of_isValidNameChar (characters c member)
  · cases valid

theorem loaded_named {rows : List JobDrvColumns} {loaded : List JobDrvRow} (load : loadJobDrvRows rows = some loaded) :
    ∀ row ∈ loaded, row.Readable ∧ row.Named := by
  induction rows generalizing loaded with
  | nil =>
    cases load
    exact List.forall_mem_nil _
  | cons columns rest ih =>
    rw [loadJobDrvRows, List.mapM_cons] at load
    obtain ⟨row, first, load⟩ := Option.bind_eq_some_iff.mp load
    obtain ⟨others, later, same⟩ := Option.bind_eq_some_iff.mp load
    cases same
    obtain ⟨drv, valid, rfl⟩ := Option.map_eq_some_iff.mp first
    obtain ⟨present, readable⟩ := drvNameFromPath_of_tryFrom valid
    exact List.forall_mem_cons.mpr ⟨⟨.inr (.inr readable), .inr present⟩, ih later⟩

/-- The texts of a record of optional texts, which is an object or a list of them in order. -/
def readTexts (names : List String) : Json → Option (List (Option String))
  | .obj members => names.mapM fun name => field [name] (some none) (getOption getStr) members
  | .arr items =>
    if items.length ≤ names.length then
      (items.mapM (getOption getStr)).map (· ++ List.replicate (names.length - items.length) none)
    else none
  | _ => none

structure LicenseEntryPartial where
  spdxId : Option String
  shortName : Option String
  fullName : Option String

structure MaintainerPartial where
  github : Option String
  name : Option String
  email : Option String

namespace LicenseEntryPartial

def fromJson (value : Json) : Option LicenseEntryPartial :=
  (readTexts ["spdxId", "shortName", "fullName"] value).bind fun
    | [spdxId, shortName, fullName] => some ⟨spdxId, shortName, fullName⟩
    | _ => none

def label (entry : LicenseEntryPartial) : String :=
  ((entry.spdxId.or entry.shortName).or entry.fullName).getD "<unknown license>"

end LicenseEntryPartial

namespace MaintainerPartial

def fromJson (value : Json) : Option MaintainerPartial :=
  (readTexts ["github", "name", "email"] value).bind fun
    | [github, name, email] => some ⟨github, name, email⟩
    | _ => none

def label (entry : MaintainerPartial) : Option String := (entry.github.or entry.name).or entry.email

end MaintainerPartial

section Labels

variable (parseJson : String → Option Json)

def readEntries {A : Type} (read : Json → Option A) (json : Option String) : List A :=
  (json.bind fun text => (parseJson text).bind (getList read)).getD []

def parseLicenseLabels (json : Option String) : List String :=
  (((readEntries parseJson LicenseEntryPartial.fromJson json).map LicenseEntryPartial.label).mergeSort (· ≤ ·)).destutter
    (· ≠ ·)

def parseMaintainerLabels (json : Option String) : Finset String :=
  (((readEntries parseJson MaintainerPartial.fromJson json).filterMap MaintainerPartial.label).filter (· ≠ "")).toFinset

/-- The labels before and after. -/
def diffLicense (head base : Option String) : Option (List String × List String) :=
  let headLabels := parseLicenseLabels parseJson head
  let baseLabels := parseLicenseLabels parseJson base
  if headLabels = baseLabels then none else some (baseLabels, headLabels)

/-- The labels as they are listed. -/
def inOrder (labels : Finset String) : List String := labels.sort (· ≤ ·)

/-- Who was added and who was removed. -/
def diffMaintainers (head base : Option String) : Option (List String × List String) :=
  let headSet := parseMaintainerLabels parseJson head
  let baseSet := parseMaintainerLabels parseJson base
  if headSet = baseSet then none
  else
    let added := inOrder (headSet \ baseSet)
    let removed := inOrder (baseSet \ headSet)
    if added = [] ∧ removed = [] then none else some (added, removed)

end Labels

section Sets

variable {parseJson : String → Option Json}

def licenseSet (parseJson : String → Option Json) (json : Option String) : Finset String :=
  ((readEntries parseJson LicenseEntryPartial.fromJson json).map LicenseEntryPartial.label).toFinset

theorem mem_destutter' {x first : String} {names : List String} :
    x ∈ names.destutter' (· ≠ ·) first ↔ x = first ∨ x ∈ names := by
  induction names generalizing first with
  | nil => simp
  | cons name rest ih =>
    rw [List.destutter'_cons]
    split
    · rw [List.mem_cons, ih, List.mem_cons]
    · rename_i same
      rw [ih, List.mem_cons, not_not.mp same]
      exact (or_iff_right_of_imp Or.inl).symm

theorem mem_destutter {x : String} {names : List String} : x ∈ names.destutter (· ≠ ·) ↔ x ∈ names := by
  cases names with
  | nil => rfl
  | cons name rest => rw [List.destutter_cons', mem_destutter', List.mem_cons]

theorem destutter_mergeSort (names : List String) :
    ((names.mergeSort (· ≤ ·)).destutter (· ≠ ·)) = inOrder names.toFinset := by
  have sorted : (names.mergeSort (· ≤ ·)).Pairwise (· ≤ ·) := pairwise_mergeSort_key id names
  have kept := sorted.sublist (List.destutter_sublist (· ≠ ·) _)
  have strict : ((names.mergeSort (· ≤ ·)).destutter (· ≠ ·)).Pairwise (· < ·) := by
    refine List.isChain_iff_pairwise.mp (List.isChain_iff_getElem.mpr fun place inside => ?_)
    exact lt_of_le_of_ne (List.isChain_iff_getElem.mp kept.isChain place inside)
      (List.isChain_iff_getElem.mp (List.isChain_destutter _ _) place inside)
  have members : ((names.mergeSort (· ≤ ·)).destutter (· ≠ ·)).toFinset = names.toFinset := by
    ext name
    rw [List.mem_toFinset, List.mem_toFinset, mem_destutter, List.mem_mergeSort]
  rw [← members]
  exact ((List.toFinset_sort (· ≤ ·) (strict.imp fun less => ne_of_lt less)).mpr kept).symm

theorem toFinset_inOrder (labels : Finset String) : (inOrder labels).toFinset = labels := Finset.sort_toFinset _ _

theorem parseLicenseLabels_eq (json : Option String) :
    parseLicenseLabels parseJson json = inOrder (licenseSet parseJson json) := destutter_mergeSort _

theorem parseLicenseLabels_inj {head base : Option String} :
    parseLicenseLabels parseJson head = parseLicenseLabels parseJson base ↔
      licenseSet parseJson head = licenseSet parseJson base := by
  rw [parseLicenseLabels_eq, parseLicenseLabels_eq]
  refine ⟨fun same => ?_, fun same => by rw [same]⟩
  have sets := congrArg List.toFinset same
  rwa [toFinset_inOrder, toFinset_inOrder] at sets

end Sets

end EkaCI
