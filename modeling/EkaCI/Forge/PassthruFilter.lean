import EkaCI.Forge.GitHubTasks
import EkaCI.Lib.Chunks
import EkaCI.Lib.Lines
import EkaCI.Nix.DrvIdentifier

/-! Which packages a pull request edits: those whose position, as the evaluation has stored it,
is in a file that the diff names. -/

namespace EkaCI

open Lib

variable {DrvId : Type} [DecidableEq DrvId]

def storePrefix : List Char := "/nix/store/".toList

/-- Below a store path the first directory is left out. -/
def stripStoreCopy (path : List Char) : Option (List Char) :=
  match storePrefix.isPrefixOf? path with
  | some afterStore => (splitOnce '/' afterStore).map Prod.snd
  | none => some path

/-- What stands before the last colon, or all of the text. -/
def uptoColon (position : List Char) : List Char := ((rsplitOnce ':' position).map Prod.fst).getD position

def positionToRepoRelativePath (position : List Char) : Option (List Char) :=
  let path := uptoColon position
  if path = [] then none else stripStoreCopy path

/-- The positions in the table of derivations, which has at most one row for each. -/
structure DrvPositions (DrvId : Type) where
  rows : List (DrvId × Option (List Char))
  unique : (rows.map Prod.fst).Nodup

def getMetaPositions (table : DrvPositions DrvId) (drvPaths : List DrvId) : List (DrvId × Option (List Char)) :=
  (chunks 199 drvPaths).flatMap fun chunk => table.rows.filter fun row => row.1 ∈ chunk

/-- Of several rows for one derivation the last is kept. -/
def positionMap (rows : List (DrvId × Option (List Char))) (drvId : DrvId) : Option (Option (List Char)) :=
  (rows.filter fun row => row.1 = drvId).getLast?.map Prod.snd

def gitDiffChangedFiles (stdout : List Char) : List (List Char) := (strLines stdout).map trim

def isDirectlyChanged (changedFiles : List (List Char)) (positions : DrvId → Option (Option (List Char)))
    (job : NewOrChangedJob DrvId) : Bool :=
  match (positions job.drvId).join with
  | some position =>
    match positionToRepoRelativePath position with
    | some relPath => changedFiles.contains relPath
    | none => false
  | none => false

/-- The jobs that the loop keeps. -/
def directlyChanged (changedFiles : List (List Char)) (table : DrvPositions DrvId) (changedJobs : List (NewOrChangedJob DrvId)) :
    List (NewOrChangedJob DrvId) :=
  let positions := positionMap (getMetaPositions table (changedJobs.map NewOrChangedJob.drvId))
  changedJobs.filter (isDirectlyChanged changedFiles positions)

/-- What `git diff --name-only` writes, unless it fails, decides. -/
def filterDirectlyChanged (diff : Option (List Char)) (table : DrvPositions DrvId)
    (changedJobs : List (NewOrChangedJob DrvId)) : Option (List String) :=
  if changedJobs = [] then some []
  else do
    let stdout ← diff
    let changedFiles := gitDiffChangedFiles stdout
    if changedFiles = [] then some []
    else some ((directlyChanged changedFiles table changedJobs).map NewOrChangedJob.name)

/-- The path of a file, from the root of its repository. -/
structure RepoFile where
  path : List Char
  nonempty : path ≠ []
  relative : path.head? ≠ some '/'

structure StoreName where
  text : List Char
  valid : text.all isValidNameChar = true

inductive PositionForm where
  | worktree
  | storeCopy (name : StoreName)
  | relative

structure MetaPosition where
  form : PositionForm
  file : RepoFile
  line : Option Nat

namespace MetaPosition

def suffix : Option Nat → List Char
  | none => []
  | some line => ':' :: Nat.toDigits 10 line

/-- The text of a position in a tree with this root. -/
def text (root : List Char) (position : MetaPosition) : List Char :=
  (match position.form with
    | .worktree => root ++ '/' :: position.file.path
    | .storeCopy name => storePrefix ++ (name.text ++ '/' :: position.file.path)
    | .relative => position.file.path) ++ suffix position.line

/-- A colon is taken for the one before the line number, whether there is one or not. -/
def bare (position : MetaPosition) (path : List Char) : List Char :=
  if position.line = none then uptoColon path else path

/-- The path that the position is read as. -/
def readAs (root : List Char) (position : MetaPosition) : Option (List Char) :=
  match position.form with
  | .worktree =>
    let path := position.bare (root ++ '/' :: position.file.path)
    if path = [] then none else stripStoreCopy path
  | .storeCopy _ => some (position.bare position.file.path)
  | .relative =>
    let path := position.bare position.file.path
    if path = [] then none else some path

end MetaPosition

/-- What a text with or without a line number is cut down to: the last colon is taken for the
one before the number. -/
inductive CutDown : Option Nat → List Char → List Char → Prop where
  | line (line : Nat) (path : List Char) : CutDown (some line) path path
  | noColon {path : List Char} (clean : ':' ∉ path) : CutDown none path path
  | colon (front : List Char) {back : List Char} (clean : ':' ∉ back) : CutDown none (front ++ ':' :: back) front

/-- The path that a position is taken for, by its spelling. -/
inductive TakenFor (root : List Char) : MetaPosition → List Char → Prop where
  | storeCopy (name : StoreName) {file : RepoFile} {line : Option Nat} {path : List Char}
    (cut : CutDown line file.path path) : TakenFor root ⟨.storeCopy name, file, line⟩ path
  | relative {file : RepoFile} {line : Option Nat} {path : List Char} (cut : CutDown line file.path path)
    (nonempty : path ≠ []) : TakenFor root ⟨.relative, file, line⟩ path
  /-- Below the worktree the path stays as long as it is. -/
  | worktree {file : RepoFile} {line : Option Nat} {path : List Char} (cut : CutDown line (root ++ '/' :: file.path) path)
    (nonempty : path ≠ []) (outside : ¬storePrefix <+: path) : TakenFor root ⟨.worktree, file, line⟩ path
  /-- A worktree in the store loses the first directory there. -/
  | stored {file : RepoFile} {line : Option Nat} {name path : List Char} (single : '/' ∉ name)
    (cut : CutDown line (root ++ '/' :: file.path) (storePrefix ++ (name ++ '/' :: path))) :
    TakenFor root ⟨.worktree, file, line⟩ path

theorem uptoColon_of_not_mem {text : List Char} (inside : ':' ∉ text) : uptoColon text = text := by
  rw [uptoColon, rsplitOnce, if_neg inside]
  rfl

theorem uptoColon_of_colon {back : List Char} (inside : ':' ∉ back) (front : List Char) :
    uptoColon (front ++ ':' :: back) = front := by
  rw [uptoColon, rsplitOnce_append inside]
  rfl

theorem uptoColon_append {front : List Char} (inside : ':' ∉ front) (text : List Char) :
    uptoColon (front ++ text) = front ++ uptoColon text := by
  by_cases colon : ':' ∈ text
  · obtain ⟨tail, split, ⟨empty⟩ | ⟨body, same⟩, rest⟩ := @exists_complete _ _ ':' text
    · rw [empty] at split
      rw [split] at colon
      exact absurd colon rest
    · rw [split, same, List.append_assoc, List.singleton_append, ← List.append_assoc, uptoColon_of_colon rest,
        uptoColon_of_colon rest]
  · rw [uptoColon_of_not_mem colon, uptoColon_of_not_mem]
    simp [inside, colon]

theorem uptoColon_suffix (path : List Char) (line : Nat) : uptoColon (path ++ ':' :: Nat.toDigits 10 line) = path := by
  refine uptoColon_of_colon (fun member => ?_) path
  have digit := Nat.isDigit_of_mem_toDigits (by decide) (by decide) member
  exact absurd digit (by decide)

theorem uptoColon_prefix (text : List Char) : uptoColon text <+: text := by
  by_cases colon : ':' ∈ text
  · rw [uptoColon, rsplitOnce, if_pos colon]
    exact (List.dropLast_prefix _).trans (List.rdropWhile_prefix _ _)
  · rw [uptoColon_of_not_mem colon]

theorem stripStoreCopy_storeCopy {name : List Char} (inside : '/' ∉ name) (path : List Char) :
    stripStoreCopy (storePrefix ++ (name ++ '/' :: path)) = some path := by
  rw [stripStoreCopy, List.isPrefixOf?_eq_some_iff_append_eq.mpr rfl]
  dsimp only
  rw [splitOnce_append inside]
  rfl

theorem stripStoreCopy_relative {path : List Char} (relative : path.head? ≠ some '/') : stripStoreCopy path = some path := by
  rw [stripStoreCopy]
  cases found : storePrefix.isPrefixOf? path with
  | none => rfl
  | some rest =>
    rw [← List.isPrefixOf?_eq_some_iff_append_eq.mp found] at relative
    exact absurd rfl relative

namespace MetaPosition

variable (position : MetaPosition)

theorem bare_append {front : List Char} (inside : ':' ∉ front) (path : List Char) :
    position.bare (front ++ path) = front ++ position.bare path := by
  rw [bare, bare, uptoColon_append inside]
  split <;> rfl

theorem bare_prefix (path : List Char) : position.bare path <+: path := by
  rw [bare]
  split
  · exact uptoColon_prefix path
  · exact List.prefix_rfl

theorem uptoColon_text (path : List Char) : uptoColon (path ++ suffix position.line) = position.bare path := by
  rw [bare]
  cases position.line with
  | none => rw [if_pos rfl, suffix, List.append_nil]
  | some line => rw [if_neg (by simp), suffix, uptoColon_suffix]

theorem bare_head : (position.bare position.file.path).head? ≠ some '/' := by
  obtain ⟨rest, split⟩ := position.bare_prefix position.file.path
  intro head
  have slash : position.file.path.head? = some '/' := by
    rw [← split, List.head?_append, head]
    rfl
  exact position.file.relative slash

end MetaPosition

theorem StoreName.not_mem (name : StoreName) : ':' ∉ name.text ∧ '/' ∉ name.text := by
  have valid := List.all_eq_true.mp name.valid
  constructor <;>
  · intro member
    exact absurd (valid _ member) (by decide)

theorem positionToRepoRelativePath_text (root : List Char) (position : MetaPosition) :
    positionToRepoRelativePath (position.text root) = position.readAs root := by
  rw [positionToRepoRelativePath, MetaPosition.text, position.uptoColon_text, MetaPosition.readAs]
  cases position.form with
  | worktree => rfl
  | storeCopy name =>
    obtain ⟨colon, slash⟩ := name.not_mem
    have front : ':' ∉ storePrefix ++ (name.text ++ ['/']) := by
      rw [List.mem_append, List.mem_append, not_or, not_or]
      exact ⟨by decide, colon, by decide⟩
    have read : position.bare (storePrefix ++ (name.text ++ '/' :: position.file.path)) =
        storePrefix ++ (name.text ++ '/' :: position.bare position.file.path) := by
      have split := position.bare_append front position.file.path
      simpa using split
    simp only [read]
    rw [if_neg (List.append_ne_nil_of_left_ne_nil (by decide) _), stripStoreCopy_storeCopy slash]
  | relative =>
    dsimp only
    split
    · rfl
    · exact stripStoreCopy_relative position.bare_head

theorem cutDown_iff {position : MetaPosition} {text path : List Char} :
    CutDown position.line text path ↔ position.bare text = path := by
  obtain ⟨form, file, line⟩ := position
  rw [MetaPosition.bare]
  dsimp only
  constructor
  · intro cut
    cases cut with
    | line line path => exact if_neg (Option.some_ne_none line)
    | noColon clean => exact (if_pos rfl).trans (uptoColon_of_not_mem clean)
    | colon front clean => exact (if_pos rfl).trans (uptoColon_of_colon clean _)
  · rintro rfl
    cases line with
    | some line =>
      rw [if_neg (Option.some_ne_none line)]
      exact .line line text
    | none =>
      rw [if_pos rfl]
      by_cases colon : ':' ∈ text
      · obtain ⟨back, split, ⟨empty⟩ | ⟨front, same⟩, clean⟩ := @exists_complete _ _ ':' text
        · rw [empty] at split
          rw [split] at colon
          exact absurd colon clean
        · rw [split, same, List.append_assoc, List.singleton_append, uptoColon_of_colon clean]
          exact .colon front clean
      · rw [uptoColon_of_not_mem colon]
        exact .noColon colon

theorem stripStoreCopy_eq_some {path rest : List Char} : stripStoreCopy path = some rest ↔
    (¬storePrefix <+: path ∧ path = rest) ∨ ∃ name, '/' ∉ name ∧ path = storePrefix ++ (name ++ '/' :: rest) := by
  rw [stripStoreCopy]
  cases found : storePrefix.isPrefixOf? path with
  | none =>
    have outside : ¬storePrefix <+: path := by
      rintro ⟨back, rfl⟩
      rw [List.isPrefixOf?_eq_some_iff_append_eq.mpr rfl] at found
      cases found
    dsimp only
    rw [Option.some.injEq]
    refine ⟨fun same => .inl ⟨outside, same⟩, ?_⟩
    rintro (⟨-, same⟩ | ⟨name, -, rfl⟩)
    · exact same
    · exact absurd (List.prefix_append _ _) outside
  | some back =>
    obtain rfl := List.isPrefixOf?_eq_some_iff_append_eq.mp found
    dsimp only
    rw [Option.map_eq_some_iff]
    constructor
    · rintro ⟨⟨name, after⟩, split, rfl⟩
      obtain ⟨rfl, single⟩ := splitOnce_eq_some_iff.mp split
      exact .inr ⟨name, single, rfl⟩
    · rintro (⟨outside, -⟩ | ⟨name, single, whole⟩)
      · exact absurd (List.prefix_append _ _) outside
      · rw [List.append_cancel_left_eq] at whole
        exact ⟨(name, rest), splitOnce_eq_some_iff.mpr ⟨whole, single⟩, rfl⟩

theorem takenFor_iff {root : List Char} {position : MetaPosition} {path : List Char} :
    TakenFor root position path ↔ position.readAs root = some path := by
  obtain ⟨form, file, line⟩ := position
  have cutTo : ∀ text cut, CutDown line text cut ↔ MetaPosition.bare ⟨form, file, line⟩ text = cut :=
    fun text cut => @cutDown_iff ⟨form, file, line⟩ text cut
  rw [MetaPosition.readAs]
  cases form with
  | storeCopy name =>
    dsimp only
    rw [Option.some.injEq, ← cutTo]
    constructor
    · rintro ⟨⟩
      assumption
    · exact .storeCopy name
  | relative =>
    dsimp only
    constructor
    · intro taken
      cases taken with
      | relative cut nonempty => rw [(cutTo _ _).mp cut, if_neg nonempty]
    · intro read
      by_cases empty : MetaPosition.bare ⟨.relative, file, line⟩ file.path = []
      · rw [if_pos empty] at read
        cases read
      · rw [if_neg empty] at read
        obtain rfl := Option.some.inj read
        exact .relative ((cutTo _ _).mpr rfl) empty
  | worktree =>
    dsimp only
    constructor
    · intro taken
      cases taken with
      | worktree cut nonempty outside =>
        rw [(cutTo _ _).mp cut, if_neg nonempty]
        exact stripStoreCopy_eq_some.mpr (.inl ⟨outside, rfl⟩)
      | stored single cut =>
        rw [(cutTo _ _).mp cut, if_neg (List.append_ne_nil_of_left_ne_nil (by decide) _)]
        exact stripStoreCopy_eq_some.mpr (.inr ⟨_, single, rfl⟩)
    · intro read
      by_cases empty : MetaPosition.bare ⟨.worktree, file, line⟩ (root ++ '/' :: file.path) = []
      · rw [if_pos empty] at read
        cases read
      · rw [if_neg empty] at read
        rcases stripStoreCopy_eq_some.mp read with ⟨outside, same⟩ | ⟨name, single, same⟩
        · rw [same] at outside empty
          exact .worktree ((cutTo _ _).mpr same) empty outside
        · exact .stored single ((cutTo _ _).mpr same)

theorem positionMap_getMetaPositions {table : DrvPositions DrvId} {drvPaths : List DrvId} {drvId : DrvId}
    {position : Option (List Char)} (listed : drvId ∈ drvPaths) (stored : (drvId, position) ∈ table.rows) :
    positionMap (getMetaPositions table drvPaths) drvId = some position := by
  rw [positionMap]
  have only : ∀ row ∈ (getMetaPositions table drvPaths).filter (fun row => row.1 = drvId), row = (drvId, position) := by
    intro row member
    obtain ⟨found, same⟩ := List.mem_filter.mp member
    obtain ⟨chunk, -, queried⟩ := List.mem_flatMap.mp found
    exact List.inj_on_of_nodup_map table.unique (List.mem_filter.mp queried).1 stored (of_decide_eq_true same)
  have some_row : (drvId, position) ∈ (getMetaPositions table drvPaths).filter (fun row => row.1 = drvId) := by
    rw [← flatten_chunks 199 drvPaths] at listed
    obtain ⟨chunk, member, inside⟩ := List.mem_flatten.mp listed
    refine List.mem_filter.mpr ⟨List.mem_flatMap.mpr ⟨chunk, member, List.mem_filter.mpr ⟨stored, ?_⟩⟩, ?_⟩
    · exact decide_eq_true inside
    · exact decide_eq_true rfl
  cases last : ((getMetaPositions table drvPaths).filter fun row => row.1 = drvId).getLast? with
  | none =>
    rw [List.getLast?_eq_none_iff.mp last] at some_row
    cases some_row
  | some row =>
    rw [only row (List.mem_of_getLast? last)]
    rfl

/-- What is documented of how git writes a path: as it is, or else in double quotes and with
escapes, so that none but printable characters are left. -/
structure QuotesPaths (quotePath : List Char → List Char) : Prop where
  plain : ∀ path, (∀ character ∈ path, ' ' ≤ character ∧ character ≤ '~' ∧ character ≠ '"' ∧ character ≠ '\\') →
    quotePath path = path
  quoted : ∀ path, quotePath path = path ∨ ∃ body, quotePath path = '"' :: (body ++ ['"'])
  printable : ∀ path, ∀ character ∈ quotePath path, ' ' ≤ character ∧ character ≤ '~'

section Edited

variable (quotePath : List Char → List Char)

def diffOutput (changed : List (List Char)) : List Char := (changed.map quotePath).flatMap (· ++ ['\n'])

/-- What the filter has of a path that git has written. -/
def shownAs (path : List Char) : List Char := trim (quotePath path)

/-- Jobs whose positions have been stored. -/
structure PositionedJobs (DrvId : Type) [DecidableEq DrvId] (root : List Char) where
  jobs : List (NewOrChangedJob DrvId)
  table : DrvPositions DrvId
  position : DrvId → MetaPosition
  stored : ∀ job ∈ jobs, (job.drvId, some ((position job.drvId).text root)) ∈ table.rows

/-- The jobs whose file is among the changed ones are kept, as they stand. -/
structure KeepsEdited {root : List Char} (changed : List (List Char)) (positioned : PositionedJobs DrvId root) : Prop where
  kept : directlyChanged (gitDiffChangedFiles (diffOutput quotePath changed)) positioned.table positioned.jobs =
    positioned.jobs.filter fun job => changed.contains (positioned.position job.drvId).file.path
  names : filterDirectlyChanged (some (diffOutput quotePath changed)) positioned.table positioned.jobs =
    some ((positioned.jobs.filter fun job => changed.contains (positioned.position job.drvId).file.path).map
      NewOrChangedJob.name)

/-- The position is taken for another file that is among the changed ones. -/
def MistakenFor (root : List Char) (changed : List (List Char)) (position : MetaPosition) : Prop :=
  ∃ other ∈ changed, other ≠ position.file.path ∧ TakenFor root position (shownAs quotePath other)

/-- The position of a changed file is taken for what git shows of the file, or for another
changed one; that of any other file is not. -/
structure ReadRight (root : List Char) (changed : List (List Char)) (position : MetaPosition) : Prop where
  edited : position.file.path ∈ changed →
    TakenFor root position (shownAs quotePath position.file.path) ∨ MistakenFor quotePath root changed position
  other : position.file.path ∉ changed → ¬ MistakenFor quotePath root changed position

variable {quotePath}

theorem gitDiffChangedFiles_diffOutput (git : QuotesPaths quotePath) (changed : List (List Char)) :
    gitDiffChangedFiles (diffOutput quotePath changed) = changed.map (shownAs quotePath) := by
  rw [gitDiffChangedFiles, diffOutput, strLines_flatMap, List.map_map]
  · rfl
  · intro line member
    obtain ⟨path, -, rfl⟩ := List.mem_map.mp member
    constructor
    · intro feed
      exact absurd (git.printable path _ feed).1 (by decide)
    · intro last
      exact absurd (git.printable path _ (List.mem_of_getLast? last)).1 (by decide)

variable {changed : List (List Char)} {position : MetaPosition} {root : List Char}

theorem readRight_iff :
    ReadRight quotePath root changed position ↔
      (position.file.path ∈ changed ↔ ∃ other ∈ changed, TakenFor root position (shownAs quotePath other)) := by
  constructor
  · rintro ⟨edited, other⟩
    constructor
    · intro member
      obtain own | ⟨found, listed, -, read⟩ := edited member
      · exact ⟨_, member, own⟩
      · exact ⟨found, listed, read⟩
    · rintro ⟨found, listed, read⟩
      by_contra outside
      refine other outside ⟨found, listed, ?_, read⟩
      rintro rfl
      exact outside listed
  · intro right
    constructor
    · intro member
      obtain ⟨found, listed, read⟩ := right.mp member
      by_cases same : found = position.file.path
      · rw [same] at read
        exact .inl read
      · exact .inr ⟨found, listed, same, read⟩
    · rintro outside ⟨found, listed, -, read⟩
      exact outside (right.mpr ⟨found, listed, read⟩)

theorem isDirectlyChanged_iff (git : QuotesPaths quotePath) (changed : List (List Char))
    (positioned : PositionedJobs DrvId root) {job : NewOrChangedJob DrvId} (listed : job ∈ positioned.jobs) :
    isDirectlyChanged (gitDiffChangedFiles (diffOutput quotePath changed))
        (positionMap (getMetaPositions positioned.table (positioned.jobs.map NewOrChangedJob.drvId))) job = true ↔
      ∃ other ∈ changed, TakenFor root (positioned.position job.drvId) (shownAs quotePath other) := by
  rw [isDirectlyChanged, positionMap_getMetaPositions (List.mem_map_of_mem listed) (positioned.stored job listed),
    gitDiffChangedFiles_diffOutput git]
  rw [Option.join_some]
  dsimp only
  rw [positionToRepoRelativePath_text]
  simp only [takenFor_iff]
  cases read : (positioned.position job.drvId).readAs root with
  | none => simp
  | some path => simp [eq_comm]

theorem filter_eq_filter_iff {A : Type} {first second : A → Bool} {items : List A} :
    items.filter first = items.filter second ↔ ∀ item ∈ items, first item = second item := by
  refine ⟨fun same item member => ?_, List.filter_congr⟩
  rw [Bool.eq_iff_iff]
  constructor
  · intro kept
    have member := List.mem_filter.mpr ⟨member, kept⟩
    rw [same] at member
    exact (List.mem_filter.mp member).2
  · intro kept
    have member := List.mem_filter.mpr ⟨member, kept⟩
    rw [← same] at member
    exact (List.mem_filter.mp member).2

theorem filterDirectlyChanged_eq (stdout : List Char) (table : DrvPositions DrvId)
    (changedJobs : List (NewOrChangedJob DrvId)) :
    filterDirectlyChanged (some stdout) table changedJobs =
      some ((directlyChanged (gitDiffChangedFiles stdout) table changedJobs).map NewOrChangedJob.name) := by
  rw [filterDirectlyChanged]
  split
  next empty => rw [empty, directlyChanged, List.filter_nil, List.map_nil]
  next =>
    rw [Option.bind_eq_bind, Option.bind_some]
    dsimp only
    split
    next empty =>
      have none_kept : directlyChanged (gitDiffChangedFiles stdout) table changedJobs = [] := by
        refine List.filter_eq_nil_iff.mpr fun job _ => ?_
        rw [isDirectlyChanged, empty]
        split
        · split <;> simp
        · simp
      rw [none_kept, List.map_nil]
    next => rfl

theorem directlyChanged_eq_iff (git : QuotesPaths quotePath) (changed : List (List Char))
    (positioned : PositionedJobs DrvId root) :
    directlyChanged (gitDiffChangedFiles (diffOutput quotePath changed)) positioned.table positioned.jobs =
        positioned.jobs.filter (fun job => changed.contains (positioned.position job.drvId).file.path) ↔
      ∀ job ∈ positioned.jobs, ReadRight quotePath root changed (positioned.position job.drvId) := by
  rw [directlyChanged, filter_eq_filter_iff]
  refine forall₂_congr fun job listed => ?_
  rw [Bool.eq_iff_iff, isDirectlyChanged_iff git changed positioned listed, List.contains_iff_mem, readRight_iff]
  exact Iff.comm

/-- The filter keeps the edited packages exactly if each position reads right. -/
theorem keepsEdited_iff (git : QuotesPaths quotePath) {root : List Char} (changed : List (List Char))
    (positioned : PositionedJobs DrvId root) :
    KeepsEdited quotePath changed positioned ↔
      ∀ job ∈ positioned.jobs, ReadRight quotePath root changed (positioned.position job.drvId) := by
  rw [← directlyChanged_eq_iff git changed positioned]
  refine ⟨KeepsEdited.kept, fun kept => ⟨kept, ?_⟩⟩
  rw [filterDirectlyChanged_eq, kept]

/-- A path of printable characters, none of them a quote or a backslash, and no blank at
either end. -/
structure IsPlainPath (path : List Char) : Prop where
  plain : ∀ character ∈ path, ' ' ≤ character ∧ character ≤ '~' ∧ character ≠ '"' ∧ character ≠ '\\'
  trimmed : trim path = path

theorem shownAs_plain (git : QuotesPaths quotePath) {path : List Char} (plain : IsPlainPath path) :
    shownAs quotePath path = path := by
  rw [shownAs, git.plain path plain.plain, plain.trimmed]

theorem mistakenFor_iff_of_plain (git : QuotesPaths quotePath) (plain : ∀ path ∈ changed, IsPlainPath path) :
    MistakenFor quotePath root changed position ↔
      ∃ other ∈ changed, other ≠ position.file.path ∧ TakenFor root position other := by
  refine exists_congr fun other => and_congr_right fun member => ?_
  rw [shownAs_plain git (plain other member)]

theorem readRight_of_plain (git : QuotesPaths quotePath) (plain : ∀ path ∈ changed, IsPlainPath path)
    (form : position.form ≠ .worktree) (line : position.line ≠ none ∨ ':' ∉ position.file.path) :
    ReadRight quotePath root changed position := by
  have bare : position.bare position.file.path = position.file.path := by
    rw [MetaPosition.bare]
    split
    next none => exact uptoColon_of_not_mem (line.resolve_left (not_not_intro none))
    next => rfl
  have read : position.readAs root = some position.file.path := by
    rw [MetaPosition.readAs, bare]
    cases spelled : position.form with
    | worktree => exact absurd spelled form
    | storeCopy name => rfl
    | relative => exact if_neg position.file.nonempty
  constructor
  · intro member
    rw [shownAs_plain git (plain _ member)]
    exact .inl (takenFor_iff.mpr read)
  · intro _ mistaken
    obtain ⟨other, -, different, same⟩ := (mistakenFor_iff_of_plain git plain).mp mistaken
    rw [takenFor_iff, read] at same
    exact different (Option.some.inj same).symm

theorem not_readRight_of_worktree (git : QuotesPaths quotePath)
    (plain : ∀ path ∈ changed, IsPlainPath path ∧ path.head? ≠ some '/') (form : position.form = .worktree)
    (line : position.line ≠ none) (absolute : root.head? = some '/')
    (outside : storePrefix.isPrefixOf? (root ++ '/' :: position.file.path) = none)
    (edited : position.file.path ∈ changed) : ¬ ReadRight quotePath root changed position := by
  have read : position.readAs root = some (root ++ '/' :: position.file.path) := by
    rw [MetaPosition.readAs, form]
    dsimp only
    rw [MetaPosition.bare, if_neg line, if_neg (List.append_ne_nil_of_right_ne_nil _ (List.cons_ne_nil _ _)),
      stripStoreCopy, outside]
  have slash : (root ++ '/' :: position.file.path).head? = some '/' := by
    rw [List.head?_append, absolute]
    rfl
  rw [readRight_iff]
  rintro right
  obtain ⟨other, member, same⟩ := right.mp edited
  obtain ⟨legible, relative⟩ := plain other member
  rw [shownAs_plain git legible, takenFor_iff, read] at same
  rw [← Option.some.inj same] at relative
  exact relative slash

def isUsual (character : Char) : Bool :=
  ' ' ≤ character && character ≤ '~' && character ≠ '"' && character ≠ '\\'

/-- Quotes like git's, with nothing in place of the characters that would be escaped. -/
def quoteUnusual (path : List Char) : List Char :=
  if path.all isUsual then path else '"' :: (path.filter isUsual ++ ['"'])

theorem isUsual_iff {character : Char} :
    isUsual character = true ↔ ' ' ≤ character ∧ character ≤ '~' ∧ character ≠ '"' ∧ character ≠ '\\' := by
  simp [isUsual, and_assoc]

theorem quoteUnusual_quotesPaths : QuotesPaths quoteUnusual where
  plain path usual := if_pos (List.all_eq_true.mpr fun character member => isUsual_iff.mpr (usual character member))
  quoted path := by
    rw [quoteUnusual]
    split
    · exact .inl rfl
    · exact .inr ⟨_, rfl⟩
  printable path character member := by
    rw [quoteUnusual] at member
    split at member
    next usual =>
      obtain ⟨low, high, -⟩ := isUsual_iff.mp (List.all_eq_true.mp usual character member)
      exact ⟨low, high⟩
    next =>
      obtain rfl | member := List.mem_cons.mp member
      · decide
      obtain kept | last := mem_snoc.mp member
      · obtain ⟨low, high, -⟩ := isUsual_iff.mp (List.mem_filter.mp kept).2
        exact ⟨low, high⟩
      · rw [last]
        decide

def helloFile : RepoFile := ⟨"pkgs/hello/default.nix".toList, by decide, by decide⟩

def helloWorktree : List Char := "/var/lib/ekaci/repos/worktrees/0c1e".toList

def helloJob : NewOrChangedJob String := ⟨"hello", .changed, "hello.drv", .queued⟩

/-- A job at line 34 of a file, in one of the spellings. -/
def helloJobs (form : PositionForm) : PositionedJobs String helloWorktree where
  jobs := [helloJob]
  table := ⟨[("hello.drv", some (MetaPosition.text helloWorktree ⟨form, helloFile, some 34⟩))], List.nodup_singleton _⟩
  position _ := ⟨form, helloFile, some 34⟩
  stored job listed := by
    rw [List.mem_singleton.mp listed]
    exact List.mem_singleton.mpr rfl

theorem helloFile_plain : ∀ path ∈ [helloFile.path], IsPlainPath path ∧ path.head? ≠ some '/' := by
  refine List.forall_mem_singleton.mpr ⟨⟨fun character member => ?_, by decide⟩, by decide⟩
  exact isUsual_iff.mp (List.all_eq_true.mp (by decide : helloFile.path.all isUsual = true) character member)

/-- By its path from the root the edited package is found. -/
theorem keepsEdited_helloRelative : KeepsEdited quoteUnusual [helloFile.path] (helloJobs .relative) :=
  (keepsEdited_iff quoteUnusual_quotesPaths _ _).mpr fun _ _ =>
    readRight_of_plain quoteUnusual_quotesPaths (fun path member => (helloFile_plain path member).1) (by simp [helloJobs])
      (.inl (by simp [helloJobs]))

/-- By its path in the worktree the edited package is not found. -/
theorem not_keepsEdited_helloWorktree : ¬ KeepsEdited quoteUnusual [helloFile.path] (helloJobs .worktree) := by
  intro keeps
  have right := (directlyChanged_eq_iff quoteUnusual_quotesPaths _ _).mp keeps.kept helloJob List.mem_cons_self
  exact not_readRight_of_worktree quoteUnusual_quotesPaths helloFile_plain rfl (by simp [helloJobs]) rfl rfl
    List.mem_cons_self right

end Edited

end EkaCI
