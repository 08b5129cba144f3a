import EkaCI.Lib.UnixPath
import EkaCI.Nix.DrvIdentifier

/-! Where the logs of a build and of its hooks are written, and where they are looked for. The
builder and the handlers name the directory by the hash, the executor of the hooks by the
derivation without its ending. -/

namespace EkaCI

open Lib (UnixPath)
open Lib.UnixPath (parts components marker isAbsolute isMarker walk resolve IsName)

/-- The answer of a handler: an error, or what the file holds. -/
inductive LogAnswer where
  | badRequest
  | internalError
  | contents (logPath : UnixPath)

def DrvIdentifier.drvHash (drv : DrvIdentifier) : List Char := drv.text.toList.take 32

/-- The pattern is taken off as often as it is there. -/
def trimEndMatches (pattern text : List Char) : List Char :=
  if pattern ≠ [] ∧ pattern <:+ text then trimEndMatches pattern (text.take (text.length - pattern.length)) else text
termination_by text.length
decreasing_by
  rename_i found
  have shorter := found.2.length_le
  have some := List.length_pos_of_ne_nil found.1
  rw [List.length_take]
  omega

def extractDrvHash (drvPath : List Char) : List Char := trimEndMatches ".drv".toList (stripStorePath drvPath)

def buildLogName : List Char := "build.log".toList

def hookLogName (hookName : String) : List Char := "hook-".toList ++ hookName.toList ++ ".log".toList

theorem trimEndMatches_of_suffix {pattern text : List Char} (some : pattern ≠ []) (found : pattern <:+ text) :
    trimEndMatches pattern text = trimEndMatches pattern (text.take (text.length - pattern.length)) := by
  rw [trimEndMatches, if_pos ⟨some, found⟩]

theorem trimEndMatches_of_not_suffix {pattern text : List Char} (none : ¬ pattern <:+ text) :
    trimEndMatches pattern text = text := by
  rw [trimEndMatches, if_neg fun found => none found.2]

section Paths

variable (logsDir : UnixPath)

/-- The file that the builder writes. -/
def buildDrvWithLogging (drv : DrvIdentifier) : UnixPath := (logsDir.push drv.drvHash).push buildLogName

/-- The file that a hook's output is written to. -/
def executeHook (drvPath hookName : String) : UnixPath :=
  (logsDir.push (extractDrvHash drvPath.toList)).push (hookLogName hookName)

def pathIsUnder (base candidate : UnixPath) : Bool :=
  candidate.startsWith base &&
    ((parts candidate.text).drop (parts base.text).length).all fun name =>
      name ≠ ['/'] && name ≠ ['.'] && name ≠ ['.', '.']

def serveLog (drv : String) (name : List Char) : LogAnswer :=
  match DrvIdentifier.tryFrom drv with
  | none => .badRequest
  | some drv =>
    let logPath := (logsDir.push drv.drvHash).push name
    if pathIsUnder logsDir logPath then .contents logPath else .internalError

def getDerivationLog (drv : String) : LogAnswer := serveLog logsDir drv buildLogName

def getHookLog (drv hookName : String) : LogAnswer := serveLog logsDir drv (hookLogName hookName)

end Paths

theorem trimEndMatches_prefix (pattern text : List Char) : trimEndMatches pattern text <+: text := by
  induction size : text.length using Nat.strong_induction_on generalizing text with
  | _ size ih =>
    subst size
    rw [trimEndMatches]
    split
    next found =>
      have shorter := found.2.length_le
      have some := List.length_pos_of_ne_nil found.1
      refine (ih _ ?_ _ rfl).trans (List.take_prefix _ _)
      rw [List.length_take]
      omega
    next => exact List.prefix_rfl

theorem trimEndMatches_append {pattern : List Char} {keeps : Char} (apart : keeps ∉ pattern) (some : pattern ≠ [])
    (front rest : List Char) :
    trimEndMatches pattern (front ++ keeps :: rest) = front ++ keeps :: trimEndMatches pattern rest := by
  induction size : rest.length using Nat.strong_induction_on generalizing rest with
  | _ size ih =>
    subst size
    by_cases found : pattern <:+ rest
    · obtain ⟨start, rfl⟩ := found
      have found : pattern <:+ front ++ keeps :: (start ++ pattern) :=
        (List.suffix_append start pattern).trans ((List.suffix_cons _ _).trans (List.suffix_append _ _))
      have shorter : (front ++ keeps :: (start ++ pattern)).length - pattern.length = (front ++ keeps :: start).length := by
        simp only [List.length_append, List.length_cons]
        omega
      have split : front ++ keeps :: (start ++ pattern) = (front ++ keeps :: start) ++ pattern := by simp
      have fewer : start.length < (start ++ pattern).length := by
        have positive := List.length_pos_of_ne_nil some
        rw [List.length_append]
        omega
      rw [trimEndMatches_of_suffix some found, shorter, split, List.take_left' rfl, ih start.length fewer start rfl,
        trimEndMatches_of_suffix some (List.suffix_append _ _), List.length_append, Nat.add_sub_cancel, List.take_left' rfl]
    · have whole : ¬ pattern <:+ front ++ keeps :: rest := by
        intro suffix
        obtain shorter | ⟨init, rfl⟩ := List.suffix_or_suffix_of_suffix suffix (List.suffix_append front (keeps :: rest))
        · obtain same | inner := List.suffix_cons_iff.mp shorter
          · exact apart (by rw [same]; exact List.mem_cons_self)
          · exact found inner
        · exact apart (List.mem_append_right _ List.mem_cons_self)
      rw [trimEndMatches_of_not_suffix whole, trimEndMatches_of_not_suffix found]

theorem DrvIdentifier.exists_hash_name (drv : DrvIdentifier) :
    ∃ hash name, drv.text.toList = hash ++ '-' :: (name ++ ".drv".toList) ∧ hash.length = 32 ∧
      (∀ character ∈ hash, character ∈ nixBase32Alphabet) := by
  have valid := drv.valid
  rw [isDrvId, Bool.and_eq_true, Bool.and_eq_true] at valid
  obtain ⟨⟨-, ending⟩, stem⟩ := valid
  obtain ⟨start, same⟩ := List.isSuffixOf_iff_suffix.mp ending
  have stem : isHashAndName start = true := by
    rw [← same] at stem
    simpa using stem
  rw [isHashAndName] at stem
  split at stem
  next => cases stem
  next dash name rest =>
    simp only [Bool.and_eq_true, List.all_eq_true, decide_eq_true_eq] at stem
    obtain ⟨⟨⟨-, length⟩, hash⟩, -⟩ := stem
    have first := List.head_dropWhile_not (p := fun c : Char => decide (c ≠ '-')) (l := start) (by rw [rest]; simp)
    have dash : dash = '-' := by
      simp only [rest, List.head_cons] at first
      simpa using first
    subst dash
    refine ⟨_, name, ?_, length, hash⟩
    rw [← same, ← List.cons_append, ← List.append_assoc, ← rest, List.takeWhile_append_dropWhile]

theorem DrvIdentifier.extractDrvHash_storePath (drv : DrvIdentifier) :
    ∃ hash name, drv.drvHash = hash ∧ hash.length = 32 ∧ (∀ character ∈ hash, character ∈ nixBase32Alphabet) ∧
      drv.text.toList = hash ++ '-' :: (name ++ ".drv".toList) ∧
      extractDrvHash drv.storePath.toList = hash ++ '-' :: trimEndMatches ".drv".toList name := by
  obtain ⟨hash, name, text, length, plain⟩ := drv.exists_hash_name
  have ending : ".drv".toList ≠ [] := by decide
  refine ⟨hash, name, ?_, length, plain, text, ?_⟩
  · rw [drvHash, text, List.take_left' length]
  · rw [extractDrvHash, drv.stripStorePath_storePath, text, trimEndMatches_append (by decide) ending,
      trimEndMatches_of_suffix ending (List.suffix_append _ _), List.length_append, Nat.add_sub_cancel,
      List.take_left' rfl]

theorem DrvIdentifier.extractDrvHash_ne_drvHash (drv : DrvIdentifier) :
    extractDrvHash drv.storePath.toList ≠ drv.drvHash := by
  obtain ⟨hash, name, same, -, -, -, stem⟩ := drv.extractDrvHash_storePath
  rw [stem, same]
  intro equal
  have lengths := congrArg List.length equal
  rw [List.length_append, List.length_cons] at lengths
  omega

theorem isName_of_long {text : List Char} (long : 2 < text.length) (inside : '/' ∉ text) : IsName text := by
  refine ⟨?_, inside, ?_, ?_⟩ <;>
  · rintro rfl
    simp at long

theorem DrvIdentifier.drvHash_isName (drv : DrvIdentifier) : IsName drv.drvHash := by
  obtain ⟨hash, name, same, length, plain, text, -⟩ := drv.extractDrvHash_storePath
  rw [same]
  refine isName_of_long (by omega) fun inside => drv.slash_not_mem ?_
  rw [text]
  exact List.mem_append_left _ inside

theorem DrvIdentifier.extractDrvHash_isName (drv : DrvIdentifier) : IsName (extractDrvHash drv.storePath.toList) := by
  obtain ⟨hash, name, -, length, plain, text, stem⟩ := drv.extractDrvHash_storePath
  have shorter : extractDrvHash drv.storePath.toList <+: drv.text.toList := by
    rw [extractDrvHash, drv.stripStorePath_storePath]
    exact trimEndMatches_prefix _ _
  refine isName_of_long ?_ fun inside => drv.slash_not_mem (shorter.subset inside)
  rw [stem, List.length_append]
  omega

variable (cwd : List (List Char))

theorem resolve_log (logsDir : UnixPath) {directory name : List Char} (plain : IsName directory)
    (relative : isAbsolute name = false) :
    resolve cwd ((logsDir.push directory).push name) = walk (resolve cwd logsDir ++ [directory]) (components name) := by
  rw [UnixPath.resolve_push cwd _ relative, UnixPath.resolve_push cwd _ plain.relative, plain.components,
    UnixPath.walk_cons, UnixPath.walk_nil, plain.enter]

theorem marker_hookLogName (hookName : String) : marker (hookLogName hookName) = [] :=
  UnixPath.marker_cons (by decide) (by decide)

theorem marker_buildLogName : marker buildLogName = [] := UnixPath.marker_cons (by decide) (by decide)

/-- The path is the one of a directory or leads to somewhere below it. -/
def LiesBelow (cwd : List (List Char)) (base path : UnixPath) : Prop := resolve cwd base <+: resolve cwd path

theorem pathIsUnder_iff {base candidate : UnixPath} :
    pathIsUnder base candidate = true ↔
      ∃ names, parts candidate.text = parts base.text ++ names ∧
        ∀ name ∈ names, name ≠ ['/'] ∧ name ≠ ['.'] ∧ name ≠ ['.', '.'] := by
  rw [pathIsUnder, Bool.and_eq_true, UnixPath.startsWith, decide_eq_true_eq]
  constructor
  · rintro ⟨⟨names, same⟩, plain⟩
    refine ⟨names, same.symm, fun name member => ?_⟩
    rw [← same, List.drop_left] at plain
    simpa [and_assoc] using List.all_eq_true.mp plain name member
  · rintro ⟨names, same, plain⟩
    refine ⟨⟨names, same.symm⟩, List.all_eq_true.mpr fun name member => ?_⟩
    rw [same, List.drop_left] at member
    simpa [and_assoc] using plain name member

theorem liesBelow_of_pathIsUnder {base candidate : UnixPath} (under : pathIsUnder base candidate = true)
    (cwd : List (List Char)) : LiesBelow cwd base candidate := by
  obtain ⟨names, same, plain⟩ := pathIsUnder_iff.mp under
  have start : names.filter isMarker = [] := by
    refine List.filter_eq_nil_iff.mpr fun name member => ?_
    obtain ⟨slash, dot, -⟩ := plain name member
    simp [isMarker, slash, dot]
  obtain ⟨absolute, more⟩ := UnixPath.components_of_parts same start
  rw [LiesBelow, resolve, resolve, absolute, more, UnixPath.walk_append,
    UnixPath.walk_down fun name member => (plain name member).2.2]
  exact List.prefix_append _ _

variable {drv : DrvIdentifier} {logsDir : UnixPath} {value hookName : String}

theorem serveLog_of_tryFrom {name : List Char} (read : DrvIdentifier.tryFrom value = some drv)
    (plain : marker name = []) :
    serveLog logsDir value name =
      if ['.', '.'] ∈ components name then .internalError else .contents ((logsDir.push drv.drvHash).push name) := by
  have under : pathIsUnder logsDir ((logsDir.push drv.drvHash).push name) = true ↔ ['.', '.'] ∉ components name := by
    rw [pathIsUnder_iff, UnixPath.parts_push _ plain, UnixPath.parts_push _ drv.drvHash_isName.marker,
      drv.drvHash_isName.components, List.append_assoc]
    constructor
    · rintro ⟨names, same, down⟩ upwards
      rw [← List.append_cancel_left same] at down
      exact (down _ (List.mem_append_right _ upwards)).2.2 rfl
    · refine fun down => ⟨_, rfl, fun other member => ?_⟩
      obtain here | later := List.mem_append.mp member
      · obtain ⟨-, inside, dot, upwards⟩ := drv.drvHash_isName
        rw [List.mem_singleton.mp here]
        exact ⟨fun slash => inside (by rw [slash]; exact List.mem_cons_self), dot, upwards⟩
      · obtain ⟨-, inside, dot⟩ := UnixPath.ne_of_mem_components later
        refine ⟨fun slash => inside (by rw [slash]; exact List.mem_cons_self), dot, ?_⟩
        rintro rfl
        exact down later
  rw [serveLog, read]
  dsimp only
  split_ifs <;> simp_all

theorem resolve_executeHook (logsDir : UnixPath) (drv : DrvIdentifier) (hookName : String) :
    resolve cwd (executeHook logsDir drv.storePath hookName) =
      walk (resolve cwd logsDir ++ [extractDrvHash drv.storePath.toList]) (components (hookLogName hookName)) :=
  resolve_log cwd logsDir drv.extractDrvHash_isName (UnixPath.relative_of_marker (marker_hookLogName hookName))

theorem resolve_buildDrvWithLogging (logsDir : UnixPath) (drv : DrvIdentifier) :
    resolve cwd (buildDrvWithLogging logsDir drv) = resolve cwd logsDir ++ [drv.drvHash, buildLogName] := by
  rw [buildDrvWithLogging, resolve_log cwd logsDir drv.drvHash_isName (by decide)]
  simp [show components buildLogName = [buildLogName] by decide, show buildLogName ≠ ['.', '.'] by decide, UnixPath.enter]

theorem resolve_executeHook_down (down : ['.', '.'] ∉ components (hookLogName hookName)) (cwd : List (List Char))
    (logsDir : UnixPath) (drv : DrvIdentifier) :
    resolve cwd (executeHook logsDir drv.storePath hookName) =
      resolve cwd logsDir ++ extractDrvHash drv.storePath.toList :: components (hookLogName hookName) := by
  rw [resolve_executeHook, UnixPath.walk_down, List.append_assoc]
  · rfl
  · rintro name member rfl
    exact down member

theorem executeHook_liesBelow (down : ['.', '.'] ∉ components (hookLogName hookName)) (cwd : List (List Char))
    (logsDir : UnixPath) (drv : DrvIdentifier) :
    LiesBelow cwd logsDir (executeHook logsDir drv.storePath hookName) := by
  rw [LiesBelow, resolve_executeHook_down down]
  exact List.prefix_append _ _

theorem buildDrvWithLogging_liesBelow (logsDir : UnixPath) (drv : DrvIdentifier) :
    LiesBelow cwd logsDir (buildDrvWithLogging logsDir drv) := by
  rw [LiesBelow, resolve_buildDrvWithLogging]
  exact List.prefix_append _ _

theorem getDerivationLog_of_tryFrom (logsDir : UnixPath) (read : DrvIdentifier.tryFrom value = some drv) :
    getDerivationLog logsDir value = .contents (buildDrvWithLogging logsDir drv) := by
  rw [getDerivationLog, serveLog_of_tryFrom read marker_buildLogName, if_neg (by decide)]
  rfl

theorem getHookLog_elsewhere {cwd : List (List Char)} {logPath : UnixPath}
    (served : getHookLog logsDir drv.storePath hookName = .contents logPath) :
    resolve cwd logPath ≠ resolve cwd (executeHook logsDir drv.storePath hookName) := by
  rw [getHookLog, serveLog_of_tryFrom drv.tryFrom_storePath (marker_hookLogName hookName)] at served
  split at served
  next => cases served
  next down =>
    cases served
    rw [resolve_executeHook_down down, resolve_log cwd logsDir drv.drvHash_isName
      (UnixPath.relative_of_marker (marker_hookLogName hookName)), UnixPath.walk_down, List.append_assoc]
    · intro same
      exact drv.extractDrvHash_ne_drvHash (List.cons.inj (List.append_cancel_left same)).1.symm
    · rintro name member rfl
      exact down member

/-- Two hooks that write below their directories share a file exactly if both the directories
and the files go by the same names. -/
theorem executeHook_shared_iff {otherName : String} (down : ['.', '.'] ∉ components (hookLogName hookName))
    (down' : ['.', '.'] ∉ components (hookLogName otherName)) (cwd : List (List Char)) (logsDir : UnixPath)
    (drv other : DrvIdentifier) :
    resolve cwd (executeHook logsDir drv.storePath hookName) = resolve cwd (executeHook logsDir other.storePath otherName) ↔
      extractDrvHash drv.storePath.toList = extractDrvHash other.storePath.toList ∧
        components (hookLogName hookName) = components (hookLogName otherName) := by
  rw [resolve_executeHook_down down, resolve_executeHook_down down', List.append_right_inj, List.cons.injEq]

theorem executeHook_ne_buildLog (down : ['.', '.'] ∉ components (hookLogName hookName)) (cwd : List (List Char))
    (logsDir : UnixPath) (drv other : DrvIdentifier) :
    resolve cwd (executeHook logsDir drv.storePath hookName) ≠ resolve cwd (buildDrvWithLogging logsDir other) := by
  rw [resolve_executeHook_down down, resolve_buildDrvWithLogging]
  intro same
  have single := (List.cons.inj (List.append_cancel_left same)).2
  have starts : hookLogName hookName = 'h' :: ("ook-".toList ++ hookName.toList ++ ".log".toList) := rfl
  obtain ⟨more, others, first⟩ := @UnixPath.components_cons ("ook-".toList ++ hookName.toList ++ ".log".toList) _
    (show 'h' ≠ '/' by decide) (by decide)
  rw [starts, first] at single
  have letters := (List.cons.inj (List.cons.inj single).1).1
  exact absurd letters (by decide)

theorem executeHook_of_append {other : DrvIdentifier} (text : other.text = drv.text ++ ".drv") (logsDir : UnixPath)
    (hookName : String) : executeHook logsDir other.storePath hookName = executeHook logsDir drv.storePath hookName := by
  have stem : extractDrvHash other.storePath.toList = extractDrvHash drv.storePath.toList := by
    rw [extractDrvHash, extractDrvHash, other.stripStorePath_storePath, drv.stripStorePath_storePath, text,
      String.toList_append, trimEndMatches_of_suffix (by decide) (List.suffix_append _ _), List.length_append,
      Nat.add_sub_cancel, List.take_left' rfl]
  rw [executeHook, executeHook, stem]

/-- The logs of a drv and of a hook are read where they were written, and nowhere else. -/
structure LogsReadBack (cwd : List (List Char)) (logsDir : UnixPath) (drv : DrvIdentifier) (hookName : String) : Prop where
  hook : ∀ value, DrvIdentifier.tryFrom value = some drv → ∃ logPath, getHookLog logsDir value hookName = .contents logPath ∧
    resolve cwd logPath = resolve cwd (executeHook logsDir drv.storePath hookName)
  build : ∀ value, DrvIdentifier.tryFrom value = some drv → ∃ logPath, getDerivationLog logsDir value = .contents logPath ∧
    resolve cwd logPath = resolve cwd (buildDrvWithLogging logsDir drv)
  hookBelow : ∀ cacheId, hookName = "push-" ++ cacheId →
    LiesBelow cwd logsDir (executeHook logsDir drv.storePath hookName)
  buildBelow : LiesBelow cwd logsDir (buildDrvWithLogging logsDir drv)
  apart : ∀ other otherName, (other, otherName) ≠ (drv, hookName) →
    resolve cwd (executeHook logsDir drv.storePath hookName) ≠ resolve cwd (executeHook logsDir other.storePath otherName)
  buildApart : ∀ other,
    resolve cwd (executeHook logsDir drv.storePath hookName) ≠ resolve cwd (buildDrvWithLogging logsDir other)
  under : ∀ base candidate, pathIsUnder base candidate = true → LiesBelow cwd base candidate

/-- The executor and the handler never go by the same directory. -/
theorem not_logsReadBack (cwd : List (List Char)) (logsDir : UnixPath) (drv : DrvIdentifier) (hookName : String) :
    ¬ LogsReadBack cwd logsDir drv hookName := by
  intro reads
  obtain ⟨logPath, served, same⟩ := reads.hook drv.storePath drv.tryFrom_storePath
  exact getHookLog_elsewhere served same

/-- Of a drv whose name is `hello-2.12.1`, the log of a push is looked for where it is not. -/
theorem hello_not_logsReadBack :
    ¬ LogsReadBack [] ⟨"/var/lib/ekaci/logs".toList⟩
      ⟨"jd83l3jn2mkn530lgcg0y523jq5qji85-hello-2.12.1.drv", by decide⟩ "push-main" := by
  intro reads
  obtain ⟨logPath, served, same⟩ := reads.hook _ (DrvIdentifier.tryFrom_storePath _)
  exact getHookLog_elsewhere served same

end EkaCI
