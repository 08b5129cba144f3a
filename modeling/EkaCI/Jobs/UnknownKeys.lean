import EkaCI.Jobs.Config
import EkaCI.Lib.Shape

/-! The keys of a configuration that nothing reads. They are found by comparing the document with
the configuration that was read from it, serialised again. -/

namespace EkaCI

open Lib Json

/-- The alias of a field, and the field. -/
def aliases : List (String × String) := [("allow-eval-failures", "allow_eval_failures")]

def canonical (key : String) : Option String := (aliases.find? fun entry => entry.1 = key).map Prod.snd

def textShape : Shape := .leaf fun json => (getStr json).map .str

def flagShape : Shape := .leaf fun json => (getBool json).map .bool

def countShape : Shape := .leaf fun json => (getU64 json).map fun count => .int count

/-- How a number is rounded to a double is left out. -/
def numberShape : Shape := .leaf fun json => (getNumber json).map .float

def textsShape : Shape := .leaf fun json => (getList getStr json).map fun texts => .arr (texts.map .str)

def flagField (name : String) (absent : Bool) : Field := ⟨name, [], some (.bool absent), flagShape⟩

def optionalField (name : String) (shape : Shape) : Field := ⟨name, [], some .null, shape.optional⟩

def SizeCheck.fields : List Field :=
  [⟨"max_increase_percent", [], none, numberShape⟩, ⟨"base_branch", [], some (.str "main"), textShape⟩]

def PassthruTestsConfig.fields : List Field := [flagField "enable" false]

def ConfigJob.fields : List Field :=
  [⟨"file", [], none, textShape⟩,
    ⟨"allow_eval_failures", ["allow-eval-failures"], some (.bool true), flagShape⟩,
    ⟨"caches", [], some (.arr []), textsShape⟩,
    optionalField "size_check" (.record SizeCheck.fields),
    optionalField "passthru_tests" (.record PassthruTestsConfig.fields)]

def ConfigCheck.fields : List Field :=
  [optionalField "shell" textShape, flagField "shell_nix" false, ⟨"command", [], none, textShape⟩,
    flagField "allow_network" false]

def ConfigSkill.fields : List Field :=
  [⟨"prompt_file", [], none, textShape⟩, optionalField "model" textShape, flagField "advisory" false]

/-- `FlakeChecksConfig` and `FlakePackagesConfig`. -/
def FlakeConfig.partFields : List Field := [flagField "enable" false]

def FlakeConfig.fields : List Field :=
  [⟨"checks", [], some (.obj [("enable", .bool false)]), .record partFields⟩,
    ⟨"packages", [], some (.obj [("enable", .bool false)]), .record partFields⟩]

def PackageChangeSummaryConfig.fields : List Field :=
  [flagField "enabled" true, ⟨"max_packages_listed", [], some (.int 100), countShape⟩, flagField "include_rebuild_only" false]

def RebuildImpactConfig.fields : List Field :=
  [flagField "enabled" true, ⟨"max_top_blast_radius", [], some (.int 5), countShape⟩,
    flagField "compute_full_blast_radius" false]

def mapField (name : String) (fields : List Field) : Field := ⟨name, [], some (.obj []), .map (.record fields)⟩

def CIConfig.fields : List Field :=
  [mapField "jobs" ConfigJob.fields, mapField "checks" ConfigCheck.fields, mapField "skills" ConfigSkill.fields,
    optionalField "flake" (.record FlakeConfig.fields),
    optionalField "package_change_summary" (.record PackageChangeSummaryConfig.fields),
    optionalField "rebuild_impact" (.record RebuildImpactConfig.fields)]

def CIConfig.shape : Shape := .record CIConfig.fields

/-- The names on the way to each unknown key. -/
def unknownPaths (document config : Json) : List (List String) := collectUnknown canonical (held document) config

/-- The names with a dot between, as they are put together on the way down. -/
def report (path : List String) : String :=
  path.foldl (fun front key => if front.isEmpty then key else front ++ "." ++ key) ""

/-- The configuration as it is serialised again, and the unknown keys, as the raw value lists them. -/
def CIConfig.fromStr (document : Json) : Option (Json × List String) :=
  (CIConfig.shape.read document).map fun config => (config, (unknownPaths document config).map report)

/-- The document without every key that a reported text is the text of. -/
def withoutReported (document : Json) (reported : List String) : Json :=
  erase (fun path => decide (report path ∈ reported)) document

/-- Without the reported keys the document reads as the same configuration and nothing is reported,
and every key that the deserialiser passes over is reported. -/
structure ReportsExactly (document config : Json) (reported : List String) : Prop where
  deleted : CIConfig.fromStr (withoutReported document reported) = some (config, [])
  complete : ∀ place ∈ keyPaths document, CIConfig.shape.Unknown place →
    ∃ path, place = keys path ∧ report path ∈ reported

/-- The text is that of a key that is passed over, to which the way leads through objects, and each
time through the last value under a name. -/
def Alike (document : Json) (path : List String) : Prop :=
  ∃ other, CIConfig.shape.Unknown (keys other) ∧ Reachable document other ∧ report other = report path

open Classical in
/-- Names that are read may have the text of such a key as well: they would go with it. -/
noncomputable def alike (document : Json) (path : List String) : Bool := decide (Alike document path)

theorem canonical_eq_some_iff {key name : String} :
    canonical key = some name ↔ key = "allow-eval-failures" ∧ name = "allow_eval_failures" := by
  by_cases same : "allow-eval-failures" = key
  · subst same
    constructor
    · intro stands
      exact ⟨rfl, (Option.some.inj stands).symm⟩
    · rintro ⟨-, rfl⟩
      rfl
  · have absent : canonical key = none := by
      rw [canonical, aliases, List.find?_cons_of_neg (by simpa using same)]
      rfl
    rw [absent]
    constructor
    · exact nofun
    · rintro ⟨rfl, -⟩
      exact absurd rfl same

theorem wellNamed_of {fields : List Field} (distinct : (fields.map Field.name).Nodup)
    (aliases : ∀ field ∈ fields, field.aliases = if field.name = "allow_eval_failures" then ["allow-eval-failures"] else [])
    (plain : ∀ field ∈ fields, field.name ≠ "allow-eval-failures") : Shape.WellNamed canonical fields where
  distinct := distinct
  aliases field member key := by
    rw [aliases field member, canonical_eq_some_iff]
    split
    next same => simp [same]
    next other => simp [other]
  plain field member := by
    refine Option.eq_none_iff_forall_ne_some.mpr fun name stands => ?_
    exact plain field member (canonical_eq_some_iff.mp stands).1

theorem lawful_text : textShape.Lawful canonical := Shape.lawful_leaf fun _ => rfl

theorem lawful_flag : flagShape.Lawful canonical := Shape.lawful_leaf fun _ => rfl

theorem lawful_count : countShape.Lawful canonical := Shape.lawful_leaf fun _ => rfl

theorem lawful_number : numberShape.Lawful canonical := Shape.lawful_leaf fun _ => rfl

theorem lawful_texts : textsShape.Lawful canonical := Shape.lawful_leaf fun _ => rfl

/-- Every field is lawful if each one in the list is. -/
def AllLawful (fields : List Field) : Prop := ∀ field ∈ fields, field.shape.Lawful canonical

theorem allLawful_nil : AllLawful [] := List.forall_mem_nil _

theorem AllLawful.cons {field : Field} {rest : List Field} (others : AllLawful rest) (lawful : field.shape.Lawful canonical) :
    AllLawful (field :: rest) := List.forall_mem_cons.mpr ⟨lawful, others⟩

theorem SizeCheck.lawful : (Shape.record SizeCheck.fields).Lawful canonical :=
  Shape.lawful_record (wellNamed_of (by decide) (by decide) (by decide)) ((allLawful_nil.cons lawful_text).cons lawful_number)

theorem PassthruTestsConfig.lawful : (Shape.record PassthruTestsConfig.fields).Lawful canonical :=
  Shape.lawful_record (wellNamed_of (by decide) (by decide) (by decide)) (allLawful_nil.cons lawful_flag)

theorem ConfigJob.lawful : (Shape.record ConfigJob.fields).Lawful canonical := by
  refine Shape.lawful_record (wellNamed_of (by decide) (by decide) (by decide)) ?_
  have optionals : AllLawful (ConfigJob.fields.drop 3) :=
    (allLawful_nil.cons (Shape.lawful_optional PassthruTestsConfig.lawful)).cons (Shape.lawful_optional SizeCheck.lawful)
  exact ((optionals.cons lawful_texts).cons lawful_flag).cons lawful_text

theorem ConfigCheck.lawful : (Shape.record ConfigCheck.fields).Lawful canonical :=
  Shape.lawful_record (wellNamed_of (by decide) (by decide) (by decide))
    ((((allLawful_nil.cons lawful_flag).cons lawful_text).cons lawful_flag).cons (Shape.lawful_optional lawful_text))

theorem ConfigSkill.lawful : (Shape.record ConfigSkill.fields).Lawful canonical :=
  Shape.lawful_record (wellNamed_of (by decide) (by decide) (by decide))
    (((allLawful_nil.cons lawful_flag).cons (Shape.lawful_optional lawful_text)).cons lawful_text)

theorem FlakeConfig.lawful_part : (Shape.record FlakeConfig.partFields).Lawful canonical :=
  Shape.lawful_record (wellNamed_of (by decide) (by decide) (by decide)) (allLawful_nil.cons lawful_flag)

theorem FlakeConfig.lawful : (Shape.record FlakeConfig.fields).Lawful canonical :=
  Shape.lawful_record (wellNamed_of (by decide) (by decide) (by decide)) ((allLawful_nil.cons lawful_part).cons lawful_part)

theorem PackageChangeSummaryConfig.lawful : (Shape.record PackageChangeSummaryConfig.fields).Lawful canonical :=
  Shape.lawful_record (wellNamed_of (by decide) (by decide) (by decide))
    (((allLawful_nil.cons lawful_flag).cons lawful_count).cons lawful_flag)

theorem RebuildImpactConfig.lawful : (Shape.record RebuildImpactConfig.fields).Lawful canonical :=
  Shape.lawful_record (wellNamed_of (by decide) (by decide) (by decide))
    (((allLawful_nil.cons lawful_flag).cons lawful_count).cons lawful_flag)

theorem CIConfig.lawful : CIConfig.shape.Lawful canonical := by
  refine Shape.lawful_record (wellNamed_of (by decide) (by decide) (by decide)) ?_
  have optionals : AllLawful (CIConfig.fields.drop 3) :=
    ((allLawful_nil.cons (Shape.lawful_optional RebuildImpactConfig.lawful)).cons
      (Shape.lawful_optional PackageChangeSummaryConfig.lawful)).cons (Shape.lawful_optional FlakeConfig.lawful)
  exact ((optionals.cons (Shape.lawful_map ConfigSkill.lawful)).cons (Shape.lawful_map ConfigCheck.lawful)).cons
    (Shape.lawful_map ConfigJob.lawful)

theorem mem_unknownPaths_iff {document config : Json} (accepted : CIConfig.shape.read document = some config)
    (path : List String) :
    path ∈ unknownPaths document config ↔ CIConfig.shape.Unknown (keys path) ∧ Reachable document path :=
  CIConfig.lawful.collected document config path accepted

theorem mem_reported_iff {document config : Json} (accepted : CIConfig.shape.read document = some config) (path : List String) :
    report path ∈ (unknownPaths document config).map report ↔ Alike document path := by
  rw [List.mem_map]
  refine exists_congr fun other => ?_
  rw [mem_unknownPaths_iff accepted, and_assoc]

theorem deleted_iff {document config : Json} (accepted : CIConfig.shape.read document = some config) :
    CIConfig.fromStr (withoutReported document ((unknownPaths document config).map report)) = some (config, []) ↔
      CIConfig.shape.Spares (alike document) document := by
  have gone : withoutReported document ((unknownPaths document config).map report) = erase (alike document) document := by
    refine congrArg (fun dead => erase dead document) (funext fun path => ?_)
    exact decide_eq_decide.mpr (mem_reported_iff accepted path)
  rw [gone, ← CIConfig.lawful.kept _ document config accepted, CIConfig.fromStr]
  constructor
  · intro same
    obtain ⟨output, read, equal⟩ := Option.map_eq_some_iff.mp same
    obtain ⟨rfl, -⟩ := Prod.mk.inj equal
    exact read
  · intro read
    have clean : unknownPaths (erase (alike document) document) config = [] := by
      refine List.eq_nil_iff_forall_not_mem.mpr fun path inside => ?_
      obtain ⟨unknown, reachable⟩ := (mem_unknownPaths_iff read path).mp inside
      have some_ : path ≠ [] := by
        rintro rfl
        exact CIConfig.lawful.root unknown
      obtain ⟨before, kept⟩ := reachable_erase some_ reachable
      rw [alike, decide_eq_false_iff_not] at kept
      exact kept ⟨path, unknown, before, rfl⟩
    rw [read, Option.map_some, clean]
    rfl

/-- The report of an accepted document is exact, exactly if every key that is passed over has the
text of one in view, and what is read has such a text only where it can go. -/
theorem reportsExactly_iff {document config : Json} {reported : List String}
    (accepted : CIConfig.fromStr document = some (config, reported)) :
    ReportsExactly document config reported ↔
      (∀ place ∈ keyPaths document, CIConfig.shape.Unknown place → ∃ path, place = keys path ∧ Alike document path) ∧
        CIConfig.shape.Spares (alike document) document := by
  obtain ⟨output, read, same⟩ := Option.map_eq_some_iff.mp accepted
  obtain ⟨rfl, rfl⟩ := Prod.mk.inj same
  constructor
  · intro exact_
    refine ⟨fun place listed unknown => ?_, (deleted_iff read).mp exact_.deleted⟩
    obtain ⟨path, named, inside⟩ := exact_.complete place listed unknown
    exact ⟨path, named, (mem_reported_iff read path).mp inside⟩
  · rintro ⟨covered, spares⟩
    refine ⟨(deleted_iff read).mpr spares, fun place listed unknown => ?_⟩
    obtain ⟨path, named, there⟩ := covered place listed unknown
    exact ⟨path, named, (mem_reported_iff read path).mpr there⟩

/-- A misspelt key of a job that is written as an object. -/
def misspelt : Json := .obj [("jobs", .obj [("a.b", .obj [("file", .str "a.nix"), ("cache", .arr [])])])]

theorem reportsExactly_misspelt : ∃ config, CIConfig.fromStr misspelt = some (config, ["jobs.a.b.cache"]) ∧
    (ReportsExactly misspelt config ["jobs.a.b.cache"] ↔
      (∀ place ∈ keyPaths misspelt, CIConfig.shape.Unknown place → ∃ path, place = keys path ∧ Alike misspelt path) ∧
        CIConfig.shape.Spares (alike misspelt) misspelt) := by
  have accepted : ∃ config, CIConfig.fromStr misspelt = some (config, ["jobs.a.b.cache"]) := ⟨_, rfl⟩
  exact accepted.imp fun _ read => ⟨read, reportsExactly_iff read⟩

/-- A job that is written as an array, with an object in it that has an unknown key. -/
def inArray : Json :=
  .obj [("jobs", .obj [("a",
    .arr [.str "a.nix", .bool true, .arr [], .null, .obj [("enable", .bool true), ("shell", .str "b")]])])]

theorem inArray_not_reported : ¬ ∀ (document config : Json) (reported : List String),
    CIConfig.fromStr document = some (config, reported) → ReportsExactly document config reported := by
  intro always
  obtain ⟨config, accepted⟩ : ∃ config, CIConfig.fromStr inArray = some (config, []) := ⟨_, rfl⟩
  have listed : [.key "jobs", .key "a", .element 4, .key "shell"] ∈ keyPaths inArray := by decide
  have unknown : CIConfig.shape.Unknown [.key "jobs", .key "a", .element 4, .key "shell"] :=
    .inl ⟨_, List.mem_cons_self, List.mem_cons_self, _, rfl, .inr ⟨by decide, rfl⟩⟩
  obtain ⟨path, -, inside⟩ := (always inArray config [] accepted).complete _ listed unknown
  exact List.not_mem_nil inside

end EkaCI
